import Mathlib.Data.List.Induction
import SeededTraits.Proofs.KeyOrder
import SeededTraits.Proofs.Value
import SeededTraits.Schema

/-! What a decoded value means as a schema, said without the readers: which entries of a map count
for a key, when a value defines a range and between which bounds, and why it is passed over if it
does not. -/
namespace SeededTraits

namespace Value

def members (entries : List (Value × Value)) : List (String × Value) :=
  entries.filterMap fun e => e.1.text?.map fun key => (key, e.2)

theorem find?_text (name : String) (entries : List (Value × Value)) :
    (entries.find? fun e => e.1.text? = some name).map Prod.snd =
      (members entries).lookup name := by
  induction entries with
  | nil => rfl
  | cons e rest ih =>
    cases hkey : e.1.text? with
    | none => simpa [members, hkey] using ih
    | some key =>
      by_cases hname : name = key
      · simp [members, hkey, hname]
      · simpa [members, hkey, KeyOrder.lookup_cons_ite, hname, Ne.symm hname] using ih

theorem field?_eq (name : String) (entries : List (Value × Value)) :
    field? name entries = (members entries).reverse.lookup name := by
  rw [field?, find?_text, members, members, List.filterMap_reverse]

end Value

namespace SchemaGroup

def keys (g : SchemaGroup) : List String :=
  g.entries.map Prod.fst

theorem keys_put (key : String) (entry : SchemaEntry) (entries : List (String × SchemaEntry)) :
    (put key entry entries).map Prod.fst =
      if key ∈ entries.map Prod.fst then entries.map Prod.fst
      else entries.map Prod.fst ++ [key] := by
  induction entries with
  | nil => simp [put]
  | cons head rest ih =>
    obtain ⟨k, e⟩ := head
    by_cases hk : k = key
    · simp [put, hk]
    · have other : key ≠ k := Ne.symm hk
      by_cases hrest : key ∈ rest.map Prod.fst <;> simp_all [put]

def putAll (entries : List (String × SchemaEntry)) (members : List (String × Value)) :
    List (String × SchemaEntry) :=
  members.foldl (fun entries m => put m.1 (SchemaEntry.ofValue m.2) entries) entries

theorem ofEntries_eq (fields : List (Value × Value)) :
    ofEntries fields = ⟨putAll [] (Value.members fields)⟩ := by
  rw [ofEntries, putAll, Value.members, List.foldl_filterMap]
  congr 2
  funext entries field
  cases field.1.text? <;> rfl

theorem lookup_putAll (entries : List (String × SchemaEntry)) (members : List (String × Value))
    (key : String) :
    (putAll entries members).lookup key =
      ((members.reverse.lookup key).map SchemaEntry.ofValue).or (entries.lookup key) := by
  induction members generalizing entries with
  | nil => rfl
  | cons m rest ih =>
    obtain ⟨k, v⟩ := m
    have tail := ih (put k (SchemaEntry.ofValue v) entries)
    rw [lookup_put] at tail
    change (putAll (put k (SchemaEntry.ofValue v) entries) rest).lookup key = _
    rw [tail, List.reverse_cons, List.lookup_append]
    by_cases hkey : key = k
    · cases rest.reverse.lookup key <;> simp [hkey]
    · cases rest.reverse.lookup key <;> simp [hkey, KeyOrder.lookup_cons_ite]

theorem nodup_putAll {entries : List (String × SchemaEntry)} (h : (entries.map Prod.fst).Nodup)
    (members : List (String × Value)) : ((putAll entries members).map Prod.fst).Nodup := by
  induction members generalizing entries with
  | nil => exact h
  | cons m rest ih =>
    change ((putAll (put m.1 (SchemaEntry.ofValue m.2) entries) rest).map Prod.fst).Nodup
    apply ih
    rw [keys_put]
    split
    · exact h
    · rename_i fresh
      rw [← List.concat_eq_append]
      exact h.concat fresh

theorem nodup_keys_ofEntries (fields : List (Value × Value)) : (ofEntries fields).keys.Nodup := by
  have none_yet : (([] : List (String × SchemaEntry)).map Prod.fst).Nodup := List.nodup_nil
  rw [ofEntries_eq]
  exact nodup_putAll none_yet _

theorem get?_ofEntries (fields : List (Value × Value)) (key : String) :
    (ofEntries fields).get? key = (Value.field? key fields).map SchemaEntry.ofValue := by
  rw [ofEntries_eq, get?, lookup_putAll, Value.field?_eq]
  simp

end SchemaGroup

/-! ### Meaning -/

namespace Value

/-- The last of the entries under a text key stores `v`. -/
def LastUnder (name : String) (entries : List (Value × Value)) (v : Value) : Prop :=
  ∃ before after, entries = before ++ (.text name, v) :: after ∧ ∀ e ∈ after, e.1 ≠ .text name

theorem field?_eq_some_iff {name : String} {entries : List (Value × Value)} {v : Value} :
    field? name entries = some v ↔ LastUnder name entries v := by
  simp only [field?, Option.map_eq_some_iff, List.find?_eq_some_iff_append, text?_eq_some_iff,
    decide_eq_true_eq, Bool.not_eq_true', decide_eq_false_iff_not]
  constructor
  · rintro ⟨⟨key, v'⟩, ⟨rfl, after, before, hentries, hafter⟩, rfl⟩
    refine ⟨before.reverse, after.reverse, ?_, fun e he => hafter e (List.mem_reverse.1 he)⟩
    rw [← List.reverse_reverse entries, hentries]
    simp
  · rintro ⟨before, after, rfl, hafter⟩
    refine ⟨(.text name, v), ⟨rfl, after.reverse, before.reverse, by simp, fun e he => ?_⟩, rfl⟩
    exact hafter e (List.mem_reverse.1 he)

/-- A map that names its type and has data of it. -/
def Defines (v : Value) (type : String) (data : Value) : Prop :=
  ∃ fields, v = .map fields ∧ LastUnder "type" fields (.text type) ∧ LastUnder "data" fields data

/-- Data with a least and a greatest integer. -/
def Limits (data : Value) (min max : Int) : Prop :=
  ∃ fields least greatest, data = .map fields ∧ LastUnder "min" fields least ∧
    LastUnder "max" fields greatest ∧ least.Denotes min ∧ greatest.Denotes max

def definition? (v : Value) : Option (String × Value) :=
  v.map?.bind fun fields => (field? "type" fields).bind fun kind =>
    (field? "data" fields).bind fun data => kind.text?.map fun type => (type, data)

theorem definition?_eq_some_iff {v : Value} {type : String} {data : Value} :
    v.definition? = some (type, data) ↔ v.Defines type data := by
  simp only [definition?, Option.bind_eq_some_iff, Option.map_eq_some_iff, map?_eq_some_iff,
    text?_eq_some_iff, field?_eq_some_iff, Prod.mk.injEq]
  constructor
  · rintro ⟨fields, hv, kind, hkind, data', hdata, type', rfl, rfl, rfl⟩
    exact ⟨fields, hv, hkind, hdata⟩
  · rintro ⟨fields, hv, hkind, hdata⟩
    exact ⟨fields, hv, _, hkind, data, hdata, type, rfl, rfl, rfl⟩

theorem definition?_eq_none_iff {v : Value} :
    v.definition? = none ↔ ¬∃ type data, v.Defines type data := by
  simp only [← definition?_eq_some_iff, ← Prod.exists', Option.eq_none_iff_forall_ne_some]
  simp

end Value

theorem Range.ofValue?_eq_some_iff {data : Value} {r : Range} :
    Range.ofValue? data = some r ↔ data.Limits r.min r.max := by
  obtain ⟨min, max⟩ := r
  have parts : data.Limits min max ↔ ∃ fields, data.map? = some fields ∧
      (Value.field? "min" fields).bind Value.integer? = some min ∧
        (Value.field? "max" fields).bind Value.integer? = some max := by
    simp only [Value.Limits, ← Value.map?_eq_some_iff, ← Value.field?_eq_some_iff,
      ← Value.integer?_eq_some_iff, Option.bind_eq_some_iff]
    constructor
    · rintro ⟨fields, least, greatest, hdata, hleast, hgreatest, hmin, hmax⟩
      exact ⟨fields, hdata, ⟨least, hleast, hmin⟩, greatest, hgreatest, hmax⟩
    · rintro ⟨fields, hdata, ⟨least, hleast, hmin⟩, greatest, hgreatest, hmax⟩
      exact ⟨fields, least, greatest, hdata, hleast, hgreatest, hmin, hmax⟩
  rw [parts, Range.ofValue?]
  cases data.map? with
  | none => simp
  | some fields =>
    simp only [Option.some.injEq, exists_eq_left']
    cases (Value.field? "min" fields).bind Value.integer? <;>
      cases (Value.field? "max" fields).bind Value.integer? <;> simp

namespace SchemaEntry

variable {v : Value}

/-- The entry that a definition is read as. -/
def ofDefinition (type : String) (data : Value) : SchemaEntry :=
  if type = "range" then
    match Range.ofValue? data with
    | none => .ignored .malformedRange
    | some r => .range r
  else .ignored (.unsupportedType type)

theorem ofValue_eq (v : Value) :
    ofValue v =
      (v.definition?.map fun d => ofDefinition d.1 d.2).getD (.ignored .notADefinition) := by
  rw [ofValue, Value.definition?]
  cases v.map? with
  | none => rfl
  | some fields =>
    cases hkind : Value.field? "type" fields with
    | none => simp [hkind]
    | some kind =>
      cases hdata : Value.field? "data" fields with
      | none => simp [hkind, hdata]
      | some data =>
        cases htype : kind.text? with
        | none => simp [hkind, hdata, htype]
        | some type =>
          simp only [Option.bind_some, hkind, hdata, htype, Option.map_some, Option.getD_some]
          rfl

/-- An entry that says more than that its value is no definition comes from the definition that the
value is. -/
theorem ofValue_eq_iff {entry : SchemaEntry} (h : entry ≠ .ignored .notADefinition) :
    ofValue v = entry ↔ ∃ type data, v.Defines type data ∧ ofDefinition type data = entry := by
  simp only [← Value.definition?_eq_some_iff]
  rw [ofValue_eq]
  cases v.definition? with
  | none => simpa using h.symm
  | some d => simp [Prod.ext_iff]

theorem ofDefinition_eq_range_iff {type : String} {data : Value} {r : Range} :
    ofDefinition type data = .range r ↔ type = "range" ∧ Range.ofValue? data = some r := by
  unfold ofDefinition
  by_cases known : type = "range"
  · cases Range.ofValue? data <;> simp [known]
  · simp [known]

theorem ofDefinition_eq_malformedRange_iff {type : String} {data : Value} :
    ofDefinition type data = .ignored .malformedRange ↔
      type = "range" ∧ Range.ofValue? data = none := by
  unfold ofDefinition
  by_cases known : type = "range"
  · cases Range.ofValue? data <;> simp [known]
  · simp [known]

theorem ofDefinition_eq_unsupportedType_iff {type name : String} {data : Value} :
    ofDefinition type data = .ignored (.unsupportedType name) ↔ type = name ∧ name ≠ "range" := by
  unfold ofDefinition
  by_cases known : type = "range"
  · subst known
    cases Range.ofValue? data <;> simp [eq_comm]
  · simp only [if_neg known, ignored.injEq, IgnoreReason.unsupportedType.injEq]
    exact ⟨fun h => ⟨h, h ▸ known⟩, And.left⟩

theorem ofDefinition_ne (type : String) (data : Value) :
    ofDefinition type data ≠ .ignored .notADefinition := by
  unfold ofDefinition
  by_cases known : type = "range"
  · cases Range.ofValue? data <;> simp [known]
  · simp [known]

/-! ### The meaning of an entry -/

theorem ofValue_eq_range_iff {r : Range} :
    ofValue v = .range r ↔ ∃ data, v.Defines "range" data ∧ data.Limits r.min r.max := by
  refine (ofValue_eq_iff (by simp)).trans ?_
  simp only [ofDefinition_eq_range_iff, Range.ofValue?_eq_some_iff]
  constructor
  · rintro ⟨_, data, hv, rfl, limits⟩
    exact ⟨data, hv, limits⟩
  · rintro ⟨data, hv, limits⟩
    exact ⟨_, data, hv, rfl, limits⟩

theorem ofValue_eq_malformedRange_iff :
    ofValue v = .ignored .malformedRange ↔
      ∃ data, v.Defines "range" data ∧ ¬∃ min max, data.Limits min max := by
  have unlimited (data : Value) :
      Range.ofValue? data = none ↔ ¬∃ min max, data.Limits min max := by
    rw [Option.eq_none_iff_forall_ne_some]
    exact ⟨fun h ⟨min, max, limits⟩ => h ⟨min, max⟩ (Range.ofValue?_eq_some_iff.2 limits),
      fun h r hr => h ⟨r.min, r.max, Range.ofValue?_eq_some_iff.1 hr⟩⟩
  refine (ofValue_eq_iff (by simp)).trans ?_
  simp only [ofDefinition_eq_malformedRange_iff, unlimited]
  constructor
  · rintro ⟨_, data, hv, rfl, limits⟩
    exact ⟨data, hv, limits⟩
  · rintro ⟨data, hv, limits⟩
    exact ⟨_, data, hv, rfl, limits⟩

theorem ofValue_eq_unsupportedType_iff {name : String} :
    ofValue v = .ignored (.unsupportedType name) ↔
      name ≠ "range" ∧ ∃ data, v.Defines name data := by
  refine (ofValue_eq_iff (by simp)).trans ?_
  simp only [ofDefinition_eq_unsupportedType_iff]
  constructor
  · rintro ⟨_, data, hv, rfl, unknown⟩
    exact ⟨unknown, data, hv⟩
  · rintro ⟨unknown, data, hv⟩
    exact ⟨_, data, hv, rfl, unknown⟩

theorem ofValue_eq_notADefinition_iff :
    ofValue v = .ignored .notADefinition ↔ ¬∃ type data, v.Defines type data := by
  rw [← Value.definition?_eq_none_iff, ofValue_eq]
  cases v.definition? with
  | none => simp
  | some d => simp [ofDefinition_ne]

end SchemaEntry

namespace SchemaGroup

theorem eraseDups_concat (keys : List String) (key : String) :
    (keys ++ [key]).eraseDups =
      if key ∈ keys then keys.eraseDups else keys.eraseDups ++ [key] := by
  rw [List.eraseDups_append]
  by_cases old : key ∈ keys <;> simp [List.removeAll, List.eraseDups_cons, old]

/-- Members set one after another leave their keys in the order in which each comes first. -/
theorem keys_putAll (members : List (String × Value)) :
    (putAll [] members).map Prod.fst = (members.map Prod.fst).eraseDups := by
  induction members using List.reverseRecOn with
  | nil => rfl
  | append_singleton members m ih =>
    have step : putAll [] (members ++ [m]) =
        put m.1 (SchemaEntry.ofValue m.2) (putAll [] members) := by
      simp [putAll]
    rw [step, keys_put, ih, List.map_append, List.map_singleton, eraseDups_concat]
    simp only [List.mem_eraseDups]

theorem keys_ofEntries (fields : List (Value × Value)) :
    (ofEntries fields).keys = (fields.filterMap fun e => e.1.text?).eraseDups := by
  have texts : (Value.members fields).map Prod.fst = fields.filterMap fun e => e.1.text? := by
    simp [Value.members, List.map_filterMap, Function.comp_def]
  rw [ofEntries_eq, keys, keys_putAll, texts]

theorem get?_ofEntries_eq_some_iff {fields : List (Value × Value)} {key : String}
    {entry : SchemaEntry} :
    (ofEntries fields).get? key = some entry ↔
      ∃ v, Value.LastUnder key fields v ∧ SchemaEntry.ofValue v = entry := by
  simp only [get?_ofEntries, Option.map_eq_some_iff, Value.field?_eq_some_iff]

end SchemaGroup

namespace Schema

theorem groups_ofValue (v : Value) :
    (ofValue v).groups = match v with
      | .array items => (items.filterMap Value.map?).map SchemaGroup.ofEntries
      | _ => [] := by
  cases v with
  | array items => exact List.map_filterMap.symm
  | _ => rfl

/-- Ranges and ignored entries are all entries, told apart and otherwise left in place. -/
theorem partition_entries (schema : Schema) :
    schema.entries.partition (fun e => e.2.range?.isSome) =
      (schema.definitions.map fun d => (d.1, .range d.2),
        schema.ignored.map fun d => (d.1, .ignored d.2)) := by
  rw [List.partition_eq_filter_filter, definitions, ignored]
  induction schema.entries with
  | nil => rfl
  | cons e rest ih =>
    obtain ⟨ranges, others⟩ := Prod.mk.inj ih
    obtain ⟨key, entry⟩ := e
    cases entry with
    | range r => simp [List.filter_cons, List.filterMap_cons, ranges, others]
    | ignored reason => simp [List.filterMap_cons, ranges, others]

/-- A group has its text keys in the order in which they come first, and under each the entry of its
last value. An entry is a range only of a definition of that type between integers, and otherwise
tells what is missing. A schema has one group for each map of a list, and its ranges and ignored
entries are what the groups hold. -/
theorem ofValue_meaning (fields : List (Value × Value)) (x v : Value) :
    ((SchemaGroup.ofEntries fields).keys.Nodup ∧
      (SchemaGroup.ofEntries fields).keys = (fields.filterMap fun e => e.1.text?).eraseDups ∧
      ∀ key entry, (SchemaGroup.ofEntries fields).get? key = some entry ↔
        ∃ last, Value.LastUnder key fields last ∧ SchemaEntry.ofValue last = entry) ∧
    ((∀ min max, SchemaEntry.ofValue x = .range ⟨min, max⟩ ↔
        ∃ data, x.Defines "range" data ∧ data.Limits min max) ∧
      (SchemaEntry.ofValue x = .ignored .malformedRange ↔
        ∃ data, x.Defines "range" data ∧ ¬∃ min max, data.Limits min max) ∧
      (∀ type, SchemaEntry.ofValue x = .ignored (.unsupportedType type) ↔
        type ≠ "range" ∧ ∃ data, x.Defines type data) ∧
      (SchemaEntry.ofValue x = .ignored .notADefinition ↔ ¬∃ type data, x.Defines type data)) ∧
    (ofValue v).groups = (match v with
      | .array items => (items.filterMap Value.map?).map SchemaGroup.ofEntries
      | _ => []) ∧
    ((ofValue v).groups.flatMap SchemaGroup.entries).partition (fun e => e.2.range?.isSome) =
      ((ofValue v).definitions.map fun d => (d.1, .range d.2),
        (ofValue v).ignored.map fun d => (d.1, .ignored d.2)) := by
  refine ⟨⟨SchemaGroup.nodup_keys_ofEntries fields, SchemaGroup.keys_ofEntries fields,
    fun key entry => SchemaGroup.get?_ofEntries_eq_some_iff⟩, ⟨fun min max => ?_, ?_, fun type => ?_,
    ?_⟩, groups_ofValue v, partition_entries _⟩
  · exact SchemaEntry.ofValue_eq_range_iff
  · exact SchemaEntry.ofValue_eq_malformedRange_iff
  · exact SchemaEntry.ofValue_eq_unsupportedType_iff
  · exact SchemaEntry.ofValue_eq_notADefinition_iff

end Schema

end SeededTraits
