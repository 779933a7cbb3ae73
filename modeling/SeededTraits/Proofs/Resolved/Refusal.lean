import SeededTraits.Proofs.Resolved.Acceptance

/-! Which byte strings are no outputs, and why: the first entry that breaks a rule tells the cause,
by the first rule that it breaks, and a missing identifier is told of only where no entry does. -/
namespace SeededTraits
namespace Resolved

variable {before after entries : List (Value × Value)} {e : Value × Value} {cause : Malformation}
  {s : Resolved} {k : String}

/-- Behind the entries `before`, the first rule that an entry breaks is the one that `cause` names.
-/
inductive Breaks (before : List (Value × Value)) : Value × Value → Malformation → Prop
  | nonTextKey {key v : Value} (hkey : ∀ s, key ≠ .text s) : Breaks before (key, v) .nonTextKey
  | idNotText {v : Value} (hv : ∀ s, v ≠ .text s) : Breaks before (.text idKey, v) .idNotText
  | duplicateId {s : String} (again : .text idKey ∈ before.map Prod.fst) :
    Breaks before (.text idKey, .text s) .duplicateId
  | notAnInteger {key : String} {v : Value} (hkey : key ≠ idKey) (hv : v.plainInteger? = none) :
    Breaks before (.text key, v) (.notAnInteger key)
  | outOfRange {key : String} {v : Value} {i : Int} (hkey : key ≠ idKey)
      (hv : v.plainInteger? = some i) (outside : i < 0 ∨ 2 ^ 32 - 1 < i) :
    Breaks before (.text key, v) (.outOfRange key)
  | duplicateKey {key : String} {v : Value} {i : Int} (hkey : key ≠ idKey)
      (hv : v.plainInteger? = some i) (inside : 0 ≤ i ∧ i ≤ 2 ^ 32 - 1)
      (again : .text key ∈ before.map Prod.fst) : Breaks before (.text key, v) (.duplicateKey key)

def Unbroken (entries : List (Value × Value)) : Prop :=
  ∀ before e after, entries = before ++ e :: after → ∀ cause, ¬Breaks before e cause

/-- The first entry that breaks a rule does so for `cause`. -/
def FirstBroken (entries : List (Value × Value)) (cause : Malformation) : Prop :=
  ∃ before e after, entries = before ++ e :: after ∧ Unbroken before ∧ Breaks before e cause

/-! ### Fields of entries -/

theorem field?_of_ne {key : String} (hkey : key ≠ idKey) (v : Value) :
    field? (.text key, v) = (v.plainInteger?.bind word32?).map fun n => (key, .value n) :=
  if_neg hkey

theorem field?_eq_id_iff {id : String} :
    field? e = some (k, .id id) ↔ k = idKey ∧ e = (.text idKey, .text id) := by
  obtain ⟨key, v⟩ := e
  constructor
  · intro h
    obtain rfl : key = .text k := key_of_field? h
    by_cases hk : k = idKey
    · subst hk
      obtain ⟨s, hs, hid⟩ := Option.map_eq_some_iff.1 h
      obtain rfl : s = id := by simpa using hid
      obtain rfl : v = .text s := Value.text?_eq_some_iff.1 hs
      exact ⟨rfl, rfl⟩
    · obtain ⟨n, -, hvalue⟩ := Option.map_eq_some_iff.1 ((field?_of_ne hk v).symm.trans h)
      simp at hvalue
  · rintro ⟨rfl, heq⟩
    obtain ⟨rfl, rfl⟩ := Prod.mk.inj heq
    rfl

theorem field?_eq_value_iff {n : UInt32} :
    field? e = some (k, .value n) ↔
      k ≠ idKey ∧ e.1 = .text k ∧ e.2.plainInteger? = some (n.toNat : Int) := by
  obtain ⟨key, v⟩ := e
  constructor
  · intro h
    obtain rfl : key = .text k := key_of_field? h
    by_cases hk : k = idKey
    · subst hk
      obtain ⟨s, -, hvalue⟩ := Option.map_eq_some_iff.1 h
      simp at hvalue
    · obtain ⟨m, hm, hvalue⟩ := Option.map_eq_some_iff.1 ((field?_of_ne hk v).symm.trans h)
      obtain rfl : m = n := by simpa using hvalue
      obtain ⟨i, hi, hword⟩ := Option.bind_eq_some_iff.1 hm
      rw [word32?_eq_some_iff.1 hword] at hi
      exact ⟨hk, rfl, hi⟩
  · rintro ⟨hk, rfl, hv⟩
    rw [field?_of_ne hk, hv, Option.bind_some, word32?_toNat]
    rfl

namespace Draft

variable {draft next : Draft}

/-- What has been taken in of `before` is all of it. -/
def Reads (draft : Draft) (before : List (Value × Value)) : Prop :=
  (draft.fields.map some).Perm (before.map field?)

theorem Reads.mem_keys (h : draft.Reads before) {key : String} :
    key ∈ draft.fields.map Prod.fst ↔ .text key ∈ before.map Prod.fst := by
  constructor
  · intro hkey
    obtain ⟨f, hf, rfl⟩ := List.mem_map.1 hkey
    obtain ⟨e, he, hfield⟩ := List.mem_map.1 (h.subset (List.mem_map.2 ⟨f, hf, rfl⟩))
    exact List.mem_map.2 ⟨e, he, key_of_field? hfield⟩
  · intro hkey
    obtain ⟨e, he, heq⟩ := List.mem_map.1 hkey
    obtain ⟨f, hf, hfield⟩ := List.mem_map.1 (h.symm.subset (List.mem_map.2 ⟨e, he, rfl⟩))
    obtain rfl : f.1 = key := by simpa [heq] using (key_of_field? hfield.symm).symm
    exact List.mem_map.2 ⟨f, hf, rfl⟩

theorem Reads.id_isSome (h : draft.Reads before) :
    draft.id.isSome = true ↔ .text idKey ∈ before.map Prod.fst := by
  rw [← h.mem_keys]
  obtain ⟨id, attributes⟩ := draft
  cases id with
  | some id => simp [fields]
  | none => simpa [fields] using fun n hn => attributes.id_free (idKey, n) hn rfl

theorem Reads.insert?_eq_none_iff (h : draft.Reads before) {key : String} (hkey : key ≠ idKey)
    (n : UInt32) :
    draft.attributes.insert? key n = none ↔ .text key ∈ before.map Prod.fst := by
  have taken : (draft.attributes.get? key).isSome = true ↔ key ∈ draft.fields.map Prod.fst := by
    rw [Option.isSome_iff_ne_none, AttributeMap.get?, ne_eq, KeyOrder.lookup_eq_none_iff_notMem,
      not_not, fields, List.map_append, List.mem_append, List.map_map]
    cases draft.id <;> simp [hkey]
  rw [AttributeMap.insert?_eq_none_iff, ← h.mem_keys, ← taken]
  simp [hkey]

theorem Reads.add (h : draft.Reads before) (hadd : draft.add e = .ok next) :
    next.Reads (before ++ [e]) := by
  obtain ⟨f, hf, added⟩ := add_eq_ok hadd
  refine (added.map some).trans ?_
  rw [List.map_cons, List.map_append, List.map_singleton, hf]
  exact (h.cons _).trans (List.perm_append_singleton _ _).symm

theorem add_eq_error_iff_of_nonText {key v : Value} (hkey : ∀ s, key ≠ .text s) :
    draft.add (key, v) = .error cause ↔ Breaks before (key, v) cause := by
  have unnamed : key.text? = none :=
    Option.eq_none_iff_forall_ne_some.2 fun s hs => hkey s (Value.text?_eq_some_iff.1 hs)
  have refused : draft.add (key, v) = .error .nonTextKey := by simp only [Draft.add, unnamed]
  rw [refused]
  constructor
  · intro h
    obtain rfl := Except.error.inj h
    exact .nonTextKey hkey
  · intro h
    cases h with
    | nonTextKey => rfl
    | _ => exact absurd rfl (hkey _)

theorem Reads.add_eq_error_iff_of_id (h : draft.Reads before) (v : Value) :
    draft.add (.text idKey, v) = .error cause ↔ Breaks before (.text idKey, v) cause := by
  constructor
  · intro herror
    simp only [Draft.add, Value.text?_text, if_pos] at herror
    split at herror
    · rename_i hv
      obtain rfl := Except.error.inj herror
      exact .idNotText fun s hs => by simp [hs] at hv
    · rename_i s hs
      obtain rfl := Value.text?_eq_some_iff.1 hs
      split at herror
      · rename_i again
        obtain rfl := Except.error.inj herror
        exact .duplicateId (h.id_isSome.1 again)
      · contradiction
  · intro hbreaks
    cases hbreaks with
    | nonTextKey hkey => exact absurd rfl (hkey _)
    | idNotText hv =>
      have untold : v.text? = none :=
        Option.eq_none_iff_forall_ne_some.2 fun s hs => hv s (Value.text?_eq_some_iff.1 hs)
      simp only [Draft.add, Value.text?_text, if_pos, untold]
    | duplicateId again => simp only [Draft.add, Value.text?_text, if_pos, h.id_isSome.2 again]
    | _ => contradiction

theorem Reads.add_eq_error_iff_of_ne (h : draft.Reads before) {key : String} (hkey : key ≠ idKey)
    (v : Value) :
    draft.add (.text key, v) = .error cause ↔ Breaks before (.text key, v) cause := by
  constructor
  · intro herror
    simp only [Draft.add, Value.text?_text, if_neg hkey] at herror
    split at herror
    · rename_i hv
      obtain rfl := Except.error.inj herror
      exact .notAnInteger hkey hv
    rename_i i hv
    split at herror
    · rename_i hword
      obtain rfl := Except.error.inj herror
      have outside := word32?_eq_none_iff.1 hword
      exact .outOfRange hkey hv (by omega)
    rename_i n hword
    split at herror
    · rename_i hinsert
      obtain rfl := Except.error.inj herror
      have inside := word32?_eq_some hword
      exact .duplicateKey hkey hv (by omega) ((h.insert?_eq_none_iff hkey n).1 hinsert)
    · contradiction
  · intro hbreaks
    cases hbreaks with
    | nonTextKey hkey => exact absurd rfl (hkey _)
    | idNotText => contradiction
    | duplicateId => contradiction
    | notAnInteger _ hv => simp only [Draft.add, Value.text?_text, if_neg hkey, hv]
    | @outOfRange _ _ i _ hv outside =>
      have word : word32? i = none := word32?_eq_none_iff.2 (by omega)
      simp only [Draft.add, Value.text?_text, if_neg hkey, hv, word]
    | @duplicateKey _ _ i _ hv inside again =>
      cases hword : word32? i with
      | none =>
        have outside := word32?_eq_none_iff.1 hword
        omega
      | some n =>
        have taken := (h.insert?_eq_none_iff hkey n).2 again
        simp only [Draft.add, Value.text?_text, if_neg hkey, hv, hword, taken]

/-- An entry is refused for the rule that it breaks behind what has been read. -/
theorem Reads.add_eq_error_iff (h : draft.Reads before) :
    draft.add e = .error cause ↔ Breaks before e cause := by
  obtain ⟨key, v⟩ := e
  cases hname : key.text? with
  | none =>
    exact add_eq_error_iff_of_nonText fun s hs => by simp [hs] at hname
  | some name =>
    obtain rfl := Value.text?_eq_some_iff.1 hname
    by_cases hid : name = idKey
    · subst hid
      exact h.add_eq_error_iff_of_id v
    · exact h.add_eq_error_iff_of_ne hid v

/-! ### All entries -/

theorem addAll_append (draft : Draft) (xs ys : List (Value × Value)) :
    draft.addAll (xs ++ ys) = (draft.addAll xs).bind fun next => next.addAll ys := by
  induction xs generalizing draft with
  | nil => rfl
  | cons x xs ih =>
    simp only [List.cons_append, addAll]
    cases draft.add x with
    | error cause => rfl
    | ok next => exact ih next

theorem exists_of_addAll_eq_error (h : draft.addAll entries = .error cause) :
    ∃ before e after mid, entries = before ++ e :: after ∧ draft.addAll before = .ok mid ∧
      mid.add e = .error cause := by
  induction entries generalizing draft with
  | nil => contradiction
  | cons x rest ih =>
    simp only [addAll] at h
    cases hadd : draft.add x with
    | error cause' =>
      rw [hadd] at h
      obtain rfl := Except.error.inj h
      exact ⟨[], x, rest, draft, rfl, rfl, hadd⟩
    | ok next =>
      rw [hadd] at h
      obtain ⟨before, e, after, mid, rfl, hbefore, he⟩ := ih h
      exact ⟨x :: before, e, after, mid, rfl, by simp only [addAll, hadd, hbefore], he⟩

theorem addAll_of_add_eq_error {mid : Draft} (hbefore : draft.addAll before = .ok mid)
    (he : mid.add e = .error cause) (after : List (Value × Value)) :
    draft.addAll (before ++ e :: after) = .error cause := by
  rw [addAll_append, hbefore]
  simp only [Except.bind, addAll, he]

theorem reads_of_addAll (h : addAll {} entries = .ok draft) : draft.Reads entries := by
  have read_fields := addAll_eq_ok h
  have start : (fields {}).map some = [] := rfl
  rwa [start, List.append_nil] at read_fields

theorem exists_addAll_iff : (∃ draft, addAll {} entries = .ok draft) ↔ Unbroken entries := by
  constructor
  · rintro ⟨draft, h⟩ before e after rfl cause hbreaks
    cases hbefore : addAll {} before with
    | error cause' =>
      rw [addAll_append, hbefore] at h
      contradiction
    | ok mid =>
      have refused := (reads_of_addAll hbefore).add_eq_error_iff.2 hbreaks
      rw [addAll_of_add_eq_error hbefore refused] at h
      contradiction
  · intro unbroken
    cases h : addAll {} entries with
    | ok draft => exact ⟨draft, rfl⟩
    | error cause =>
      obtain ⟨before, e, after, mid, hentries, hbefore, he⟩ := exists_of_addAll_eq_error h
      have hbreaks := (reads_of_addAll hbefore).add_eq_error_iff.1 he
      exact absurd hbreaks (unbroken before e after hentries cause)

theorem addAll_eq_error_iff : addAll {} entries = .error cause ↔ FirstBroken entries cause := by
  constructor
  · intro h
    obtain ⟨before, e, after, mid, hentries, hbefore, he⟩ := exists_of_addAll_eq_error h
    exact ⟨before, e, after, hentries, exists_addAll_iff.1 ⟨mid, hbefore⟩,
      (reads_of_addAll hbefore).add_eq_error_iff.1 he⟩
  · rintro ⟨before, e, after, rfl, unbroken, hbreaks⟩
    obtain ⟨mid, hbefore⟩ := exists_addAll_iff.2 unbroken
    exact addAll_of_add_eq_error hbefore ((reads_of_addAll hbefore).add_eq_error_iff.2 hbreaks) _

theorem Reads.finish_eq_error_iff (h : draft.Reads before) :
    draft.finish = .error cause ↔ .text idKey ∉ before.map Prod.fst ∧ cause = .missingId := by
  rw [← h.id_isSome]
  unfold finish
  cases draft.id <;> simp [eq_comm]

end Draft

/-! ### Maps -/

theorem ofValue_map_eq_error_iff :
    ofValue (.map entries) = .error cause ↔ FirstBroken entries cause ∨
      Unbroken entries ∧ .text idKey ∉ entries.map Prod.fst ∧ cause = .missingId := by
  have steps : ofValue (.map entries) = (Draft.addAll {} entries).bind Draft.finish := rfl
  rw [steps, ← Draft.addAll_eq_error_iff, ← Draft.exists_addAll_iff]
  cases hadd : Draft.addAll {} entries with
  | error cause' => simp [Except.bind]
  | ok draft => simp [Except.bind, (Draft.reads_of_addAll hadd).finish_eq_error_iff]

/-- What a map has to be to stand for an output. -/
structure Conforms (entries : List (Value × Value)) : Prop where
  keys : ∀ e ∈ entries, ∃ key, e.1 = .text key
  distinct : (entries.map Prod.fst).Nodup
  id : ∃ s, (.text idKey, .text s) ∈ entries
  values : ∀ e ∈ entries, e.1 ≠ .text idKey →
    ∃ i, e.2.plainInteger? = some i ∧ 0 ≤ i ∧ i ≤ 2 ^ 32 - 1

/-- The identifier and the attributes of an output are what its map stores, no more and no less. -/
theorem ofValue_holds (h : ofValue (.map entries) = .ok s) :
    (.text idKey, .text s.id) ∈ entries ∧ ∀ k n, s.get? k = some n ↔
      k ≠ idKey ∧ ∃ v, (.text k, v) ∈ entries ∧ v.plainInteger? = some (n.toNat : Int) := by
  constructor
  · obtain ⟨e, he, hf⟩ := (mem_fields_of_ofValue h).1 (mem_fields.2 (.inl ⟨rfl, rfl⟩))
    obtain ⟨-, rfl⟩ := field?_eq_id_iff.1 hf
    exact he
  · intro k n
    rw [← mem_fields_value, mem_fields_of_ofValue h]
    simp only [field?_eq_value_iff]
    constructor
    · rintro ⟨⟨_, v⟩, he, hk, rfl, hv⟩
      exact ⟨hk, v, he, hv⟩
    · rintro ⟨hk, v, he, hv⟩
      exact ⟨_, he, hk, rfl, hv⟩

theorem conforms_of_ofValue (h : ofValue (.map entries) = .ok s) : Conforms entries where
  keys e he := by
    obtain ⟨f, -, hf⟩ := exists_field?_of_ofValue h he
    exact ⟨f.1, key_of_field? hf⟩
  distinct := nodup_keys_of_ofValue h
  id := ⟨s.id, (ofValue_holds h).1⟩
  values e he hkey := by
    obtain ⟨⟨key, field⟩, hmem, hf⟩ := exists_field?_of_ofValue h he
    rcases mem_fields.1 hmem with ⟨rfl, -⟩ | ⟨n, -, rfl⟩
    · exact absurd (key_of_field? hf) hkey
    · have word := n.toNat_lt
      exact ⟨n.toNat, (field?_eq_value_iff.1 hf).2.2, by omega, by omega⟩

theorem Conforms.unbroken (h : Conforms entries) : Unbroken entries := by
  rintro before ⟨key, v⟩ after rfl cause hbreaks
  have here : (key, v) ∈ before ++ (key, v) :: after := by simp
  have fresh : key ∉ before.map Prod.fst := by
    intro again
    have distinct := h.distinct
    rw [List.map_append, List.map_cons] at distinct
    exact (List.nodup_append.1 distinct).2.2 key again key (List.mem_cons_self ..) rfl
  cases hbreaks with
  | nonTextKey hkey =>
    obtain ⟨name, hname⟩ := h.keys _ here
    exact hkey name hname
  | idNotText hv =>
    obtain ⟨s, hs⟩ := h.id
    have same := List.inj_on_of_nodup_map h.distinct here hs rfl
    exact hv s (congrArg Prod.snd same)
  | duplicateId again => exact fresh again
  | notAnInteger hkey hv =>
    obtain ⟨i, hi, -⟩ := h.values _ here (by simpa using hkey)
    simp [hv] at hi
  | outOfRange hkey hv outside =>
    obtain ⟨i, hi, least, most⟩ := h.values _ here (by simpa using hkey)
    obtain rfl := Option.some.inj (hv.symm.trans hi)
    omega
  | duplicateKey _ _ _ again => exact fresh again

theorem exists_ofValue_iff : (∃ s, ofValue (.map entries) = .ok s) ↔ Conforms entries := by
  refine ⟨fun ⟨s, h⟩ => conforms_of_ofValue h, fun h => ?_⟩
  cases hvalue : ofValue (.map entries) with
  | ok s => exact ⟨s, rfl⟩
  | error cause =>
    rcases ofValue_map_eq_error_iff.1 hvalue with ⟨before, e, after, hentries, -, hbreaks⟩ | missing
    · exact absurd hbreaks (h.unbroken before e after hentries cause)
    · obtain ⟨s, hs⟩ := h.id
      exact absurd (List.mem_map.2 ⟨_, hs, rfl⟩) missing.2.1

theorem ofValue_map_eq_ok_iff_conforms :
    ofValue (.map entries) = .ok s ↔ Conforms entries ∧ (.text idKey, .text s.id) ∈ entries ∧
      ∀ k n, s.get? k = some n ↔
        k ≠ idKey ∧ ∃ v, (.text k, v) ∈ entries ∧ v.plainInteger? = some (n.toNat : Int) := by
  refine ⟨fun h => ⟨conforms_of_ofValue h, ofValue_holds h⟩, fun ⟨conforms, hid, hget⟩ => ?_⟩
  obtain ⟨t, ht⟩ := exists_ofValue_iff.2 conforms
  obtain ⟨hid', hget'⟩ := ofValue_holds ht
  have id : s.id = t.id := by
    simpa using List.inj_on_of_nodup_map conforms.distinct hid hid' rfl
  have same : s = t := ext_get? id fun k => Option.ext fun n => by rw [hget, hget']
  rw [same, ht]

/-- A byte string is read as an output if it holds a map with different text keys, a text under the
identifier's and a 32-bit integer under every other, and the output is then all that the map stores.
Otherwise it is refused: with the cause why no value can be read, for not being a map, for the first
entry that breaks a rule, or, where no entry does, for the missing identifier. -/
theorem decode_verdict (c : Container) (bs : Bytes) :
    ((∃ s, decode c bs = .ok s) ↔ ∃ entries, c.decode bs = .ok (.map entries) ∧ Conforms entries) ∧
    (∀ s, decode c bs = .ok s ↔ ∃ entries, c.decode bs = .ok (.map entries) ∧ Conforms entries ∧
      (.text idKey, .text s.id) ∈ entries ∧ ∀ k n, s.get? k = some n ↔
        k ≠ idKey ∧ ∃ v, (.text k, v) ∈ entries ∧ v.plainInteger? = some (n.toNat : Int)) ∧
    ∀ cause, decode c bs = .error cause ↔
      c.decode bs = .error cause ∨
      (∃ v, c.decode bs = .ok v ∧ (∀ entries, v ≠ .map entries) ∧ cause = .expectedMap) ∨
      ∃ entries, c.decode bs = .ok (.map entries) ∧ (FirstBroken entries cause ∨
        Unbroken entries ∧ .text idKey ∉ entries.map Prod.fst ∧ cause = .missingId) := by
  have steps : decode c bs = (c.decode bs).bind ofValue := rfl
  rw [steps]
  cases c.decode bs with
  | error cause => simp [Except.bind]
  | ok v =>
    cases hmap : v.map? with
    | none =>
      have other : ∀ entries, v ≠ .map entries := fun entries hv => by simp [hv, Value.map?] at hmap
      simp [Except.bind, ofValue, hmap, other, eq_comm]
    | some entries =>
      obtain rfl := Value.map?_eq_some_iff.1 hmap
      refine ⟨?_, fun s => ?_, fun cause => ?_⟩
      · simpa [Except.bind] using exists_ofValue_iff
      · simpa [Except.bind] using ofValue_map_eq_ok_iff_conforms
      · simpa [Except.bind] using ofValue_map_eq_error_iff

end Resolved
end SeededTraits
