import SeededTraits.Codec
import SeededTraits.Value

/-! Attribute schemas: groups of keyed entries, each either a range to draw from or ignored for a
stated reason. A schema is read from a list of maps; whatever else stands in the list, and whatever
in a map does not define a range, is passed over and never refused. -/
namespace SeededTraits

def word32? : Int → Option UInt32
  | .ofNat n => if n < UInt32.size then some (UInt32.ofNat n) else none
  | .negSucc _ => none

/-- Inclusive bounds that some value lies between. -/
structure Bounds where
  min : UInt32
  max : UInt32
  min_le_max : min ≤ max
  deriving DecidableEq

/-- Inclusive bounds as a schema states them, whether or not they can be honoured. -/
structure Range where
  min : Int
  max : Int
  deriving DecidableEq

/-- The bounds in 32 bits, if they fit and are in order. -/
def Range.bounds? (r : Range) : Option Bounds :=
  match word32? r.min, word32? r.max with
  | some min, some max => if h : min ≤ max then some ⟨min, max, h⟩ else none
  | _, _ => none

inductive IgnoreReason
  /-- No map with both `type` and `data`, or the type is not text. -/
  | notADefinition
  | unsupportedType (name : String)
  /-- A range without integer bounds. -/
  | malformedRange
  deriving DecidableEq

inductive SchemaEntry
  | range (r : Range)
  | ignored (reason : IgnoreReason)
  deriving DecidableEq

namespace SchemaEntry

def range? : SchemaEntry → Option Range
  | range r => some r
  | ignored _ => none

def ignored? : SchemaEntry → Option IgnoreReason
  | range _ => none
  | ignored reason => some reason

@[simp] theorem range?_range (r : Range) : (range r).range? = some r := rfl

@[simp] theorem range?_ignored (reason : IgnoreReason) : (ignored reason).range? = none := rfl

@[simp] theorem ignored?_range (r : Range) : (range r).ignored? = none := rfl

@[simp] theorem ignored?_ignored (reason : IgnoreReason) :
    (ignored reason).ignored? = some reason := rfl

end SchemaEntry

structure SchemaGroup where
  entries : List (String × SchemaEntry)
  deriving DecidableEq

/-- The first entry under a key. -/
def SchemaGroup.get? (g : SchemaGroup) (key : String) : Option SchemaEntry :=
  g.entries.lookup key

structure Schema where
  groups : List SchemaGroup
  deriving DecidableEq

namespace Schema

def isEmpty (s : Schema) : Bool := s.groups.isEmpty

def entries (s : Schema) : List (String × SchemaEntry) :=
  s.groups.flatMap SchemaGroup.entries

/-- The ranges, in the order in which they are resolved. -/
def definitions (s : Schema) : List (String × Range) :=
  s.entries.filterMap fun e => e.2.range?.map fun r => (e.1, r)

def ignored (s : Schema) : List (String × IgnoreReason) :=
  s.entries.filterMap fun e => e.2.ignored?.map fun reason => (e.1, reason)

theorem entries_append (a b : List SchemaGroup) :
    (Schema.mk (a ++ b)).entries = (Schema.mk a).entries ++ (Schema.mk b).entries := by
  simp [entries]

theorem definitions_append (a b : List SchemaGroup) :
    (Schema.mk (a ++ b)).definitions = (Schema.mk a).definitions ++ (Schema.mk b).definitions := by
  simp [definitions, entries_append]

end Schema

/-! ### Schemas from decoded values -/

/-- The last value under a text key. -/
def Value.field? (name : String) (fields : List (Value × Value)) : Option Value :=
  (fields.reverse.find? fun e => e.1.text? = some name).map Prod.snd

def Range.ofValue? (data : Value) : Option Range :=
  match data.map? with
  | none => none
  | some fields =>
    match (Value.field? "min" fields).bind Value.integer?,
        (Value.field? "max" fields).bind Value.integer? with
    | some min, some max => some ⟨min, max⟩
    | _, _ => none

def SchemaEntry.ofValue (v : Value) : SchemaEntry :=
  match v.map? with
  | none => .ignored .notADefinition
  | some fields =>
    match Value.field? "type" fields, Value.field? "data" fields with
    | some kind, some data =>
      match kind.text? with
      | none => .ignored .notADefinition
      | some name =>
        if name = "range" then
          match Range.ofValue? data with
          | none => .ignored .malformedRange
          | some r => .range r
        else .ignored (.unsupportedType name)
    | _, _ => .ignored .notADefinition

namespace SchemaGroup

/-- Sets an entry: in its old place if the key is there, at the end if it is new. -/
def put (key : String) (entry : SchemaEntry) :
    List (String × SchemaEntry) → List (String × SchemaEntry)
  | [] => [(key, entry)]
  | (k, e) :: rest => if k = key then (k, entry) :: rest else (k, e) :: put key entry rest

theorem lookup_put (key k : String) (entry : SchemaEntry)
    (entries : List (String × SchemaEntry)) :
    (put key entry entries).lookup k = if k = key then some entry else entries.lookup k := by
  have beq (a b : String) : (a == b) = decide (a = b) := rfl
  induction entries with
  | nil =>
    by_cases h : k = key <;> simp [put, List.lookup_cons, beq, h]
  | cons head rest ih =>
    obtain ⟨k', e⟩ := head
    unfold put
    split
    · rename_i hk'
      by_cases h : k = key <;> simp [List.lookup_cons, beq, hk', h]
    · rename_i hk'
      by_cases h : k = k'
      · have hne : k ≠ key := fun he => hk' (h ▸ he)
        simp [h, hk']
      · simp [List.lookup_cons, beq, h, ih]

/-- A repeated key keeps its first place and its last value; a key that is not text has none. -/
def ofEntries (fields : List (Value × Value)) : SchemaGroup :=
  ⟨fields.foldl (fun entries field =>
    match field.1.text? with
    | none => entries
    | some key => put key (SchemaEntry.ofValue field.2) entries) []⟩

end SchemaGroup

namespace Schema

def ofItems (items : List Value) : Schema :=
  ⟨items.filterMap fun item => item.map?.map SchemaGroup.ofEntries⟩

/-- Anything but a list is a schema without groups. -/
def ofValue : Value → Schema
  | .array items => ofItems items
  | _ => ⟨[]⟩

def parse (c : Container) (bs : Bytes) : Except Malformation Schema :=
  (c.decode bs).map ofValue

end Schema

end SeededTraits
