import SeededTraits.Codec
import SeededTraits.KeyOrder
import SeededTraits.Schema

/-! Resolved attributes: an identifier and 32-bit values under keys of their own. Once set, a value
stays; the key of the identifier is never an attribute. As outputs they are one flat map, written in
key order and read back in any. -/
namespace SeededTraits

/-- The key under which outputs carry the identifier. -/
def idKey : String := "id"

structure AttributeMap where
  entries : List (String × UInt32)
  ascending : KeyOrder.Ascending entries
  id_free : ∀ e ∈ entries, e.1 ≠ idKey
  deriving DecidableEq

namespace AttributeMap

def empty : AttributeMap := ⟨[], List.Pairwise.nil, fun _ h => absurd h List.not_mem_nil⟩

def get? (m : AttributeMap) (key : String) : Option UInt32 :=
  m.entries.lookup key

/-- Adds an attribute, unless its key is taken or is that of the identifier. -/
def insert? (m : AttributeMap) (key : String) (value : UInt32) : Option AttributeMap :=
  if h : key = idKey then none
  else if (m.get? key).isSome then none
  else some {
    entries := KeyOrder.insertNew key value m.entries
    ascending := m.ascending.insertNew key value
    id_free := fun e he => by
      rcases KeyOrder.mem_insertNew he with rfl | he
      · exact h
      · exact m.id_free e he }

theorem insert?_eq_none_iff {m : AttributeMap} {key : String} {value : UInt32} :
    m.insert? key value = none ↔ key = idKey ∨ (m.get? key).isSome = true := by
  unfold insert?
  split
  · simp [*]
  split <;> simp [*]

theorem get?_of_insert? {m m' : AttributeMap} {key : String} {value : UInt32}
    (h : m.insert? key value = some m') (k : String) :
    m'.get? k = if k = key then some value else m.get? k := by
  unfold insert? at h
  split at h
  · contradiction
  split at h
  · contradiction
  rename_i hfree
  rw [← Option.some.inj h]
  have hnone : m.entries.lookup key = none := Option.not_isSome_iff_eq_none.1 hfree
  split
  · rename_i he
    simp [get?, he, KeyOrder.lookup_insertNew_self m.ascending, hnone]
  · rename_i hne
    simp [get?, KeyOrder.lookup_insertNew_of_ne hne]

end AttributeMap

structure Resolved where
  id : String
  attributes : AttributeMap := .empty
  deriving DecidableEq

/-- What an output writes under one key. -/
inductive OutputField
  | id (s : String)
  | value (n : UInt32)
  deriving DecidableEq

namespace Resolved

def new (id : String) : Resolved :=
  ⟨id, .empty⟩

def get? (s : Resolved) (key : String) : Option UInt32 :=
  s.attributes.get? key

def insert? (s : Resolved) (key : String) (value : UInt32) : Option Resolved :=
  (s.attributes.insert? key value).map fun attributes => { s with attributes }

def insert (s : Resolved) (key : String) (value : UInt32) : Resolved :=
  (s.insert? key value).getD s

/-- Adds attributes one after the other, each where that is possible. -/
def insertAll (s : Resolved) (attributes : List (String × UInt32)) : Resolved :=
  attributes.foldl (fun s a => s.insert a.1 a.2) s

def fieldCount (s : Resolved) : Nat :=
  s.attributes.entries.length + 1

/-- Identifier and attributes in key order. -/
def fields (s : Resolved) : List (String × OutputField) :=
  KeyOrder.sort ((s.attributes.entries.map fun e => (e.1, .value e.2)) ++ [(idKey, .id s.id)])

@[simp] theorem id_insert (s : Resolved) (key : String) (value : UInt32) :
    (s.insert key value).id = s.id := by
  unfold insert insert?
  cases s.attributes.insert? key value <;> rfl

end Resolved

/-! ### Outputs -/

def OutputField.toJson : OutputField → Json
  | id s => .string s
  | value n => .number (.ofNat n.toNat)

def OutputField.toValue : OutputField → Value
  | id s => .text s
  | value n => .unsigned n.toUInt64

def OutputField.cborBytes : OutputField → Bytes
  | id s => Cbor.stringBytes .text (Bytes.ofText s)
  | value n => Cbor.Head.write .unsigned n.toUInt64

namespace Resolved

/-- What a reader of either container finds in the output. -/
def toValue (s : Resolved) : Value :=
  .map (s.fields.map fun e => (.text e.1, e.2.toValue))

def toJson (s : Resolved) : Json :=
  .object (s.fields.map fun e => (e.1, e.2.toJson))

/-- The output in CBOR, laid out field by field without a value in between. -/
def cborBytes (s : Resolved) : Bytes :=
  Cbor.Head.write .map (UInt64.ofNat s.fields.length) ++
    s.fields.flatMap fun e => Cbor.stringBytes .text (Bytes.ofText e.1) ++ e.2.cborBytes

def encode (s : Resolved) : Container → Bytes
  | .binary => s.cborBytes
  | .text => s.toJson.write

/-- An output of which only some entries have been read. -/
structure Draft where
  id : Option String := none
  attributes : AttributeMap := .empty
  deriving DecidableEq

namespace Draft

/-- Takes in one more entry, or tells the first rule that it breaks. -/
def add (draft : Draft) (entry : Value × Value) : Except Malformation Draft :=
  match entry.1.text? with
  | none => .error .nonTextKey
  | some key =>
    if key = idKey then
      match entry.2.text? with
      | none => .error .idNotText
      | some s => if draft.id.isSome then .error .duplicateId else .ok { draft with id := some s }
    else
      match entry.2.plainInteger? with
      | none => .error (.notAnInteger key)
      | some i =>
        match word32? i with
        | none => .error (.outOfRange key)
        | some n =>
          match draft.attributes.insert? key n with
          | none => .error (.duplicateKey key)
          | some attributes => .ok { draft with attributes }

def addAll (draft : Draft) : List (Value × Value) → Except Malformation Draft
  | [] => .ok draft
  | entry :: rest =>
    match draft.add entry with
    | .error e => .error e
    | .ok draft => draft.addAll rest

/-- The output made anew from what has been read. -/
def finish (draft : Draft) : Except Malformation Resolved :=
  match draft.id with
  | none => .error .missingId
  | some id => .ok ((Resolved.new id).insertAll draft.attributes.entries)

end Draft

def ofValue (v : Value) : Except Malformation Resolved :=
  match v.map? with
  | none => .error .expectedMap
  | some entries => (Draft.addAll {} entries).bind Draft.finish

def decode (c : Container) (bs : Bytes) : Except Malformation Resolved :=
  (c.decode bs).bind ofValue

end Resolved

end SeededTraits
