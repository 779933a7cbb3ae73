import Mathlib.Data.List.Forall2
import SeededTraits.Mint
import SeededTraits.Proofs.Codec
import SeededTraits.Proofs.Resolution

/-! Deploy arguments on their way into a schema. The list around them is one level more, which text
has no room for where an argument is itself as deep as a text may be. Whatever arguments may follow,
the earlier ones keep their groups and with them their attributes, and of all that cannot be read
the first one is named. -/
namespace SeededTraits
namespace Deploy

def Spells (arg : String) (d : Json) : Prop := Json.parse? (Bytes.ofText arg) = some d

def group? (arg : String) : Option SchemaGroup :=
  match Json.parse? (Bytes.ofText arg) with
  | some (.object members) =>
    some (SchemaGroup.ofEntries (members.map fun m => (.text m.1, m.2.toValue)))
  | _ => none

/-- All arguments leave room for one level around them. -/
def Shallow (args : List String) : Prop :=
  ∀ arg ∈ args, ∀ d, Spells arg d → d.nesting < Json.maxDepth

/-- No argument has an object in which the number key stands first when its keys are in order. -/
def Plain (args : List String) : Prop :=
  ∀ arg ∈ args, ∀ d, Spells arg d → d.isPlain = true

variable {args : List String} {docs : List Json} {c : Container} {bytes : Bytes} {i : Nat}

/-! ### Reading the arguments -/

theorem documentsFrom_eq_ok {index : Nat} {done : List Json}
    (h : documentsFrom index done args = .ok docs) :
    ∃ parsed, docs = done.reverse ++ parsed ∧ List.Forall₂ Spells args parsed := by
  induction args generalizing index done with
  | nil =>
    simp only [documentsFrom, Except.ok.injEq] at h
    exact ⟨[], by simp [h], .nil⟩
  | cons arg args ih =>
    simp only [documentsFrom] at h
    split at h
    · contradiction
    rename_i d hparse
    obtain ⟨parsed, hdocs, hparsed⟩ := ih h
    exact ⟨d :: parsed, by simpa using hdocs, .cons hparse hparsed⟩

theorem documents_eq_ok (h : documents args = .ok docs) : List.Forall₂ Spells args docs := by
  obtain ⟨parsed, rfl, hparsed⟩ := documentsFrom_eq_ok h
  exact hparsed

theorem schemaBytes_eq_ok (h : schemaBytes args c = .ok bytes) :
    ∃ docs, List.Forall₂ Spells args docs ∧ documents args = .ok docs ∧
      c.encode (.array docs) = bytes := by
  simp only [schemaBytes] at h
  split at h
  · contradiction
  rename_i docs hdocs
  exact ⟨docs, documents_eq_ok hdocs, hdocs, Except.ok.inj h⟩

theorem Spells.unique {arg : String} {d d' : Json} (h : Spells arg d) (h' : Spells arg d') :
    d = d' :=
  Option.some.inj (h.symm.trans h')

theorem Spells.group?_eq {arg : String} {d : Json} (h : Spells arg d) :
    group? arg = d.toValue.map?.map SchemaGroup.ofEntries := by
  rw [Spells] at h
  cases d with
  | number n => simp [group?, h, Json.toValue, Json.Number.map?_toValue]
  | object members => simp [group?, h, Value.map?]
  | null | bool | string => simp [group?, h, Json.toValue, Value.map?]
  | array items => simp [group?, h, Value.map?]

theorem ofItems_toValue (h : List.Forall₂ Spells args docs) :
    Schema.ofItems (docs.map Json.toValue) = ⟨args.filterMap group?⟩ := by
  induction h with
  | nil => rfl
  | cons hparse _ ih =>
    simp only [Schema.ofItems, Schema.mk.injEq] at ih
    simp only [Schema.ofItems, List.map_cons, List.filterMap_cons, hparse.group?_eq, ih]

def firstUnreadable? (args : List String) : Option Nat :=
  args.findIdx? fun arg => (Json.parse? (Bytes.ofText arg)).isNone

theorem firstUnreadable?_append_eq_none_iff (a b : List String) :
    firstUnreadable? (a ++ b) = none ↔ firstUnreadable? a = none ∧ firstUnreadable? b = none := by
  simp only [firstUnreadable?, List.findIdx?_eq_none_iff, List.forall_mem_append]

theorem documentsFrom_of_unreadable (h : firstUnreadable? args = some i) (index : Nat)
    (done : List Json) : documentsFrom index done args = .error (.deployArgument (index + i)) := by
  induction args generalizing index i done with
  | nil => contradiction
  | cons arg rest ih =>
    simp only [firstUnreadable?, List.findIdx?_cons] at h
    cases hparse : Json.parse? (Bytes.ofText arg) with
    | none =>
      obtain rfl : 0 = i := by simpa [hparse] using h
      simp only [documentsFrom, hparse, Nat.add_zero]
    | some d =>
      obtain ⟨k, hk, rfl⟩ : ∃ k, firstUnreadable? rest = some k ∧ k + 1 = i := by
        simpa [hparse, firstUnreadable?] using h
      simp only [documentsFrom, hparse]
      rw [ih hk, Nat.add_right_comm, Nat.add_assoc]

theorem exists_documentsFrom (h : firstUnreadable? args = none) (index : Nat) (done : List Json) :
    ∃ docs, documentsFrom index done args = .ok docs := by
  induction args generalizing index done with
  | nil => exact ⟨_, rfl⟩
  | cons arg rest ih =>
    simp only [firstUnreadable?, List.findIdx?_eq_none_iff, List.forall_mem_cons] at h
    cases hparse : Json.parse? (Bytes.ofText arg) with
    | none => simp [hparse] at h
    | some d =>
      simp only [documentsFrom, hparse]
      exact ih (List.findIdx?_eq_none_iff.2 h.2) _ _

theorem schemaBytes_of_unreadable (h : firstUnreadable? args = some i) (c : Container) :
    schemaBytes args c = .error (.malformed (.deployArgument i)) := by
  have documents_error := documentsFrom_of_unreadable h 0 []
  rw [Nat.zero_add] at documents_error
  simp only [schemaBytes, documents, documents_error]

theorem exists_schemaBytes_iff :
    (∃ bytes, schemaBytes args c = .ok bytes) ↔ firstUnreadable? args = none := by
  constructor
  · rintro ⟨bytes, h⟩
    cases hfirst : firstUnreadable? args with
    | none => rfl
    | some i =>
      rw [schemaBytes_of_unreadable hfirst] at h
      contradiction
  · intro h
    obtain ⟨docs, hdocs⟩ := exists_documentsFrom h 0 []
    exact ⟨c.encode (.array docs), by simp only [schemaBytes, documents, hdocs]⟩

/-! ### Reading the schema back -/

/-- The bounds hold of all lists and texts in memory. -/
theorem readable_array (h : List.Forall₂ Spells args docs) (count : args.length < UInt64.size)
    (lengths : ∀ arg ∈ args, (Bytes.ofText arg).length < UInt64.size) :
    Json.Readable (UInt64.size - 1) (Json.maxDepth + 1) (.array docs) := by
  rw [h.length_eq] at count
  refine .array (Nat.le_pred_of_lt count) ?_
  clear count
  induction h with
  | nil => simp
  | cons hparse _ ih =>
    obtain ⟨first, rest⟩ := List.forall_mem_cons.1 lengths
    have readable := (Json.Readable.of_parse? hparse).of_size_le (Nat.le_pred_of_lt first)
    exact List.forall_mem_cons.2 ⟨readable, ih rest⟩

theorem ofValue_toValue (h : List.Forall₂ Spells args docs) :
    Schema.ofValue (Json.toValue (.array docs)) = ⟨args.filterMap group?⟩ := by
  rw [Json.toValue_array]
  exact ofItems_toValue h

theorem legible_array_iff (h : List.Forall₂ Spells args docs) :
    Json.legible Json.maxDepth (.array docs) = true ↔ Shallow args ∧ Plain args := by
  change Json.legible (126 + 1) (.array docs) = true ↔ _
  rw [Json.legible_succ_array, List.all_eq_true, Shallow, Plain, ← forall₂_and]
  induction h with
  | nil => simp
  | @cons arg d args docs hparse _ ih =>
    have head : ((∀ d', Spells arg d' → d'.nesting < Json.maxDepth) ∧
        ∀ d', Spells arg d' → d'.isPlain = true) ↔ Json.legible 126 d = true := by
      rw [Json.legible_eq_true, and_comm, ← forall₂_and]
      refine ⟨fun h => (h d hparse).imp id Nat.le_of_lt_succ, fun h d' h' => ?_⟩
      obtain rfl := hparse.unique h'
      exact h.imp id Nat.lt_succ_of_le
    rw [List.forall_mem_cons, List.forall_mem_cons, head, ih]

theorem parse_binary_schemaBytes (count : args.length < UInt64.size)
    (lengths : ∀ arg ∈ args, (Bytes.ofText arg).length < UInt64.size)
    (h : schemaBytes args .binary = .ok bytes) :
    Schema.parse .binary bytes = .ok ⟨args.filterMap group?⟩ := by
  obtain ⟨docs, spelled, -, rfl⟩ := schemaBytes_eq_ok h
  have storable : Cbor.Storable Cbor.maxDepth (Json.toValue (.array docs)) :=
    ((readable_array spelled count lengths).storable (by decide)).mono (by decide)
  rw [Container.encode, Schema.parse_of_decode (Container.decode_binary_write storable),
    ofValue_toValue spelled]

/-- A text reader finds the same groups, or nothing. -/
theorem parse_text_schemaBytes (count : args.length < UInt64.size)
    (lengths : ∀ arg ∈ args, (Bytes.ofText arg).length < UInt64.size)
    (h : schemaBytes args .text = .ok bytes) :
    (Shallow args ∧ Plain args → Schema.parse .text bytes = .ok ⟨args.filterMap group?⟩) ∧
      (¬ (Shallow args ∧ Plain args) → Schema.parse .text bytes = .error .unreadable) := by
  obtain ⟨docs, spelled, -, rfl⟩ := schemaBytes_eq_ok h
  have decoded := Container.decode_text_write (readable_array spelled count lengths)
  rw [← legible_array_iff spelled, ← ofValue_toValue spelled, Container.encode, Schema.parse,
    decoded]
  constructor
  · intro legible
    rw [if_pos legible]
    rfl
  · intro illegible
    rw [if_neg illegible]
    rfl

/-- Whatever can be packed for a binary reader can be packed for a text reader. The binary reader
finds the groups of those arguments that are objects; the text reader finds the same groups, unless
an argument has as many levels as a text can have, or the number key stands first in it: then it
finds nothing. -/
theorem parse_schemaBytes {binary : Bytes} (count : args.length < UInt64.size)
    (lengths : ∀ arg ∈ args, (Bytes.ofText arg).length < UInt64.size)
    (h : schemaBytes args .binary = .ok binary) :
    Schema.parse .binary binary = .ok ⟨args.filterMap group?⟩ ∧
      ∃ text, schemaBytes args .text = .ok text ∧
        (Shallow args ∧ Plain args → Schema.parse .text text = .ok ⟨args.filterMap group?⟩) ∧
        (¬ (Shallow args ∧ Plain args) → Schema.parse .text text = .error .unreadable) := by
  obtain ⟨docs, -, hdocs, -⟩ := schemaBytes_eq_ok h
  have packed : schemaBytes args .text = .ok (Container.text.encode (.array docs)) := by
    simp only [schemaBytes, hdocs]
  exact ⟨parse_binary_schemaBytes count lengths h, _, packed,
    parse_text_schemaBytes count lengths packed⟩

theorem parse_schemaBytes_power :
    let args := [r#"{"power":{"type":"range","data":{"min":1,"max":10}}}"#, "[7]"]
    let docs : List Json := [.object [("power", .object
      [("data", .object [("max", .number (.ofNat 10)), ("min", .number (.ofNat 1))]),
        ("type", .string "range")])], .array [.number (.ofNat 7)]]
    let binary := Container.binary.encode (.array docs)
    args.length < UInt64.size ∧ (∀ arg ∈ args, (Bytes.ofText arg).length < UInt64.size) ∧
      schemaBytes args .binary = .ok binary ∧
      Schema.parse .binary binary = .ok ⟨args.filterMap group?⟩ ∧ Shallow args ∧ Plain args ∧
      ∃ text, schemaBytes args .text = .ok text ∧
        Schema.parse .text text = .ok ⟨args.filterMap group?⟩ := by
  intro args docs binary
  have count : args.length < UInt64.size := by decide
  have lengths : ∀ arg ∈ args, (Bytes.ofText arg).length < UInt64.size := by decide
  have packed : schemaBytes args .binary = .ok binary := rfl
  have spelled : List.Forall₂ Spells args docs := .cons rfl (.cons rfl .nil)
  have legible : Shallow args ∧ Plain args := (legible_array_iff spelled).1 (by decide)
  obtain ⟨groups, text, packedText, sameGroups, -⟩ := parse_schemaBytes count lengths packed
  exact ⟨count, lengths, packed, groups, legible.1, legible.2, text, packedText,
    sameGroups legible⟩

/-- The text reader does not get past the innermost of 128 arrays. -/
theorem parse_schemaBytes_brackets :
    let arg := String.ofList (List.replicate 127 '[' ++ List.replicate 127 ']')
    ∃ binary text, schemaBytes [arg] .binary = .ok binary ∧ schemaBytes [arg] .text = .ok text ∧
      Schema.parse .binary binary = .ok ⟨[]⟩ ∧ Schema.parse .text text = .error .unreadable := by
  intro arg
  have spelled : Spells arg (.brackets 126) := Json.parse?_brackets (by decide)
  have packed (c : Container) : schemaBytes [arg] c = .ok (c.encode (.array [.brackets 126])) := by
    rw [Spells] at spelled
    simp only [schemaBytes, documents, documentsFrom, spelled]
    rfl
  have lengths : ∀ a ∈ [arg], (Bytes.ofText a).length < UInt64.size := by decide +kernel
  have noGroup : [arg].filterMap group? = [] := by
    rw [List.filterMap_cons, spelled.group?_eq]
    rfl
  have deep : ¬ (Shallow [arg] ∧ Plain [arg]) := by
    rintro ⟨shallow, -⟩
    have levels := shallow arg (List.mem_singleton_self arg) _ spelled
    rw [Json.nesting_brackets] at levels
    exact absurd levels (by decide)
  have binary := parse_binary_schemaBytes (by decide) lengths (packed .binary)
  rw [noGroup] at binary
  exact ⟨_, _, packed .binary, packed .text, binary,
    (parse_text_schemaBytes (by decide) lengths (packed .text)).2 deep⟩

/-! ### Arguments behind others -/

/-- Arguments can be packed together where both halves can; else the first one that is not JSON is
named. The schema has the groups of the first half and then those of the second, and so nothing in
the second half changes an attribute of the first, takes it away or hides its error. The bounds hold
of all lists and texts in memory. -/
theorem schemaBytes_append (a b : List String) :
    ((∃ bytes, schemaBytes (a ++ b) .binary = .ok bytes) ↔
      (∃ front, schemaBytes a .binary = .ok front) ∧ ∃ back, schemaBytes b .binary = .ok back) ∧
    (∀ i, firstUnreadable? (a ++ b) = some i →
      schemaBytes (a ++ b) .binary = .error (.malformed (.deployArgument i))) ∧
    ((a ++ b).length < UInt64.size →
      (∀ arg ∈ a ++ b, (Bytes.ofText arg).length < UInt64.size) →
      ∀ bytes, schemaBytes (a ++ b) .binary = .ok bytes →
        ∃ front back first second, schemaBytes a .binary = .ok front ∧
          schemaBytes b .binary = .ok back ∧ Schema.parse .binary front = .ok first ∧
          Schema.parse .binary back = .ok second ∧
          Schema.parse .binary bytes = .ok ⟨first.groups ++ second.groups⟩ ∧
          ∀ d user, Schema.Merges (first.resolve d user) (second.resolve d user)
            (Schema.resolve ⟨first.groups ++ second.groups⟩ d user)) := by
  have split : (∃ bytes, schemaBytes (a ++ b) .binary = .ok bytes) ↔
      (∃ front, schemaBytes a .binary = .ok front) ∧ ∃ back, schemaBytes b .binary = .ok back := by
    rw [exists_schemaBytes_iff, exists_schemaBytes_iff, exists_schemaBytes_iff]
    exact firstUnreadable?_append_eq_none_iff a b
  refine ⟨split, fun i h => schemaBytes_of_unreadable h .binary, fun count lengths bytes h => ?_⟩
  obtain ⟨⟨front, hfront⟩, back, hback⟩ := split.1 ⟨bytes, h⟩
  obtain ⟨lengthsFront, lengthsBack⟩ := List.forall_mem_append.1 lengths
  have whole := parse_binary_schemaBytes count lengths h
  rw [List.length_append] at count
  rw [List.filterMap_append] at whole
  exact ⟨front, back, _, _, hfront, hback, parse_binary_schemaBytes (by omega) lengthsFront hfront,
    parse_binary_schemaBytes (by omega) lengthsBack hback, whole, Schema.merges_resolve _ _⟩

theorem schemaBytes_append_power :
    let a := [r#"{"power":{"type":"range","data":{"min":1,"max":10}}}"#]
    let b := ["7", r#"{"power":{"type":"range","data":{"min":0,"max":0}}}"#]
    let power (min max : Nat) : Json := .object [("power", .object
      [("data", .object [("max", .number (.ofNat max)), ("min", .number (.ofNat min))]),
        ("type", .string "range")])]
    let bytes := Container.binary.encode (.array [power 1 10, .number (.ofNat 7), power 0 0])
    (a ++ b).length < UInt64.size ∧ (∀ arg ∈ a ++ b, (Bytes.ofText arg).length < UInt64.size) ∧
      schemaBytes (a ++ b) .binary = .ok bytes ∧
      (∃ front back first second, schemaBytes a .binary = .ok front ∧
        schemaBytes b .binary = .ok back ∧ Schema.parse .binary front = .ok first ∧
        Schema.parse .binary back = .ok second ∧
        Schema.parse .binary bytes = .ok ⟨first.groups ++ second.groups⟩ ∧
        ∀ d user, Schema.Merges (first.resolve d user) (second.resolve d user)
          (Schema.resolve ⟨first.groups ++ second.groups⟩ d user)) ∧
      schemaBytes (b ++ ["]"] ++ a ++ ["["]) .binary = .error (.malformed (.deployArgument 2)) := by
  intro a b power bytes
  have count : (a ++ b).length < UInt64.size := by decide
  have lengths : ∀ arg ∈ a ++ b, (Bytes.ofText arg).length < UInt64.size := by decide
  have packed : schemaBytes (a ++ b) .binary = .ok bytes := rfl
  obtain ⟨-, -, together⟩ := schemaBytes_append a b
  obtain ⟨-, named, -⟩ := schemaBytes_append (b ++ ["]"] ++ a) ["["]
  exact ⟨count, lengths, packed, together count lengths bytes packed, named 2 rfl⟩

end Deploy
end SeededTraits
