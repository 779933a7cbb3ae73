import SeededTraits.Proofs.Cbor.RoundTrip
import SeededTraits.Proofs.Resolved.Acceptance
import SeededTraits.Proofs.Resolved.RoundTrip

/-! Lists of members, written as they stand in either container, and the output that is read from
them. A text keeps the last of the members under one key before anything is asked of them, a map in
CBOR keeps them all. -/
namespace SeededTraits

/-- What stands in a member: a text, or an integer of any width. -/
inductive Scalar
  | text (s : String)
  | integer (i : Int)
  deriving DecidableEq

namespace Scalar

def toJson : Scalar → Json
  | text s => .string s
  | integer i => .number (.ofInt i)

def toValue : Scalar → Value
  | text s => .text s
  | integer i => .ofInt i

end Scalar

/-- Members in the order in which they are written; keys may be repeated. -/
abbrev Members := List (String × Scalar)

namespace Members

def toValue (members : Members) : Value :=
  .map (members.map fun m => (.text m.1, m.2.toValue))

/-- The members one after another, in the text of an object or in a map of definite length. -/
def encode (members : Members) : Container → Bytes
  | .binary => Cbor.write members.toValue
  | .text => Json.write (.object (members.map fun m => (m.1, m.2.toJson)))

end Members

/-! ### Members as fields -/

namespace Scalar

variable {key : String} {f : String × OutputField} {v : Scalar} {depth : Nat}

theorem length_text_lt {s : String} (fits : (Cbor.write (text s).toValue).length < UInt64.size) :
    (Bytes.ofText s).length < UInt64.size :=
  Nat.lt_trans (Cbor.length_lt_stringBytes .text (Bytes.ofText s)) fits

theorem readable_toJson (fits : (Cbor.write v.toValue).length < UInt64.size) :
    Json.Readable UInt64.size depth v.toJson := by
  cases v with
  | text s => exact .string (Nat.le_of_lt (length_text_lt fits))
  | integer i => exact .number (Json.Number.wellFormed_ofInt i)

theorem legible_toJson (v : Scalar) (depth : Nat) : Json.legible depth v.toJson = true := by
  cases v <;> simp [toJson, Json.legible, Json.isPlain, Json.nesting]

theorem toValue_toJson_integer (i : Int) :
    (integer i).toJson.toValue = .ofInt (clampWide i) := by
  have digits : (Json.Number.ofInt i).isInteger = true := rfl
  rw [toJson, Json.toValue, Json.Number.toValue_of_isInteger digits, Json.Number.integer_ofInt]

theorem field?_toJson (key : String) (v : Scalar) :
    Resolved.field? (.text key, v.toJson.toValue) = Resolved.field? (.text key, v.toValue) := by
  cases v with
  | text s => rfl
  | integer i =>
    rw [toValue_toJson_integer, toValue, Resolved.field?_ofInt, Resolved.field?_ofInt,
      word32?_clampWide]

theorem yields {width : Nat} (fits : (Cbor.write v.toValue).length < UInt64.size) :
    Reader.Yields (Cbor.item width depth) (Cbor.write v.toValue) v.toValue := by
  cases v with
  | text s => exact .of_eq_some (Cbor.item_write (.text (length_text_lt fits)) width)
  | integer i => exact Cbor.yields_ofInt fits

theorem storable_of_field? (fits : (Cbor.write v.toValue).length < UInt64.size)
    (h : Resolved.field? (.text key, v.toValue) = some f) : Cbor.Storable depth v.toValue := by
  cases v with
  | text s => exact .text (length_text_lt fits)
  | integer i =>
    rw [toValue, Resolved.field?_ofInt] at h
    split at h
    · contradiction
    obtain ⟨n, hn, -⟩ := Option.map_eq_some_iff.1 h
    have bounds := word32?_eq_some hn
    exact .integer (by unfold leastWide; omega) (by omega)

end Scalar

namespace Members

variable {members : Members} {s : Resolved}

/-- The members are few enough, and each is short enough, to stand behind their lengths. -/
structure Fit (members : Members) : Prop where
  count : members.length < UInt64.size
  keys : ∀ m ∈ members, (Bytes.ofText m.1).length < UInt64.size
  values : ∀ m ∈ members, (Cbor.write m.2.toValue).length < UInt64.size

theorem Fit.lastOfEach (h : members.Fit) : Fit (KeyOrder.lastOfEach members) where
  count := Nat.lt_of_le_of_lt (KeyOrder.length_lastOfEach_le members) h.count
  keys m hm := h.keys m (KeyOrder.mem_of_mem_lastOfEach hm)
  values m hm := h.values m (KeyOrder.mem_of_mem_lastOfEach hm)

def entryBytes (m : String × Scalar) : Bytes := Cbor.write (.text m.1) ++ Cbor.write m.2.toValue

theorem encode_binary (members : Members) :
    members.encode .binary =
      Cbor.Head.write .map (UInt64.ofNat members.length) ++ members.flatMap entryBytes := by
  simp only [encode, toValue, Cbor.write_map, List.flatMap_map, List.length_map]
  rfl

theorem length_key_lt_entryBytes (m : String × Scalar) :
    (Bytes.ofText m.1).length < (entryBytes m).length := by
  have key : (Bytes.ofText m.1).length < (Cbor.write (.text m.1)).length :=
    Cbor.length_lt_stringBytes .text (Bytes.ofText m.1)
  rw [entryBytes, List.length_append]
  omega

theorem length_value_le_entryBytes (m : String × Scalar) :
    (Cbor.write m.2.toValue).length ≤ (entryBytes m).length := by
  rw [entryBytes, List.length_append]
  omega

theorem Fit.of_length_encode (h : (members.encode .binary).length < UInt64.size) : members.Fit := by
  rw [encode_binary, List.length_append] at h
  have count : members.length ≤ (members.flatMap entryBytes).length :=
    Bytes.count_le_flatMap fun m _ => Nat.zero_lt_of_lt (length_key_lt_entryBytes m)
  have entry (m) (hm : m ∈ members) : (entryBytes m).length ≤ (members.flatMap entryBytes).length :=
    Bytes.length_le_flatMap hm
  refine ⟨by omega, fun m hm => ?_, fun m hm => ?_⟩
  · have key := length_key_lt_entryBytes m
    have whole := entry m hm
    omega
  · have value := length_value_le_entryBytes m
    have whole := entry m hm
    omega

/-- A text is read as the last member under each key, unless the number key comes first. -/
theorem decode_text (h : members.Fit) (ordinary : Json.opensPlain members = true) :
    Container.text.decode (members.encode .text) =
      .ok (.map ((KeyOrder.lastOfEach members).map fun m => (.text m.1, m.2.toJson.toValue))) := by
  have depth : (Json.maxDepth - 1) + 1 = Json.maxDepth := rfl
  have inner : ∀ m ∈ members.map fun m => (m.1, m.2.toJson),
      Json.Readable UInt64.size (Json.maxDepth - 1) m.2 := by
    intro member hmember
    obtain ⟨m, hm, rfl⟩ := List.mem_map.1 hmember
    exact Scalar.readable_toJson (h.values m hm)
  have legible : ∀ m ∈ members.map fun m => (m.1, m.2.toJson),
      Json.legible (Json.maxDepth - 1) m.2 = true := by
    intro member hmember
    obtain ⟨m, -, rfl⟩ := List.mem_map.1 hmember
    exact m.2.legible_toJson _
  have front : Json.opensPlain (members.map fun m => (m.1, m.2.toJson)) = true := by
    rwa [Json.opensPlain_map]
  have read := Json.parse?_write_object depth inner legible
  rw [Json.ofMembers?_of_opensPlain front, Json.ofMembers, KeyOrder.lastOfEach_map_snd] at read
  simp [Container.decode, encode, read, Function.comp_def]

theorem decode_text_eq_ok_iff (h : members.Fit)
    (ordinary : Json.opensPlain members = true) :
    Resolved.decode .text (members.encode .text) = .ok s ↔
      Resolved.ofValue (toValue (KeyOrder.lastOfEach members)) = .ok s := by
  have read : Resolved.decode .text (members.encode .text) = Resolved.ofValue
      (.map ((KeyOrder.lastOfEach members).map fun m => (.text m.1, m.2.toJson.toValue))) := by
    rw [Resolved.decode, decode_text h ordinary]
    rfl
  rw [read, toValue, Resolved.ofValue_map_eq_ok_iff, Resolved.ofValue_map_eq_ok_iff]
  simp only [List.map_map, Function.comp_def, Scalar.field?_toJson]

theorem exists_field? {m : String × Scalar} (h : Resolved.ofValue members.toValue = .ok s)
    (hm : m ∈ members) : ∃ f, Resolved.field? (.text m.1, m.2.toValue) = some f := by
  obtain ⟨f, -, hf⟩ := Resolved.exists_field?_of_ofValue h (List.mem_map.2 ⟨m, hm, rfl⟩)
  exact ⟨f, hf⟩

theorem decode_binary (h : members.Fit) (hs : Resolved.ofValue members.toValue = .ok s) :
    Container.binary.decode (members.encode .binary) = .ok members.toValue := by
  refine Container.decode_binary_write (.map ?_ (fun e he => ?_) fun e he => ?_)
  · rw [List.length_map]
    exact h.count
  · obtain ⟨m, hm, rfl⟩ := List.mem_map.1 he
    exact .text (h.keys m hm)
  · obtain ⟨m, hm, rfl⟩ := List.mem_map.1 he
    obtain ⟨f, hf⟩ := exists_field? hs hm
    exact Scalar.storable_of_field? (h.values m hm) hf

theorem eq_of_decode_binary {v : Value} (h : members.Fit)
    (hv : Container.binary.decode (members.encode .binary) = .ok v) : v = members.toValue := by
  have found (width : Nat) :
      Reader.Yields (Cbor.item width Cbor.maxDepth) (members.encode .binary) members.toValue := by
    refine Cbor.yields_map ?_ (fun e he => ?_) fun e he => ?_
    · rw [List.length_map]
      exact h.count
    · obtain ⟨m, hm, rfl⟩ := List.mem_map.1 he
      exact .of_eq_some (Cbor.item_write (.text (h.keys m hm)) width)
    · obtain ⟨m, hm, rfl⟩ := List.mem_map.1 he
      exact Scalar.yields (h.values m hm)
  simp only [Container.decode] at hv
  split at hv
  · contradiction
  · rename_i v' hread
    have found_here := found (members.encode .binary).length [] (v', [])
    rw [List.append_nil] at found_here
    cases found_here hread
    exact (Except.ok.inj hv).symm
  · contradiction

theorem decode_binary_eq_ok_iff (h : members.Fit) :
    Resolved.decode .binary (members.encode .binary) = .ok s ↔
      Resolved.ofValue members.toValue = .ok s := by
  constructor
  · intro hs
    obtain ⟨v, hv, hs⟩ := Except.bind_eq_ok.1 hs
    rwa [eq_of_decode_binary h hv] at hs
  · intro hs
    rw [Resolved.decode, decode_binary h hs]
    exact hs

theorem nodup_of_ofValue (h : Resolved.ofValue members.toValue = .ok s) :
    (members.map Prod.fst).Nodup := by
  have distinct := Resolved.nodup_keys_of_ofValue h
  rw [List.map_map] at distinct
  exact .of_map Value.text (by rwa [List.map_map])

theorem ofValue_lastOfEach (h : (members.map Prod.fst).Nodup) :
    Resolved.ofValue (toValue (KeyOrder.lastOfEach members)) = .ok s ↔
      Resolved.ofValue members.toValue = .ok s := by
  have same_fields :=
    (KeyOrder.lastOfEach_perm h).map fun m => Resolved.field? (.text m.1, m.2.toValue)
  simp only [toValue, Resolved.ofValue_map_eq_ok_iff, List.map_map, Function.comp_def]
  exact ⟨same_fields.symm.trans, same_fields.trans⟩

end Members

namespace Resolved

/-- One output read twice, or none both times. -/
inductive Alike : Except Malformation Resolved → Except Malformation Resolved → Prop
  | accepted (s : Resolved) : Alike (.ok s) (.ok s)
  | refused (cause cause' : Malformation) : Alike (.error cause) (.error cause')

theorem Alike.of_iff {x y : Except Malformation Resolved} (h : ∀ s, x = .ok s ↔ y = .ok s) :
    Alike x y := by
  cases x with
  | ok s =>
    rw [(h s).1 rfl]
    exact .accepted s
  | error cause =>
    cases y with
    | ok s => exact absurd ((h s).2 rfl) nofun
    | error cause' => exact .refused cause cause'

/-- Both containers read one output from members with different keys, or both refuse them. Where a
key is repeated, only a text can be read, and it is read as if the last member under each key were
the only one. The number key must not come first, as it would make a number of the text. The bound
on the length holds of all byte strings in memory. -/
theorem decode_members {members : Members}
    (hlength : (members.encode .binary).length < UInt64.size)
    (ordinary : Json.opensPlain members = true) :
    if (members.map Prod.fst).Nodup then
      Alike (decode .text (members.encode .text)) (decode .binary (members.encode .binary))
    else
      (∃ cause, decode .binary (members.encode .binary) = .error cause) ∧
        Alike (decode .text (members.encode .text))
          (decode .binary (Members.encode (KeyOrder.lastOfEach members) .binary)) := by
  have h : members.Fit := .of_length_encode hlength
  split
  · rename_i distinct
    refine .of_iff fun s => ?_
    rw [Members.decode_text_eq_ok_iff h ordinary, Members.decode_binary_eq_ok_iff h,
      Members.ofValue_lastOfEach distinct]
  · rename_i repeated
    constructor
    · cases hdecode : decode .binary (members.encode .binary) with
      | error cause => exact ⟨cause, rfl⟩
      | ok s =>
        exact absurd (Members.nodup_of_ofValue ((Members.decode_binary_eq_ok_iff h).1 hdecode))
          repeated
    · refine .of_iff fun s => ?_
      rw [Members.decode_text_eq_ok_iff h ordinary, Members.decode_binary_eq_ok_iff h.lastOfEach]

theorem decode_members_level :
    let members : Members := [("level", .integer 7), ("id", .text "a")]
    (members.encode .binary).length < UInt64.size ∧
      Json.opensPlain members = true ∧ (members.map Prod.fst).Nodup ∧
      decode .binary (members.encode .binary) = .ok ((Resolved.mk "a" .empty).insert "level" 7) ∧
      Alike (decode .text (members.encode .text)) (decode .binary (members.encode .binary)) := by
  intro members
  have hlength : (members.encode .binary).length < UInt64.size := by decide
  have ordinary : Json.opensPlain members = true := by decide
  have distinct : (members.map Prod.fst).Nodup := by decide
  have value : decode .binary (members.encode .binary) =
      .ok ((Resolved.mk "a" .empty).insert "level" 7) := by
    unfold members
    rfl
  have alike := decode_members hlength ordinary
  rw [if_pos distinct] at alike
  exact ⟨hlength, ordinary, distinct, value, alike⟩

/-- An identifier or an attribute that is written twice is refused in CBOR alone. -/
theorem decode_members_repeated :
    let ids : Members := [("id", .text "a"), ("id", .text "b")]
    let levels : Members := [("id", .text "a"), ("level", .integer 1), ("level", .integer 2)]
    decode .text (ids.encode .text) = .ok ⟨"b", .empty⟩ ∧
      decode .binary (ids.encode .binary) = .error .duplicateId ∧
      decode .text (levels.encode .text) = .ok ((Resolved.mk "a" .empty).insert "level" 2) ∧
      decode .binary (levels.encode .binary) = .error (.duplicateKey "level") :=
  ⟨rfl, rfl, rfl, rfl⟩

end Resolved
end SeededTraits
