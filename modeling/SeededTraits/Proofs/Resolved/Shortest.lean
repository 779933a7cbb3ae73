import SeededTraits.Proofs.Codec
import SeededTraits.Proofs.Resolved.Refusal
import SeededTraits.Proofs.Resolved.RoundTrip

/-! The text of an output is the shortest that is read as the output: texts differ in their blanks,
in the order and the repetition of their members, in escapes and in the spelling of numbers, and
none of these makes one shorter. -/
namespace SeededTraits

namespace Json

variable {j : Json}

theorem toValue_eq_text {s : String} (h : j.toValue = .text s) : j = .string s := by
  cases j with
  | string t => rw [Value.text.inj h]
  | number n =>
    have other := n.text?_toValue
    rw [toValue] at h
    rw [h] at other
    contradiction
  | null | bool => contradiction
  | array items => simp at h
  | object members => simp at h

theorem exists_number_of_plainInteger? {w : UInt32}
    (h : j.toValue.plainInteger? = some (w.toNat : Int)) :
    ∃ n : Number, j = .number n ∧ n.integer = w.toNat := by
  cases j with
  | number n =>
    rw [toValue] at h
    exact ⟨n, rfl, n.integer_of_plainInteger? h⟩
  | null | bool | string => contradiction
  | array items => simp [Value.plainInteger?] at h
  | object members => simp [Value.plainInteger?] at h

end Json

namespace Resolved

variable {s : Resolved}

theorem readable_length_encode (s : Resolved) :
    Json.Readable (s.encode .text).length Json.maxDepth s.toJson := by
  have field {e : String × OutputField} (he : e ∈ s.fields) := length_fieldBytes_le_encode .text he
  refine readable_toJson ?_ (fun e he => ?_) (Nat.le_of_lt (length_fields_lt_encode s .text))
  · have id : (idKey, OutputField.id s.id) ∈ s.fields := mem_fields.2 (.inl ⟨rfl, rfl⟩)
    exact Nat.le_trans (Nat.le_of_lt (length_id_lt_fieldBytes .text idKey s.id)) (field id)
  · exact Nat.le_trans (Nat.le_of_lt (length_key_lt_fieldBytes .text e.1 e.2)) (field he)

theorem decode_encode_text (plain : s.toJson.isPlain = true) :
    decode .text (s.encode .text) = .ok s := by
  have readable := readable_length_encode s
  have legible : Json.legible Json.maxDepth s.toJson = true :=
    Json.legible_eq_true.2 ⟨plain, readable.nesting_le⟩
  have document := Container.decode_text_write readable
  rw [if_pos legible, toValue_toJson] at document
  rw [decode, encode, document]
  exact ofValue_toValue s

/-- A member that is read as a field takes no less room than the field is written in. -/
theorem length_fieldBytes_le_leastLength {size depth : Nat} {m : String × Json}
    {f : String × OutputField} (hm : Json.Readable size depth m.2)
    (hf : field? (.text m.1, m.2.toValue) = some f) :
    (fieldBytes .text f).length ≤ Json.leastLengthOfMember m := by
  obtain ⟨k, j⟩ := m
  obtain ⟨key, field⟩ := f
  obtain rfl : key = k := fst_of_field? hf
  rw [fieldBytes, Json.length_memberBytes, Json.leastLengthOfMember, Nat.add_le_add_iff_left]
  cases field with
  | id text =>
    have value : j.toValue = .text text := congrArg Prod.snd (field?_eq_id_iff.1 hf).2
    obtain rfl := Json.toValue_eq_text value
    exact Nat.le_refl _
  | value n =>
    -- Of all spellings of a number only those in digits are words, and they have no digit to spare.
    obtain ⟨number, rfl, value⟩ :=
      Json.exists_number_of_plainInteger? (field?_eq_value_iff.1 hf).2.2
    cases hm with
    | number form => exact Json.Number.length_write_ofNat_le form value

theorem length_encode_le_leastLength {size depth : Nat} {members : List (String × Json)}
    (hmembers : Json.Readable size depth (.object members))
    (h : ofValue (Json.object members).toValue = .ok s) :
    (s.encode .text).length ≤ Json.leastLength (.object members) := by
  rw [Json.toValue_object, ofValue_map_eq_ok_iff, List.map_map] at h
  rw [length_encode_text, Json.leastLength_object, Nat.add_le_add_iff_left]
  cases hmembers with
  | object _ _ _ _ inner =>
    exact Json.rowLength_le_of_perm h fun m hm f hf =>
      length_fieldBytes_le_leastLength (inner m hm) hf

/-- The text of an output without the number key is read as that output, and whatever keys the
output has, no shorter text is. -/
theorem encode_text_shortest (s : Resolved) :
    (s.get? Json.numberKey = none → decode .text (s.encode .text) = .ok s) ∧
      ∀ bs, decode .text bs = .ok s → (s.encode .text).length ≤ bs.length := by
  refine ⟨fun absent => decode_encode_text (keeps_toJson absent .text), fun bs h => ?_⟩
  obtain ⟨v, hdecode, hv⟩ := Except.bind_eq_ok.1 h
  obtain ⟨j, hparse, rfl⟩ := Container.decode_text_eq_ok hdecode
  have readable := Json.Readable.of_parse? hparse
  have room := Json.leastLength_le_of_parse? hparse
  cases j with
  | object members => exact Nat.le_trans (length_encode_le_leastLength readable hv) room
  | number n => exact absurd hparse (parse?_ne_number h n)
  | null | bool | string => contradiction
  | array items => simp [ofValue, Value.map?] at hv

/-- Escapes, blanks, a key in escapes and an attribute that is given twice, against a text that has
none of them. -/
theorem encode_text_shortest_level :
    let s := (Resolved.mk "é/😀\n" .empty).insert "level" 100000
    let bs := Bytes.ofText
      r#"{ "level": 7.5, "id": "\u00e9\/\ud83d\ude00\u000a", "l\u0065vel": 100000 } "#
    decode .text bs = .ok s ∧ s.get? Json.numberKey = none ∧
      decode .text (s.encode .text) = .ok s ∧
      s.encode .text = Bytes.ofText r#"{"id":"é/😀\n","level":100000}"# ∧
      (s.encode .text).length ≤ bs.length := by
  intro s bs
  have h : decode .text bs = .ok s := by decide +kernel
  have absent : s.get? Json.numberKey = none := by decide
  obtain ⟨back, least⟩ := encode_text_shortest s
  exact ⟨h, absent, back absent, by decide +kernel, least bs h⟩

/-- An exponent would be shorter, and is refused. -/
example : decode .text (Bytes.ofText r#"{"id":"","level":1e5}"#) =
    .error (.notAnInteger "level") := by decide +kernel

end Resolved
end SeededTraits
