import SeededTraits.Proofs.Cbor.RoundTrip
import SeededTraits.Proofs.Codec
import SeededTraits.Proofs.Resolved.Acceptance

/-! Outputs are found again in their own bytes, in either container, and as the same value. An
output is longer than any text in it and than the number of its fields, so that an output in memory
is one that can be read back; and no output continues another one, be it in the same container or in
the other. -/
namespace SeededTraits

theorem OutputField.toValue_value (n : UInt32) : (value n).toValue = .ofInt n.toNat := by
  have plain := Value.ofInt_toNat n.toUInt64
  rw [UInt32.toNat_toUInt64] at plain
  exact plain.symm

theorem OutputField.toValue_toJson (f : OutputField) : f.toJson.toValue = f.toValue := by
  cases f with
  | id s => rfl
  | value n =>
    have word : n.toNat < 4294967296 := n.toNat_lt
    have limits : leastWide < 0 ∧ 4294967296 < greatestWide := by decide
    have digits : (Json.Number.ofNat n.toNat).isInteger = true := rfl
    rw [toJson, Json.toValue, Json.Number.toValue_of_isInteger digits, Json.Number.integer_ofNat,
      clampWide_of_within (by omega) (by omega), toValue_value]

theorem OutputField.cborBytes_eq (f : OutputField) : f.cborBytes = Cbor.write f.toValue := by
  cases f <;> simp [cborBytes, toValue, Cbor.write]

namespace Resolved

/-- Texts and fields that fit the memory of a machine with 64-bit addresses. -/
structure Addressable (s : Resolved) : Prop where
  id : (Bytes.ofText s.id).length < UInt64.size
  keys : ∀ e ∈ s.attributes.entries, (Bytes.ofText e.1).length < UInt64.size
  count : s.fieldCount < UInt64.size

variable {s : Resolved}

theorem Addressable.length_key (h : s.Addressable) {e : String × OutputField} (he : e ∈ s.fields) :
    (Bytes.ofText e.1).length < UInt64.size := by
  rcases mem_fields.1 he with ⟨hk, -⟩ | ⟨n, hn, -⟩
  · rw [hk]
    decide
  · exact h.keys (e.1, n) (mem_entries.2 hn)

theorem Addressable.length_fields (h : s.Addressable) : s.fields.length < UInt64.size := by
  rw [s.length_fields]
  exact h.count

/-! ### Values and documents -/

theorem toValue_toJson (s : Resolved) : s.toJson.toValue = s.toValue := by
  simp [toJson, toValue, OutputField.toValue_toJson]

/-- The bytes laid out by hand are those of the value. -/
theorem cborBytes_eq (s : Resolved) : s.cborBytes = Cbor.write s.toValue := by
  simp [cborBytes, toValue, Cbor.write_map, List.flatMap_map, OutputField.cborBytes_eq, Cbor.write]

theorem Addressable.storable (h : s.Addressable) : Cbor.Storable Cbor.maxDepth s.toValue := by
  refine .map (by simpa using h.length_fields) (fun e he => ?_) fun e he => ?_
  · obtain ⟨f, hf, rfl⟩ := List.mem_map.1 he
    exact .text (h.length_key hf)
  · obtain ⟨f, hf, rfl⟩ := List.mem_map.1 he
    rcases mem_fields.1 hf with ⟨-, hid⟩ | ⟨n, -, hn⟩
    · rw [hid]
      exact .text h.id
    · have word : n.toNat < 4294967296 := n.toNat_lt
      have least : leastWide ≤ (n.toNat : Int) := by
        unfold leastWide
        omega
      rw [hn, OutputField.toValue_value]
      exact .integer least (by omega)

theorem readable_toJson {size : Nat} (id : (Bytes.ofText s.id).length ≤ size)
    (keys : ∀ e ∈ s.fields, (Bytes.ofText e.1).length ≤ size) (count : s.fields.length ≤ size) :
    Json.Readable size Json.maxDepth s.toJson := by
  refine .object ?_ (List.pairwise_map.2 s.ascending_fields) (fun j h => ?_) (fun m hm => ?_)
    fun m hm => ?_
  · rw [List.length_map]
    exact count
  · have field : (idKey, OutputField.id s.id) ∈ s.fields := mem_fields.2 (.inl ⟨rfl, rfl⟩)
    have member : (idKey, Json.string s.id) ∈ [(Json.numberKey, j)] := by
      rw [← h]
      exact List.mem_map.2 ⟨_, field, rfl⟩
    have key : idKey = Json.numberKey := congrArg Prod.fst (List.mem_singleton.1 member)
    exact absurd key (by decide)
  · obtain ⟨f, hf, rfl⟩ := List.mem_map.1 hm
    exact keys f hf
  · obtain ⟨f, hf, rfl⟩ := List.mem_map.1 hm
    rcases mem_fields.1 hf with ⟨-, hid⟩ | ⟨n, -, hn⟩
    · rw [hid]
      exact .string id
    · rw [hn]
      exact .number (Json.Number.wellFormed_ofNat _)

theorem Addressable.readable (h : s.Addressable) :
    Json.Readable UInt64.size Json.maxDepth s.toJson :=
  readable_toJson (Nat.le_of_lt h.id) (fun _ he => Nat.le_of_lt (h.length_key he))
    (Nat.le_of_lt h.length_fields)

theorem legible_field (e : String × OutputField) (depth : Nat) :
    Json.legible depth e.2.toJson = true := by
  cases e.2 <;> simp [OutputField.toJson, Json.legible, Json.isPlain, Json.nesting]

/-- No member of an output is an object, so only its own keys count. -/
theorem isPlain_toJson (s : Resolved) : s.toJson.isPlain = Json.opensPlain s.fields := by
  have scalars : (s.fields.all fun e => e.2.toJson.isPlain) = true :=
    List.all_eq_true.2 fun e _ => (Json.legible_eq_true.1 (legible_field e 0)).1
  rw [toJson, Json.isPlain_object, Json.opensPlain_map, List.all_map]
  simp only [Function.comp_def, scalars, Bool.and_true]

/-- Without the number key among its attributes an output is kept by either container. -/
theorem keeps_toJson (h : s.get? Json.numberKey = none) (c : Container) :
    c.keeps s.toJson = true := by
  refine Container.keeps_of_isPlain ?_ c
  rw [isPlain_toJson]
  refine Json.opensPlain_of_forall_ne fun e he hkey => ?_
  rcases mem_fields.1 he with ⟨hid, -⟩ | ⟨n, hn, -⟩
  · exact absurd (hkey.symm.trans hid) (by decide)
  · rw [hkey, h] at hn
    contradiction

/-! ### Read back -/

theorem field?_toValue {k : String} {f : OutputField} (h : (k, f) ∈ s.fields) :
    field? (.text k, f.toValue) = some (k, f) := by
  rcases mem_fields.1 h with ⟨rfl, rfl⟩ | ⟨n, hn, rfl⟩
  · rfl
  · have key : k ≠ idKey := by
      rintro rfl
      simp at hn
    rw [OutputField.toValue_value, field?_ofInt, if_neg key, word32?_toNat]
    rfl

theorem ofValue_toValue (s : Resolved) : ofValue s.toValue = .ok s := by
  rw [toValue, ofValue_map_eq_ok_iff, List.map_map]
  exact .of_eq (List.map_congr_left fun e he => field?_toValue he)

/-! ### Both containers -/

theorem decode_container (h : s.Addressable) (c : Container) :
    c.decode (s.encode c) = if c.keeps s.toJson then .ok s.toValue else .error .unreadable := by
  cases c with
  | binary =>
    rw [encode, cborBytes_eq]
    exact Container.decode_binary_write h.storable
  | text =>
    have document := Container.decode_text_write h.readable
    rwa [Json.legible, decide_eq_true h.readable.nesting_le, Bool.and_true, toValue_toJson]
      at document

theorem decode_output (h : s.Addressable) (c : Container) :
    decode c (s.encode c) = if c.keeps s.toJson then .ok s else .error .unreadable := by
  rw [decode, decode_container h c]
  split
  · exact ofValue_toValue s
  · rfl

/-- An output without the number key is read back from either container as what was written, and
both hold one and the same map: the identifier and every attribute, in key order. With the number
key it is read back as well, but from a text only if that is not its first key. -/
theorem decode_encode (h : s.Addressable) :
    (∀ c : Container,
        decode c (s.encode c) = if c.keeps s.toJson then .ok s else .error .unreadable) ∧
      (∀ c : Container, c.decode (s.encode c) =
        if c.keeps s.toJson then .ok (.map (s.fields.map fun e => (.text e.1, e.2.toValue)))
        else .error .unreadable) ∧
      (s.get? Json.numberKey = none → ∀ c : Container, c.keeps s.toJson = true) ∧
      KeyOrder.Ascending s.fields ∧
      ∀ k f, (k, f) ∈ s.fields ↔
        (k = idKey ∧ f = .id s.id) ∨ ∃ n, s.get? k = some n ∧ f = .value n :=
  ⟨decode_output h, decode_container h, keeps_toJson, s.ascending_fields, fun _ _ => mem_fields⟩

theorem decode_encode_level :
    let s := (Resolved.mk "a\"é" .empty).insert "level" 70000
    s.Addressable ∧ s.get? Json.numberKey = none ∧
      (∀ c : Container, decode c (s.encode c) = .ok s ∧
        c.decode (s.encode c) = .ok (.map (s.fields.map fun e => (.text e.1, e.2.toValue)))) ∧
      KeyOrder.Ascending s.fields ∧
      ∀ k f, (k, f) ∈ s.fields ↔
        (k = idKey ∧ f = .id s.id) ∨ ∃ n, s.get? k = some n ∧ f = .value n := by
  intro s
  have h : s.Addressable := ⟨by decide, by decide, by decide⟩
  have absent : s.get? Json.numberKey = none := by decide
  obtain ⟨outputs, values, keeps, fields⟩ := decode_encode h
  refine ⟨h, absent, fun c => ?_, fields⟩
  rw [outputs, values, keeps absent c]
  exact ⟨rfl, rfl⟩

end Resolved

/-! ### Lengths -/

theorem Cbor.length_lt_stringBytes (m : Cbor.Major) (content : Bytes) :
    content.length < (stringBytes m content).length := by
  rw [stringBytes, List.length_append, Head.length_write]
  omega

namespace Resolved

def fieldBytes : Container → String × OutputField → Bytes
  | .binary, e => Cbor.stringBytes .text (Bytes.ofText e.1) ++ e.2.cborBytes
  | .text, e => Json.memberBytes (e.1, e.2.toJson)

variable {s : Resolved} {e : String × OutputField}

theorem length_key_lt_fieldBytes (c : Container) (key : String) (f : OutputField) :
    (Bytes.ofText key).length < (fieldBytes c (key, f)).length := by
  cases c with
  | binary =>
    have text := Cbor.length_lt_stringBytes .text (Bytes.ofText key)
    simp only [fieldBytes, List.length_append]
    omega
  | text =>
    have text := Json.Quoted.length_text_lt_write key
    simp only [fieldBytes, Json.memberBytes, List.length_append]
    omega

theorem length_id_lt_fieldBytes (c : Container) (key id : String) :
    (Bytes.ofText id).length < (fieldBytes c (key, .id id)).length := by
  cases c with
  | binary =>
    have text := Cbor.length_lt_stringBytes .text (Bytes.ofText id)
    simp only [fieldBytes, OutputField.cborBytes, List.length_append]
    omega
  | text =>
    have text := Json.Quoted.length_text_lt_write id
    simp only [fieldBytes, Json.memberBytes, OutputField.toJson, Json.write, List.length_append,
      List.length_cons]
    omega

theorem length_encode_binary (s : Resolved) :
    (s.encode .binary).length = (Cbor.Head.write .map (UInt64.ofNat s.fields.length)).length +
      (s.fields.flatMap (fieldBytes .binary)).length :=
  List.length_append

theorem length_encode_text (s : Resolved) :
    (s.encode .text).length =
      1 + Json.rowLength (fun e => (fieldBytes .text e).length) s.fields := by
  rw [encode, toJson, Json.length_write_object, Json.rowLength_map]
  rfl

theorem length_fieldBytes_le_encode (c : Container) (he : e ∈ s.fields) :
    (fieldBytes c e).length ≤ (s.encode c).length := by
  cases c with
  | binary =>
    rw [length_encode_binary]
    exact Nat.le_trans (Bytes.length_le_flatMap he) (Nat.le_add_left _ _)
  | text =>
    have field_fits := Json.le_rowLength (fun e => (fieldBytes .text e).length) he
    rw [length_encode_text]
    omega

theorem length_fields_lt_encode (s : Resolved) (c : Container) :
    s.fields.length < (s.encode c).length := by
  cases c with
  | binary =>
    have count : s.fields.length ≤ (s.fields.flatMap (fieldBytes .binary)).length :=
      Bytes.count_le_flatMap fun e _ => Nat.zero_lt_of_lt (length_key_lt_fieldBytes .binary e.1 e.2)
    rw [length_encode_binary, Cbor.Head.length_write]
    omega
  | text =>
    have count := Json.length_le_rowLength (fun e => (fieldBytes .text e).length) s.fields
    rw [length_encode_text]
    omega

theorem Addressable.of_length_encode {c : Container} (h : (s.encode c).length < UInt64.size) :
    s.Addressable where
  id := by
    have field : (idKey, OutputField.id s.id) ∈ s.fields := mem_fields.2 (.inl ⟨rfl, rfl⟩)
    have text := length_id_lt_fieldBytes c idKey s.id
    have whole := length_fieldBytes_le_encode c field
    omega
  keys e he := by
    have field : (e.1, OutputField.value e.2) ∈ s.fields :=
      mem_fields.2 (.inr ⟨e.2, mem_entries.1 he, rfl⟩)
    have text := length_key_lt_fieldBytes c e.1 (.value e.2)
    have whole := length_fieldBytes_le_encode c field
    omega
  count := by
    rw [← s.length_fields]
    exact Nat.lt_trans (s.length_fields_lt_encode c) h

end Resolved

/-! ### One output in front of another -/

/-- The brace that opens a text is, for a binary reader, the head of a string. -/
theorem Cbor.Head.major_of_read_openBrace {rest rest' : Bytes} {m : Cbor.Major} {n : UInt64}
    (h : Cbor.Head.read (Ascii.openBrace :: rest) = some (.definite m n, rest')) : m = .text := by
  obtain ⟨n', -, hhead⟩ : ∃ n', Cbor.Head.argument 27 rest = some (n', rest') ∧
      Cbor.Head.definite .text n' = .definite m n :=
    Reader.map_eq_some.1 h
  exact (Cbor.Head.definite.inj hhead).1.symm

namespace Resolved

variable {s t : Resolved} {rest : Bytes}

theorem toValue_injective (h : s.toValue = t.toValue) : s = t := by
  have value := ofValue_toValue s
  rw [h, ofValue_toValue t] at value
  exact (Except.ok.inj value).symm

/-- An output is found at the front of whatever follows it, and so says where it ends. -/
theorem eq_of_cborBytes_append (hs : s.Addressable) (ht : t.Addressable)
    (h : s.cborBytes ++ rest = t.cborBytes) : s = t := by
  rw [cborBytes_eq, cborBytes_eq] at h
  have longer := Cbor.read_write hs.storable rest
  have shorter := Cbor.read_write ht.storable []
  rw [List.append_nil, ← h, longer] at shorter
  have value : s.toValue = t.toValue := congrArg Prod.fst (Option.some.inj shorter)
  exact toValue_injective value

/-- The members alone say where a text ends, and so it does not matter here which texts are read as
outputs. -/
theorem eq_of_write_append (hs : s.Addressable) (ht : t.Addressable)
    (h : s.toJson.write ++ rest = t.toJson.write) : s = t := by
  have inner {u : Resolved} (hu : u.Addressable) :
      ∀ m ∈ u.fields.map fun e => (e.1, e.2.toJson), Json.Readable UInt64.size 126 m.2 := by
    cases hu.readable with
    | object _ _ _ _ inner => exact inner
  have plain {u : Resolved} :
      ∀ m ∈ u.fields.map fun e => (e.1, e.2.toJson), Json.legible 126 m.2 = true := by
    intro m hm
    obtain ⟨e, -, rfl⟩ := List.mem_map.1 hm
    exact legible_field e 126
  have members := Json.eq_of_write_object_append (inner hs) plain (inner ht) plain h
  apply toValue_injective
  rw [← toValue_toJson, ← toValue_toJson, toJson, toJson, members]

theorem cborBytes_append_ne_write (s t : Resolved) (rest rest' : Bytes) :
    s.cborBytes ++ rest ≠ t.toJson.write ++ rest' := by
  intro h
  have head := Cbor.Head.read_write .map (UInt64.ofNat s.fields.length)
    ((s.fields.flatMap fun e =>
      Cbor.stringBytes .text (Bytes.ofText e.1) ++ e.2.cborBytes) ++ rest)
  rw [← List.append_assoc] at head
  change Cbor.Head.read (s.cborBytes ++ rest) = _ at head
  rw [h, toJson, Json.write_object] at head
  have major := Cbor.Head.major_of_read_openBrace head
  contradiction

/-- The bytes alone tell the output, whatever container they are in. -/
theorem eq_of_encode_eq (hs : s.Addressable) (ht : t.Addressable) {c d : Container}
    (h : s.encode c = t.encode d) : s = t := by
  have whole (u : Resolved) (e : Container) : u.encode e ++ [] = u.encode e := List.append_nil _
  rw [← whole s] at h
  cases c <;> cases d
  · exact eq_of_cborBytes_append hs ht h
  · exact absurd (h.trans (whole t _).symm) (cborBytes_append_ne_write s t [] [])
  · exact absurd ((whole t _).trans h.symm) (cborBytes_append_ne_write t s [] [])
  · exact eq_of_write_append hs ht h

/-- Where the bytes of one output start with those of another, the two are the same output in the
same container. -/
theorem eq_of_encode_prefix (hs : s.Addressable) (ht : t.Addressable) {c d : Container}
    (h : s.encode c <+: t.encode d) : c = d ∧ s = t := by
  obtain ⟨rest, hrest⟩ := h
  cases c with
  | binary =>
    cases d with
    | binary => exact ⟨rfl, eq_of_cborBytes_append hs ht hrest⟩
    | text =>
      exact absurd (hrest.trans (List.append_nil _).symm) (cborBytes_append_ne_write s t _ _)
  | text =>
    cases d with
    | binary =>
      exact absurd ((List.append_nil _).trans hrest.symm) (cborBytes_append_ne_write t s _ _)
    | text => exact ⟨rfl, eq_of_write_append hs ht hrest⟩

theorem eq_of_encode_prefix_level :
    let s := ((Resolved.mk "seed" .empty).insert "level" 5).insert "age" 300
    let t := ((Resolved.mk "seed" .empty).insert "age" 300).insert "level" 5
    s.Addressable ∧ t.Addressable ∧ s.encode .binary <+: t.encode .binary ∧
      Container.binary = .binary ∧ s = t := by
  intro s t
  have hs : s.Addressable := ⟨by decide, by decide, by decide⟩
  have ht : t.Addressable := ⟨by decide, by decide, by decide⟩
  have front : s.encode .binary <+: t.encode .binary := by decide
  exact ⟨hs, ht, front, eq_of_encode_prefix hs ht front⟩

end Resolved

end SeededTraits
