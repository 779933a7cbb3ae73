import Mathlib.Data.List.Basic
import Mathlib.Tactic.SplitIfs
import SeededTraits.Json.Document
import SeededTraits.Proofs.Bytes

/-! A quoted text reads back as the text that was written, whatever follows its closing quote, and
whatever it is read from, it is written in no more bytes. -/
namespace SeededTraits
namespace Json
namespace Quoted

theorem unicodeEscape_hexPair {b : UInt8} (hb : b < Ascii.space) (rest : Bytes) :
    unicodeEscape (Bytes.hexPair 0 ++ Bytes.hexPair b ++ rest) = some ([b], rest) := by
  have digits : ∀ n : Fin 32,
      hexNumber? 0 (Bytes.hexPair 0 ++ Bytes.hexPair (UInt8.ofNat n.val)) = some n.val ∧
        scalarBytes? n.val = some [UInt8.ofNat n.val] := by decide
  have small : b.toNat < 32 := UInt8.lt_iff_toNat_lt.1 hb
  obtain ⟨number, scalar⟩ := digits ⟨b.toNat, small⟩
  simp only [UInt8.ofNat_toNat] at number scalar
  have unit : unit16 (Bytes.hexPair 0 ++ Bytes.hexPair b ++ rest) = some (b.toNat, rest) := by
    have front := Reader.take_append (Bytes.hexPair 0 ++ Bytes.hexPair b) rest
    have four : (Bytes.hexPair 0 ++ Bytes.hexPair b).length = 4 := rfl
    rw [four] at front
    simp only [unit16, Reader.filterMap, front, number]
  simp only [unicodeEscape, unit]
  rw [if_neg (by omega), scalar]
  rfl

theorem writeByte_cases (b : UInt8) :
    (writeByte b = [b] ∧ b ≠ Ascii.quote ∧ b ≠ Ascii.backslash ∧ ¬ b < Ascii.space) ∨
      ∃ t, writeByte b = Ascii.backslash :: t ∧
        ∀ rest, escapeSequence (t ++ rest) = some ([b], rest) := by
  unfold writeByte
  split_ifs with h₁ h₂ h₃ h₄ h₅ h₆ h₇
  · refine .inr ⟨[b], rfl, fun rest => ?_⟩
    rcases h₁ with rfl | rfl <;> rfl
  · exact .inr ⟨_, rfl, fun rest => by subst h₂; rfl⟩
  · exact .inr ⟨_, rfl, fun rest => by subst h₃; rfl⟩
  · exact .inr ⟨_, rfl, fun rest => by subst h₄; rfl⟩
  · exact .inr ⟨_, rfl, fun rest => by subst h₅; rfl⟩
  · exact .inr ⟨_, rfl, fun rest => by subst h₆; rfl⟩
  · refine .inr ⟨Ascii.lowerU :: (Bytes.hexPair 0 ++ Bytes.hexPair b), rfl, fun rest => ?_⟩
    rw [List.cons_append, escapeSequence, if_pos rfl]
    exact unicodeEscape_hexPair h₇ rest
  · rw [not_or] at h₁
    exact .inl ⟨rfl, h₁.1, h₁.2, h₇⟩

theorem content_flatMap_writeByte (bs : Bytes) (width : Nat) (done rest : Bytes)
    (h : bs.length < width) :
    content escapeSequence width done (bs.flatMap writeByte ++ Ascii.quote :: rest) =
      some (done.reverse ++ bs, rest) := by
  induction bs generalizing width done with
  | nil =>
    obtain ⟨width, rfl⟩ := Nat.exists_eq_add_of_lt h
    simp [content]
  | cons b bs ih =>
    obtain ⟨width, rfl⟩ : ∃ w, width = w + 1 := ⟨width - 1, by omega⟩
    have ih := ih width (b :: done) (by simpa using h)
    rcases writeByte_cases b with ⟨hb, hquote, hback, hspace⟩ | ⟨t, hb, ht⟩
    · simp [hb, content, hquote, hback, hspace, ih]
    · rw [List.flatMap_cons, hb, List.append_assoc, List.cons_append, content,
        if_neg (by decide), if_pos rfl, ht]
      simp [ih]

theorem read_write (s : String) (width : Nat) (rest : Bytes)
    (h : (Bytes.ofText s).length < width) :
    read width ((Bytes.ofText s).flatMap writeByte ++ Ascii.quote :: rest) = some (s, rest) := by
  simp only [read, Reader.filterMap, content_flatMap_writeByte _ _ _ _ h]
  simp

/-! ### Lengths -/

theorem length_of_unit16 {bs rest : Bytes} {n : Nat} (h : unit16 bs = some (n, rest)) :
    bs.length = rest.length + 4 := by
  obtain ⟨front, htake, -⟩ := Reader.filterMap_eq_some.1 h
  obtain ⟨rfl, hfour⟩ := Reader.take_eq_some_iff.1 htake
  rw [List.length_append, hfour, Nat.add_comm]

/-- What a text takes between its quotes. -/
def writtenLength (bytes : Bytes) : Nat := (bytes.flatMap writeByte).length

theorem length_write (s : String) : (write s).length = writtenLength (Bytes.ofText s) + 2 := by
  rw [write, List.length_append, List.length_cons, writtenLength]
  rfl

theorem writtenLength_append (front back : Bytes) :
    writtenLength (front ++ back) = writtenLength front + writtenLength back := by
  rw [writtenLength, List.flatMap_append, List.length_append]
  rfl

theorem writtenLength_cons (b : UInt8) (bytes : Bytes) :
    writtenLength (b :: bytes) = (writeByte b).length + writtenLength bytes := by
  rw [writtenLength, List.flatMap_cons, List.length_append]
  rfl

theorem writtenLength_singleton (b : UInt8) : writtenLength [b] = (writeByte b).length :=
  writtenLength_cons b []

theorem length_le_writtenLength (bytes : Bytes) : bytes.length ≤ writtenLength bytes := by
  refine Bytes.count_le_flatMap fun b _ => ?_
  rcases writeByte_cases b with ⟨hb, -⟩ | ⟨t, hb, -⟩ <;> simp [hb]

theorem length_text_lt_write (s : String) : (Bytes.ofText s).length < (write s).length := by
  have content := length_le_writtenLength (Bytes.ofText s)
  rw [length_write]
  omega

theorem length_writeByte_le (b : UInt8) : (writeByte b).length ≤ 6 := by
  unfold writeByte
  split_ifs <;> simp [Bytes.hexPair]

/-- A letter behind a backslash stands for a byte that is not written any longer. -/
theorem length_writeByte_of_plainEscape? {letter b : UInt8} (h : plainEscape? letter = some b) :
    (writeByte b).length ≤ 2 := by
  unfold plainEscape? at h
  split_ifs at h with hself
  all_goals obtain rfl := Option.some.inj h
  · rcases hself with rfl | rfl | rfl <;> decide
  all_goals decide

theorem writeByte_of_plain {b : UInt8} (hquote : b ≠ Ascii.quote) (hback : b ≠ Ascii.backslash)
    (hspace : ¬ b < Ascii.space) : writeByte b = [b] := by
  have visible (c : UInt8) (hc : c < Ascii.space) : b ≠ c := by
    rintro rfl
    exact hspace hc
  rw [writeByte, if_neg (not_or.2 ⟨hquote, hback⟩), if_neg (visible _ (by decide)),
    if_neg (visible _ (by decide)), if_neg (visible _ (by decide)), if_neg (visible _ (by decide)),
    if_neg (visible _ (by decide)), if_neg hspace]

theorem writeByte_of_high {b : UInt8} (h : 0x80 ≤ b) : writeByte b = [b] := by
  have other (c : UInt8) (hc : c < 0x80) : b ≠ c := by
    rintro rfl
    exact UInt8.not_le.2 hc h
  exact writeByte_of_plain (other _ (by decide)) (other _ (by decide))
    (UInt8.not_lt.2 (UInt8.le_trans (by decide) h))

theorem writtenLength_of_high {bytes : Bytes} (h : ∀ b ∈ bytes, 0x80 ≤ b) :
    writtenLength bytes = bytes.length := by
  have same : bytes.flatMap writeByte = bytes.flatMap fun b => [b] :=
    List.flatMap_congr fun b hb => writeByte_of_high (h b hb)
  rw [writtenLength, same, List.flatMap_singleton']

/-- Beyond ASCII, a character consists of bytes that are all beyond ASCII. -/
theorem high_of_mem_utf8EncodeChar {c : Char} (h : 0x80 ≤ c.val.toNat) {b : UInt8}
    (hb : b ∈ String.utf8EncodeChar c) : 0x80 ≤ b := by
  have byte (n : Nat) (least : 0x80 ≤ n) (most : n < 256) : 0x80 ≤ UInt8.ofNat n := by
    rw [UInt8.le_iff_toNat_le, UInt8.toNat_ofNat', Nat.mod_eq_of_lt most]
    exact least
  unfold String.utf8EncodeChar at hb
  simp only at hb
  split_ifs at hb with one two three
  · omega
  all_goals
    simp only [List.mem_cons, List.not_mem_nil, or_false] at hb
    rcases hb with rfl | rfl | rfl | rfl <;> exact byte _ (by omega) (by omega)

theorem writtenLength_of_scalarBytes? {n : Nat} {bytes : Bytes} (h : scalarBytes? n = some bytes) :
    writtenLength bytes ≤ 6 := by
  unfold scalarBytes? at h
  split at h
  · obtain rfl := Option.some.inj h
    -- Only an ASCII character can take an escape when it is written, and it is a single byte.
    by_cases ascii : (Char.ofNat n).val.toNat ≤ 0x7f
    · have single : String.utf8EncodeChar (Char.ofNat n) = [UInt8.ofNat (Char.ofNat n).val.toNat] :=
        if_pos ascii
      rw [single, writtenLength_singleton]
      exact length_writeByte_le _
    · rw [writtenLength_of_high fun b => high_of_mem_utf8EncodeChar (by omega),
        String.length_utf8EncodeChar]
      exact Nat.le_trans (Char.utf8Size_le_four _) (by decide)
  · contradiction

/-- A backslash and a small u stand before what is read here. -/
theorem writtenLength_of_unicodeEscape {bs rest bytes : Bytes}
    (h : unicodeEscape bs = some (bytes, rest)) :
    writtenLength bytes + rest.length ≤ bs.length + 2 := by
  simp only [unicodeEscape] at h
  split at h
  · contradiction
  rename_i high rest₁ hhigh
  have four := length_of_unit16 hhigh
  split at h
  · split at h
    · contradiction
    rename_i rest₂ hmark
    have two := Reader.length_of_exact hmark
    split at h
    · contradiction
    rename_i low rest₃ hlow
    have four' := length_of_unit16 hlow
    split at h
    · simp only [Option.map_eq_some_iff, Prod.mk.injEq] at h
      obtain ⟨b, hb, rfl, rfl⟩ := h
      have few := writtenLength_of_scalarBytes? hb
      omega
    · contradiction
  · simp only [Option.map_eq_some_iff, Prod.mk.injEq] at h
    obtain ⟨b, hb, rfl, rfl⟩ := h
    have few := writtenLength_of_scalarBytes? hb
    omega

/-- A backslash stands before what is read here. -/
theorem writtenLength_of_escapeSequence {bs rest bytes : Bytes}
    (h : escapeSequence bs = some (bytes, rest)) :
    writtenLength bytes + rest.length ≤ bs.length + 1 := by
  cases bs with
  | nil => contradiction
  | cons letter bs =>
    simp only [escapeSequence] at h
    split at h
    · have short := writtenLength_of_unicodeEscape h
      rw [List.length_cons]
      omega
    · simp only [Option.map_eq_some_iff, Prod.mk.injEq] at h
      obtain ⟨b, hb, rfl, rfl⟩ := h
      have two := length_writeByte_of_plainEscape? hb
      rw [writtenLength_singleton, List.length_cons]
      omega

/-- However the bytes are escaped, they are written in no more room, and the closing quote takes
another byte. -/
theorem content_eq_some {width : Nat} {done bs rest bytes : Bytes}
    (h : content escapeSequence width done bs = some (bytes, rest)) :
    ∃ found, bytes = done.reverse ++ found ∧
      writtenLength found + 1 + rest.length ≤ bs.length := by
  induction width generalizing done bs with
  | zero => contradiction
  | succ width ih =>
    cases bs with
    | nil => contradiction
    | cons b bs =>
      simp only [content] at h
      split at h
      · simp only [Option.some.injEq, Prod.mk.injEq] at h
        obtain ⟨rfl, rfl⟩ := h
        exact ⟨[], by simp, by simp [writtenLength, Nat.add_comm]⟩
      rename_i hquote
      split at h
      · split at h
        · contradiction
        rename_i escaped rest' hescape
        have step := writtenLength_of_escapeSequence hescape
        obtain ⟨found, rfl, short⟩ := ih h
        refine ⟨escaped ++ found, by simp, ?_⟩
        rw [writtenLength_append, List.length_cons]
        omega
      rename_i hback
      split at h
      · contradiction
      rename_i hspace
      obtain ⟨found, rfl, short⟩ := ih h
      refine ⟨b :: found, by simp, ?_⟩
      rw [writtenLength_cons, writeByte_of_plain hquote hback hspace, List.length_singleton,
        List.length_cons]
      omega

theorem length_write_le_of_read {width : Nat} {bs rest : Bytes} {s : String}
    (h : read width bs = some (s, rest)) : (write s).length + rest.length ≤ bs.length + 1 := by
  obtain ⟨bytes, hcontent, htext⟩ := Reader.filterMap_eq_some.1 h
  obtain ⟨found, hfound, short⟩ := content_eq_some hcontent
  obtain rfl : bytes = found := hfound
  rw [length_write, Bytes.text?_eq_some_iff.1 htext]
  omega

end Quoted
end Json
end SeededTraits
