import Mathlib.Algebra.Group.Int.Defs
import SeededTraits.Proofs.Bytes
import SeededTraits.Proofs.Json.Number
import SeededTraits.Schema

/-! Integers as decoded values: what clamping leaves of them, and which are 32-bit words. Adding up
a bignum byte by byte in 128 bits and giving up on the first step that leaves them comes to the same
as clamping the number that all bytes write, and digits without point and exponent are the clamped
integer that they write, by whatever width of word it is reached. -/
namespace SeededTraits

variable {i : Int}

theorem clampWide_cases (i : Int) :
    clampWide i = i ∧ leastWide ≤ i ∧ i ≤ greatestWide ∨ clampWide i = leastWide ∧ i < leastWide ∨
      clampWide i = greatestWide ∧ greatestWide < i := by
  by_cases below : i < leastWide
  · exact .inr (.inl ⟨if_pos below, below⟩)
  by_cases above : greatestWide < i
  · exact .inr (.inr ⟨by rw [clampWide, if_neg below, if_pos above], above⟩)
  · exact .inl ⟨by rw [clampWide, if_neg below, if_neg above], by omega, by omega⟩

theorem clampWide_bounds (i : Int) : leastWide ≤ clampWide i ∧ clampWide i ≤ greatestWide := by
  have order : leastWide ≤ greatestWide := by decide
  have cases := clampWide_cases i
  omega

theorem clampWide_of_within (least : leastWide ≤ i) (greatest : i ≤ greatestWide) :
    clampWide i = i := by
  rw [clampWide, if_neg (by omega), if_neg (by omega)]

theorem clampWide_clampWide (i : Int) : clampWide (clampWide i) = clampWide i :=
  clampWide_of_within (clampWide_bounds i).1 (clampWide_bounds i).2

theorem clampWide_of_lt (h : i < leastWide) : clampWide i = leastWide := if_pos h

theorem clampWide_of_gt (h : greatestWide < i) : clampWide i = greatestWide := by
  have order : leastWide ≤ greatestWide := by decide
  rw [clampWide, if_neg (by omega), if_pos h]

theorem word32?_eq_some {n : UInt32} (h : word32? i = some n) : 0 ≤ i ∧ i < 2 ^ 32 := by
  cases i with
  | ofNat k =>
    simp only [word32?] at h
    split at h
    · have word : UInt32.size = 4294967296 := rfl
      rw [Int.ofNat_eq_natCast]
      omega
    · contradiction
  | negSucc k => contradiction

theorem word32?_eq_none (h : i < 0 ∨ 2 ^ 32 ≤ i) : word32? i = none := by
  cases hi : word32? i with
  | none => rfl
  | some n =>
    have bounds := word32?_eq_some hi
    omega

theorem word32?_toNat (n : UInt32) : word32? n.toNat = some n := by
  have by_size :
      word32? n.toNat = if n.toNat < UInt32.size then some (UInt32.ofNat n.toNat) else none :=
    rfl
  rw [by_size, if_pos n.toNat_lt, UInt32.ofNat_toNat]

theorem word32?_eq_some_iff {n : UInt32} : word32? i = some n ↔ i = n.toNat := by
  constructor
  · intro h
    obtain ⟨k, rfl⟩ := Int.eq_ofNat_of_zero_le (word32?_eq_some h).1
    have fits : k < UInt32.size := by
      have bound := (word32?_eq_some h).2
      have word : UInt32.size = 2 ^ 32 := rfl
      omega
    have in_word : word32? k = some (UInt32.ofNat k) := if_pos fits
    rw [← Option.some.inj (in_word.symm.trans h), UInt32.toNat_ofNat', Nat.mod_eq_of_lt fits]
  · rintro rfl
    exact word32?_toNat n

theorem word32?_eq_none_iff : word32? i = none ↔ i < 0 ∨ 2 ^ 32 ≤ i := by
  refine ⟨fun h => ?_, word32?_eq_none⟩
  cases i with
  | ofNat k =>
    rw [word32?, ite_eq_right_iff] at h
    have large : ¬k < UInt32.size := fun fits => by simpa using h fits
    have word : UInt32.size = 2 ^ 32 := rfl
    exact .inr (by rw [Int.ofNat_eq_natCast]; omega)
  | negSucc k => exact .inl (Int.negSucc_lt_zero k)

theorem exists_word32 (least : 0 ≤ i) (most : i ≤ 2 ^ 32 - 1) : ∃ n : UInt32, i = n.toNat := by
  cases h : word32? i with
  | none =>
    have outside := word32?_eq_none_iff.1 h
    omega
  | some n => exact ⟨n, word32?_eq_some_iff.1 h⟩

/-- What a clamped integer loses was no word before. -/
theorem word32?_clampWide (i : Int) : word32? (clampWide i) = word32? i := by
  rcases clampWide_cases i with ⟨same, -, -⟩ | ⟨least, below⟩ | ⟨greatest, above⟩
  · rw [same]
  · unfold leastWide at least below
    rw [word32?_eq_none (by omega), word32?_eq_none (by omega)]
  · unfold greatestWide at greatest above
    rw [word32?_eq_none (by omega), word32?_eq_none (by omega)]

namespace Value

@[simp] theorem text?_text (s : String) : (text s).text? = some s := rfl

theorem text?_eq_some_iff {v : Value} {s : String} : v.text? = some s ↔ v = .text s := by
  cases v <;> simp [text?]

theorem map?_eq_some_iff {v : Value} {entries : List (Value × Value)} :
    v.map? = some entries ↔ v = .map entries := by
  cases v <;> simp [map?]

theorem ofInt_cases (i : Int) :
    (∃ n : UInt64, ofInt i = .unsigned n ∧ i = Int.ofNat n.toNat) ∨
      (∃ n : UInt64, ofInt i = .negative n ∧ i = Int.negSucc n.toNat) ∨
        ∃ t magnitude, ofInt i = .tag t (.bytes magnitude) ∧ (i < -2 ^ 64 ∨ 2 ^ 64 ≤ i) := by
  have word : UInt64.size = 18446744073709551616 := rfl
  cases i with
  | ofNat n =>
    by_cases h : n < UInt64.size
    · exact .inl ⟨_, if_pos h, by rw [UInt64.toNat_ofNat', Nat.mod_eq_of_lt h]⟩
    · refine .inr (.inr ⟨_, _, if_neg h, .inr ?_⟩)
      rw [Int.ofNat_eq_natCast]
      omega
  | negSucc n =>
    by_cases h : n < UInt64.size
    · exact .inr (.inl ⟨_, if_pos h, by rw [UInt64.toNat_ofNat', Nat.mod_eq_of_lt h]⟩)
    · exact .inr (.inr ⟨_, _, if_neg h, .inl (by omega)⟩)

theorem ofInt_toNat (n : UInt64) : ofInt n.toNat = .unsigned n := by
  have word : n.toNat < UInt64.size := n.toNat_lt
  have plain : ofInt n.toNat = .unsigned (UInt64.ofNat n.toNat) := if_pos word
  rw [plain, UInt64.ofNat_toNat]

theorem text?_ofInt (i : Int) : (ofInt i).text? = none := by
  rcases ofInt_cases i with ⟨_, h, -⟩ | ⟨_, h, -⟩ | ⟨_, _, h, -⟩ <;> rw [h, text?] <;> nofun

theorem map?_ofInt (i : Int) : (ofInt i).map? = none := by
  rcases ofInt_cases i with ⟨_, h, -⟩ | ⟨_, h, -⟩ | ⟨_, _, h, -⟩ <;> rw [h, map?] <;> nofun

/-- Every word is a plain integer. -/
theorem word32?_ofInt (i : Int) : (ofInt i).plainInteger?.bind word32? = word32? i := by
  rcases ofInt_cases i with ⟨n, h, hi⟩ | ⟨n, h, hi⟩ | ⟨t, magnitude, h, wide⟩
  · rw [h, hi, plainInteger?, Option.bind_some]
  · rw [h, hi, plainInteger?, Option.bind_some]
  · rw [h, word32?_eq_none (by omega)]
    rfl

end Value

/-! ### Bignums -/

theorem word128?_eq_some_iff {n m : Nat} : word128? n = some m ↔ n = m ∧ m < 2 ^ 128 := by
  unfold word128?
  constructor
  · intro h
    split at h
    · obtain rfl := Option.some.inj h
      exact ⟨rfl, by assumption⟩
    · contradiction
  · rintro ⟨rfl, fits⟩
    exact if_pos fits

theorem word128?_eq_none_iff {n : Nat} : word128? n = none ↔ 2 ^ 128 ≤ n := by
  unfold word128?
  split
  · simp only [reduceCtorEq, false_iff]
    omega
  · simp only [true_iff]
    omega

namespace Bytes

/-- The product alone never leaves 128 bits: it does so only together with the sum. -/
theorem shiftIn?_eq (n : Nat) (b : UInt8) : shiftIn? n b = word128? (256 * n + b.toNat) := by
  have byte : b.toNat < 256 := b.toNat_lt
  rw [shiftIn?, Nat.mul_comm]
  cases hshift : word128? (256 * n) with
  | none =>
    have large := word128?_eq_none_iff.1 hshift
    exact (word128?_eq_none_iff.2 (by omega)).symm
  | some m =>
    obtain ⟨rfl, -⟩ := word128?_eq_some_iff.1 hshift
    rfl

theorem foldlM_shiftIn? {n : Nat} (h : n < 2 ^ 128) (bs : Bytes) :
    bs.foldlM shiftIn? n = word128? (n * 256 ^ bs.length + toNat bs) := by
  induction bs generalizing n with
  | nil =>
    have value : n * 256 ^ ([] : Bytes).length + toNat [] = n := by simp
    rw [value]
    exact (word128?_eq_some_iff.2 ⟨rfl, h⟩).symm
  | cons b bs ih =>
    have value : n * 256 ^ (b :: bs).length + toNat (b :: bs) =
        (256 * n + b.toNat) * 256 ^ bs.length + toNat bs := by
      rw [toNat_cons, List.length_cons]
      ring
    rw [List.foldlM_cons, shiftIn?_eq, value]
    cases hstep : word128? (256 * n + b.toNat) with
    | none =>
      -- What follows only makes a number larger that is too large already.
      have large := word128?_eq_none_iff.1 hstep
      have grows : 256 * n + b.toNat ≤ (256 * n + b.toNat) * 256 ^ bs.length :=
        Nat.le_mul_of_pos_right _ (Nat.pow_pos (by decide))
      exact (word128?_eq_none_iff.2 (by omega)).symm
    | some m =>
      obtain ⟨rfl, fits⟩ := word128?_eq_some_iff.1 hstep
      exact ih fits

theorem toWord128?_eq (bs : Bytes) : bs.toWord128? = word128? (toNat bs) := by
  rw [toWord128?, foldlM_shiftIn? (by decide), Nat.zero_mul, Nat.zero_add]

theorem magnitude_eq (bs : Bytes) : bs.magnitude = clampWide (toNat bs) := by
  have limits : leastWide < 0 ∧ greatestWide < 2 ^ 128 := by decide
  rw [magnitude, toWord128?_eq]
  cases hword : SeededTraits.word128? (toNat bs) with
  | none =>
    have large := word128?_eq_none_iff.1 hword
    rw [clampWide_of_gt (by omega)]
  | some n =>
    obtain ⟨rfl, -⟩ := word128?_eq_some_iff.1 hword
    by_cases within : (toNat bs : Int) ≤ greatestWide
    · rw [clampWide_of_within (by omega) within]
      exact if_pos within
    · rw [clampWide_of_gt (by omega)]
      exact if_neg within

/-- The complement of a clamped magnitude is the clamped complement, the limits being complements of
each other. -/
theorem neg_one_sub_magnitude (bs : Bytes) : -1 - bs.magnitude = clampWide (-1 - toNat bs) := by
  have limits : leastWide = -1 - greatestWide ∧ 0 < greatestWide := by decide
  rw [magnitude_eq]
  by_cases within : (toNat bs : Int) ≤ greatestWide
  · rw [clampWide_of_within (by omega) within, clampWide_of_within (by omega) (by omega)]
  · rw [clampWide_of_gt (by omega), clampWide_of_lt (by omega), limits.1]

end Bytes

namespace Value

/-- The number that a value stands for, wherever it is read as one: a plain integer as it is, and a
bignum clamped. -/
inductive Denotes : Value → Int → Prop
  | unsigned (n : UInt64) : Denotes (.unsigned n) n.toNat
  | negative (n : UInt64) : Denotes (.negative n) (-1 - n.toNat)
  | positiveBignum (bs : Bytes) :
    Denotes (.tag Value.positiveBignum (.bytes bs)) (clampWide (Bytes.toNat bs))
  | negativeBignum (bs : Bytes) :
    Denotes (.tag Value.negativeBignum (.bytes bs)) (clampWide (-1 - Bytes.toNat bs))

theorem integer?_positiveBignum (bs : Bytes) :
    integer? (.tag positiveBignum (.bytes bs)) = some (clampWide (Bytes.toNat bs)) := by
  rw [← bs.magnitude_eq]
  rfl

theorem integer?_negativeBignum (bs : Bytes) :
    integer? (.tag negativeBignum (.bytes bs)) = some (clampWide (-1 - Bytes.toNat bs)) := by
  rw [← bs.neg_one_sub_magnitude]
  rfl

theorem Denotes.integer?_eq {v : Value} {i : Int} (h : v.Denotes i) : v.integer? = some i := by
  cases h with
  | unsigned n => rfl
  | negative n =>
    rw [integer?, Int.negSucc_eq]
    exact congrArg some (by omega)
  | positiveBignum bs => exact integer?_positiveBignum bs
  | negativeBignum bs => exact integer?_negativeBignum bs

theorem integer?_eq_some_iff {v : Value} {i : Int} : v.integer? = some i ↔ v.Denotes i := by
  refine ⟨fun h => ?_, Denotes.integer?_eq⟩
  -- One of the values that stand for a number stands for this one, as it is read as no other.
  have same {j : Int} (hj : v.Denotes j) : v.Denotes i := by
    rwa [Option.some.inj (h.symm.trans hj.integer?_eq)]
  cases v with
  | unsigned n => exact same (.unsigned n)
  | negative n => exact same (.negative n)
  | tag t content =>
    cases content with
    | bytes bs =>
      by_cases positive : t = positiveBignum
      · subst positive
        exact same (.positiveBignum bs)
      by_cases negative : t = negativeBignum
      · subst negative
        exact same (.negativeBignum bs)
      · rw [integer?, if_neg positive, if_neg negative] at h
        contradiction
    | _ => contradiction
  | _ => contradiction

/-- An integer that is made a value is read as the same integer, or as the limit next to it. -/
theorem integer?_ofInt (i : Int) : (ofInt i).integer? = some (clampWide i) := by
  have limits : leastWide < -2 ^ 64 ∧ 2 ^ 64 < greatestWide := by decide
  have word : UInt64.size = 2 ^ 64 := rfl
  cases i with
  | ofNat n =>
    rw [ofInt]
    split
    · rename_i fits
      rw [integer?, UInt64.toNat_ofNat', Nat.mod_eq_of_lt fits, Int.ofNat_eq_natCast,
        clampWide_of_within (by omega) (by omega)]
    · rw [integer?_positiveBignum, Bytes.toNat_minimal]
      rfl
  | negSucc n =>
    rw [ofInt]
    split
    · rename_i fits
      rw [integer?, UInt64.toNat_ofNat', Nat.mod_eq_of_lt fits,
        clampWide_of_within (by omega) (by omega)]
    · rw [integer?_negativeBignum, Bytes.toNat_minimal, Int.negSucc_eq]
      exact congrArg (some ∘ clampWide) (by omega)

end Value

/-! ### Digits -/

namespace Json
namespace Number

variable {n : Number}

theorem integer_of_positive (h : n.negative = false) : n.integer = rowValue n.whole := by
  simp [integer, h]

theorem integer_of_negative (h : n.negative = true) : n.integer = -(rowValue n.whole : Int) := by
  simp [integer, h]

theorem uint64?_eq_some {u : UInt64} (h : n.uint64? = some u) :
    n.isInteger = true ∧ n.integer = u.toNat := by
  unfold uint64? at h
  split at h
  · rename_i fits
    obtain ⟨digits, positive, small⟩ := fits
    refine ⟨digits, ?_⟩
    rw [← Option.some.inj h, integer_of_positive positive, UInt64.toNat_ofNat',
      Nat.mod_eq_of_lt small]
  · contradiction

theorem integerWithin?_eq_some_iff {least greatest i : Int} :
    n.integerWithin? least greatest = some i ↔
      n.isInteger = true ∧ n.integer = i ∧ least ≤ i ∧ i ≤ greatest := by
  unfold integerWithin?
  constructor
  · intro h
    split at h
    · rename_i within
      obtain rfl := Option.some.inj h
      exact ⟨within.1, rfl, within.2⟩
    · contradiction
  · rintro ⟨digits, rfl, within⟩
    exact if_pos ⟨digits, within⟩

theorem wideInteger?_eq (n : Number) :
    n.wideInteger? = if n.isInteger then some (clampWide n.integer) else none := by
  unfold wideInteger?
  by_cases digits : n.isInteger = true
  · rw [if_pos digits, if_pos digits]
    cases hwithin : n.integerWithin? leastWide greatestWide with
    | some i =>
      obtain ⟨-, rfl, least, greatest⟩ := integerWithin?_eq_some_iff.1 hwithin
      rw [clampWide_of_within least greatest]
    | none =>
      have outside : ¬ (leastWide ≤ n.integer ∧ n.integer ≤ greatestWide) := fun within => by
        rw [integerWithin?_eq_some_iff.2 ⟨digits, rfl, within⟩] at hwithin
        contradiction
      -- A number that is out of reach lies beyond the limit on the side of its sign.
      have limits : leastWide < 0 ∧ 0 < greatestWide := by decide
      cases sign : n.negative with
      | true =>
        have value := integer_of_negative sign
        rw [clampWide_of_lt (by omega)]
        rfl
      | false =>
        have value := integer_of_positive sign
        rw [clampWide_of_gt (by omega)]
        rfl
  · rw [if_neg digits, if_neg digits]

theorem toValue_of_isInteger (h : n.isInteger = true) :
    n.toValue = .ofInt (clampWide n.integer) := by
  have limits : leastWide < -0x8000000000000000 ∧ 0xffffffffffffffff < greatestWide := by decide
  unfold toValue
  split
  · rename_i u hu
    have value := (uint64?_eq_some hu).2
    have word := u.toNat_lt
    rw [clampWide_of_within (by omega) (by omega), value, Value.ofInt_toNat]
  split
  · rename_i i hi
    obtain ⟨-, rfl, least, greatest⟩ := integerWithin?_eq_some_iff.1 hi
    rw [clampWide_of_within (by omega) (by omega)]
  split
  · rename_i i hi
    rw [wideInteger?_eq, if_pos h] at hi
    rw [Option.some.inj hi]
  · rename_i hnone
    rw [wideInteger?_eq, if_pos h] at hnone
    contradiction

/-- A point or an exponent makes a float of the number, whatever its value. -/
theorem toValue_of_not_isInteger (h : n.isInteger = false) :
    (∃ bits, n.toValue = .float bits) ∨ n.toValue = .null := by
  have narrow : n.uint64? = none := by simp [uint64?, h]
  have within (least greatest : Int) : n.integerWithin? least greatest = none := by
    simp [integerWithin?, h]
  have wide : n.wideInteger? = none := by simp [wideInteger?, h]
  unfold toValue
  rw [narrow, within, wide]
  cases n.double? with
  | some bits => exact .inl ⟨bits, rfl⟩
  | none => exact .inr rfl

/-- Where a number is read as a word, its digits write that word. -/
theorem integer_of_plainInteger? {w : UInt32} (h : n.toValue.plainInteger? = some (w.toNat : Int)) :
    n.integer = w.toNat := by
  cases digits : n.isInteger with
  | true =>
    have word : word32? (clampWide n.integer) = some w := by
      rw [← Value.word32?_ofInt, ← n.toValue_of_isInteger digits, h, Option.bind_some,
        word32?_toNat]
    rw [word32?_clampWide] at word
    exact word32?_eq_some_iff.1 word
  | false =>
    rcases n.toValue_of_not_isInteger digits with ⟨bits, hbits⟩ | hnull
    · rw [hbits] at h
      contradiction
    · rw [hnull] at h
      contradiction

end Number
end Json

end SeededTraits
