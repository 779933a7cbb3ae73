import Mathlib.Algebra.Group.Nat.Defs
import SeededTraits.Json.Number

/-! Numbers read back as they were written, where nothing that follows could continue them, and
whatever is read could have been written, but for a plus sign in no more room. -/
namespace SeededTraits
namespace Json
namespace Number

/-- Some digits stand before the point, the first of which is zero only if there is no other, and
an exponent has digits. -/
structure WellFormed (n : Number) : Prop where
  whole_ne_nil : n.whole ≠ []
  whole_leading : ∀ d d' ds, n.whole = d :: d' :: ds → d.val ≠ 0
  exponent_ne_nil : ∀ e, n.exponent = some e → e.digits ≠ []

/-- No digit is the first of these bytes. -/
def Stops (rest : Bytes) : Prop := ∀ b ∈ rest.head?, isDigit b = false

/-- No number that has been read so far goes on with these bytes. -/
structure Ends (rest : Bytes) : Prop where
  stops : Stops rest
  not_point : ∀ b ∈ rest.head?, b ≠ Ascii.point
  not_exponent : ∀ b ∈ rest.head?, b ≠ Ascii.lowerE ∧ b ≠ Ascii.upperE

theorem ends_nil : Ends [] := by
  constructor <;> simp [Stops]

theorem isDigit_toByte (d : Digit) : isDigit d.toByte = true := by
  simp [isDigit]

theorem toByte_ne {b : UInt8} (hb : isDigit b = false) (d : Digit) : d.toByte ≠ b := by
  rintro rfl
  simp [isDigit_toByte] at hb

/-! ### Rows of digits -/

theorem digits_digitBytes (ds : List Digit) {rest : Bytes} (h : Stops rest) :
    digits (digitBytes ds ++ rest) = (ds, rest) := by
  induction ds with
  | nil =>
    cases rest with
    | nil => rfl
    | cons b rest =>
      have hb : isDigit b = false := h b rfl
      simp [digits, digitBytes, hb]
  | cons d ds ih =>
    simp only [digits, digitBytes, Prod.mk.injEq] at ih
    simp only [digits, digitBytes, List.map_cons, List.cons_append,
      List.takeWhile_cons_of_pos (isDigit_toByte d), List.dropWhile_cons_of_pos (isDigit_toByte d),
      List.filterMap_cons, Digit.ofByte?_toByte, ih]

theorem someDigits_digitBytes {ds : List Digit} (hds : ds ≠ []) {rest : Bytes} (h : Stops rest) :
    someDigits (digitBytes ds ++ rest) = some (ds, rest) := by
  cases ds with
  | nil => contradiction
  | cons d ds => simp only [someDigits, digits_digitBytes _ h]

theorem digitBytes_digits (bs : Bytes) : digitBytes (digits bs).1 ++ (digits bs).2 = bs := by
  induction bs with
  | nil => rfl
  | cons b bs ih =>
    cases hd : Digit.ofByte? b with
    | none => simp [digits, digitBytes, isDigit, hd]
    | some d =>
      have hb : isDigit b = true := by simp [isDigit, hd]
      simp only [digits, digitBytes] at ih
      simp [digits, digitBytes, hb, hd, Digit.toByte_of_ofByte? hd, ih]

theorem someDigits_eq_some {bs rest : Bytes} {ds : List Digit}
    (h : someDigits bs = some (ds, rest)) : ds ≠ [] ∧ bs = digitBytes ds ++ rest := by
  have whole := digitBytes_digits bs
  simp only [someDigits] at h
  split at h
  · contradiction
  · rename_i ds' rest' hne hdigits
    simp only [Option.some.injEq, Prod.mk.injEq] at h
    obtain ⟨rfl, rfl⟩ := h
    rw [hdigits] at whole
    exact ⟨hne, whole.symm⟩

theorem length_of_someDigits {bs rest : Bytes} {ds : List Digit}
    (h : someDigits bs = some (ds, rest)) : bs.length = ds.length + rest.length := by
  obtain ⟨-, rfl⟩ := someDigits_eq_some h
  rw [List.length_append, digitBytes, List.length_map]

/-! ### Written, then read -/

theorem sign_of_head_ne {b : UInt8} {bs : Bytes} (h : ∀ c ∈ bs.head?, c ≠ b) :
    sign b bs = (false, bs) := by
  cases bs with
  | nil => rfl
  | cons c bs => simp [sign, h c rfl]

theorem readWhole_digitBytes {ds : List Digit} (hne : ds ≠ [])
    (hlead : ∀ d d' t, ds = d :: d' :: t → d.val ≠ 0) {rest : Bytes} (h : Stops rest) :
    readWhole (digitBytes ds ++ rest) = some (ds, rest) := by
  simp only [readWhole, someDigits_digitBytes hne h]
  match ds with
  | [_] => rfl
  | d :: d' :: t => simp [hlead d d' t rfl]

theorem readFraction_writeFraction (ds : List Digit) {rest : Bytes} (h : Stops rest)
    (hpoint : ∀ b ∈ rest.head?, b ≠ Ascii.point) :
    readFraction (writeFraction ds ++ rest) = some (ds, rest) := by
  cases ds with
  | nil =>
    cases rest with
    | nil => rfl
    | cons b rest => simp [writeFraction, readFraction, hpoint b rfl]
  | cons d ds =>
    have digits_read := someDigits_digitBytes (List.cons_ne_nil d ds) h
    simp [writeFraction, readFraction, digits_read]

theorem readExponent_writeExponent {e : Option Exponent}
    (hne : ∀ e', e = some e' → e'.digits ≠ []) {rest : Bytes} (h : Ends rest) :
    readExponent (writeExponent e ++ rest) = some (e, rest) := by
  cases e with
  | none =>
    cases rest with
    | nil => rfl
    | cons b rest => simp [writeExponent, readExponent, h.not_exponent b rfl]
  | some e =>
    obtain ⟨negative, ds⟩ := e
    have digits_read := someDigits_digitBytes (hne _ rfl) h.stops
    cases negative with
    | false =>
      simp [writeExponent, readExponent, sign, Ascii.plus, Ascii.minus, Reader.map, digits_read]
    | true => simp [writeExponent, readExponent, sign, Reader.map, digits_read]

theorem stops_writeExponent (e : Option Exponent) {rest : Bytes} (h : Ends rest) :
    Stops (writeExponent e ++ rest) ∧ ∀ b ∈ (writeExponent e ++ rest).head?, b ≠ Ascii.point := by
  cases e with
  | none => exact ⟨h.stops, h.not_point⟩
  | some e => simp [Stops, writeExponent, Ascii.lowerE, Ascii.point]; decide

theorem stops_writeFraction (ds : List Digit) {rest : Bytes} (h : Stops rest) :
    Stops (writeFraction ds ++ rest) := by
  cases ds with
  | nil => exact h
  | cons d ds => simp [Stops, writeFraction]; decide

theorem read_write {n : Number} (hn : n.WellFormed) {rest : Bytes} (h : Ends rest) :
    read (write n ++ rest) = some (n, rest) := by
  obtain ⟨negative, whole, fraction, exponent⟩ := n
  have tail := stops_writeExponent exponent h
  have hfraction := readFraction_writeFraction fraction tail.1 tail.2
  have hexponent := readExponent_writeExponent hn.exponent_ne_nil h
  have hwhole := readWhole_digitBytes hn.whole_ne_nil hn.whole_leading
    (stops_writeFraction fraction tail.1)
  have hsign : sign Ascii.minus ((if negative then [Ascii.minus] else []) ++ (digitBytes whole ++
      (writeFraction fraction ++ (writeExponent exponent ++ rest)))) = (negative,
      digitBytes whole ++ (writeFraction fraction ++ (writeExponent exponent ++ rest))) := by
    cases negative with
    | true => simp [sign]
    | false =>
      refine sign_of_head_ne fun c hc => ?_
      cases whole with
      | nil => exact absurd rfl hn.whole_ne_nil
      | cons d ds =>
        obtain rfl : d.toByte = c := by simpa [digitBytes] using hc
        exact toByte_ne (by decide) d
  simp only [write, List.append_assoc, read, hsign, hwhole, hfraction, hexponent]

/-! ### Read, then well formed -/

/-- The fewest bytes that can spell an exponent, of which only a plus sign can be left out. -/
def exponentLength : Option Exponent → Nat
  | none => 0
  | some e => 1 + (if e.negative then 1 else 0) + e.digits.length

/-- The fewest bytes that can spell a number, digit by digit. -/
def leastLength (n : Number) : Nat :=
  (if n.negative then 1 else 0) + n.whole.length + (writeFraction n.fraction).length +
    exponentLength n.exponent

theorem length_sign (b : UInt8) (bs : Bytes) :
    bs.length = (if (sign b bs).1 then 1 else 0) + (sign b bs).2.length := by
  cases bs with
  | nil => rfl
  | cons c bs =>
    by_cases hc : c = b <;> simp [sign, hc, Nat.add_comm]

theorem readWhole_eq_some {bs rest : Bytes} {ds : List Digit}
    (h : readWhole bs = some (ds, rest)) :
    someDigits bs = some (ds, rest) ∧ ∀ d d' t, ds = d :: d' :: t → d.val ≠ 0 := by
  simp only [readWhole] at h
  split at h
  · rename_i d d' t rest' hrow
    split at h
    · contradiction
    · rename_i hd
      simp only [Option.some.injEq, Prod.mk.injEq] at h
      obtain ⟨rfl, rfl⟩ := h
      refine ⟨hrow, fun e e' t' he => ?_⟩
      rw [← (List.cons.inj he).1]
      exact hd
  · rename_i hshort
    refine ⟨h, fun d d' t he => ?_⟩
    subst he
    exact absurd h (hshort d d' t rest)

theorem length_of_readFraction {bs rest : Bytes} {ds : List Digit}
    (h : readFraction bs = some (ds, rest)) :
    bs.length = (writeFraction ds).length + rest.length := by
  cases bs with
  | nil =>
    simp only [readFraction, Option.some.injEq, Prod.mk.injEq] at h
    obtain ⟨rfl, rfl⟩ := h
    rfl
  | cons b bs =>
    simp only [readFraction] at h
    split at h
    · have shorter := length_of_someDigits h
      obtain ⟨d, ds, rfl⟩ := List.exists_cons_of_ne_nil (someDigits_eq_some h).1
      change _ = (Ascii.point :: digitBytes (d :: ds)).length + rest.length
      rw [digitBytes, List.length_cons, List.length_cons, List.length_map]
      omega
    · simp only [Option.some.injEq, Prod.mk.injEq] at h
      obtain ⟨rfl, rfl⟩ := h
      exact (Nat.zero_add _).symm

theorem readExponent_eq_some {bs rest : Bytes} {e : Option Exponent}
    (h : readExponent bs = some (e, rest)) :
    (∀ e', e = some e' → e'.digits ≠ []) ∧ exponentLength e + rest.length ≤ bs.length := by
  cases bs with
  | nil =>
    simp only [readExponent, Option.some.injEq, Prod.mk.injEq] at h
    obtain ⟨rfl, rfl⟩ := h
    simp [exponentLength]
  | cons b bs =>
    simp only [readExponent] at h
    split at h
    · have minus := length_sign Ascii.minus bs
      have plus := length_sign Ascii.plus (sign Ascii.minus bs).2
      simp only [Reader.map, Option.map_eq_some_iff, Prod.mk.injEq] at h
      obtain ⟨⟨ds, rest'⟩, hrow, rfl, rfl⟩ := h
      have digits := (someDigits_eq_some hrow).1
      have digits_length := length_of_someDigits hrow
      refine ⟨fun e' he' => ?_, ?_⟩
      · rw [← Option.some.inj he']
        exact digits
      · simp only [exponentLength, List.length_cons]
        cases hsign : (sign Ascii.minus bs).1 with
        | true =>
          simp only [hsign, if_true] at minus digits_length ⊢
          omega
        | false =>
          simp only [hsign, Bool.false_eq_true, if_false] at minus digits_length ⊢
          omega
    · simp only [Option.some.injEq, Prod.mk.injEq] at h
      obtain ⟨rfl, rfl⟩ := h
      simp [exponentLength]

theorem read_eq_some {bs rest : Bytes} {n : Number} (h : read bs = some (n, rest)) :
    n.WellFormed ∧ n.leastLength + rest.length ≤ bs.length := by
  have minus := length_sign Ascii.minus bs
  simp only [read] at h
  split at h
  · contradiction
  rename_i whole rest₁ hwhole
  split at h
  · contradiction
  rename_i fraction rest₂ hfraction
  split at h
  · contradiction
  rename_i exponent rest₃ hexponent
  simp only [Option.some.injEq, Prod.mk.injEq] at h
  obtain ⟨rfl, rfl⟩ := h
  obtain ⟨whole_read, leading⟩ := readWhole_eq_some hwhole
  obtain ⟨digits, back⟩ := readExponent_eq_some hexponent
  have middle := length_of_readFraction hfraction
  have front := length_of_someDigits whole_read
  refine ⟨⟨(someDigits_eq_some whole_read).1, leading, digits⟩, ?_⟩
  simp only [leastLength]
  omega

/-! ### Numbers without point and exponent -/

/-- The digits come in front of those already done, without leading zeros. -/
theorem decimalDigitsWith_eq {count n : Nat} (h : n < count) (done : List Digit) :
    ∃ ds, decimalDigitsWith count n done = ds ++ done ∧ decimalValue ds = n ∧ ds ≠ [] ∧
      ∀ d d' t, ds = d :: d' :: t → d.val ≠ 0 := by
  induction count generalizing n done with
  | zero => omega
  | succ count ih =>
    by_cases hn : n < 10
    · refine ⟨[⟨n % 10, by omega⟩], by simp [decimalDigitsWith, hn], ?_, by simp, by simp⟩
      simp [decimalValue, Nat.mod_eq_of_lt hn]
    · obtain ⟨ds, hds, value, hne, leading⟩ :=
        ih (show n / 10 < count by omega) (⟨n % 10, by omega⟩ :: done)
      refine ⟨ds ++ [⟨n % 10, by omega⟩], ?_, ?_, by simp, fun d d' t he => ?_⟩
      · simp [decimalDigitsWith, hn, hds]
      · rw [decimalValue_append, value]
        simp only [decimalValue, List.foldl_cons, List.foldl_nil, List.length_singleton]
        change n / 10 * 10 + (10 * 0 + n % 10) = n
        omega
      · -- The first of several digits comes from a smaller number, and that one is not zero.
        cases ds with
        | nil => contradiction
        | cons x ds =>
          obtain rfl : x = d := (List.cons.inj he).1
          cases ds with
          | nil =>
            have single : decimalValue [x] = 10 * 0 + x.val := rfl
            omega
          | cons y ds => exact leading x y ds rfl

theorem decimalValue_decimalDigits (n : Nat) : decimalValue (decimalDigits n) = n := by
  obtain ⟨ds, hds, value, -⟩ := decimalDigitsWith_eq (Nat.lt_succ_self n) []
  rw [decimalDigits, hds, List.append_nil, value]

theorem decimalValue_lt (ds : List Digit) : decimalValue ds < 10 ^ ds.length := by
  induction ds with
  | nil => decide
  | cons d ds ih =>
    have digit : d.val + 1 ≤ 10 := d.isLt
    have split_head : decimalValue (d :: ds) = d.val * 10 ^ ds.length + decimalValue ds :=
      decimalValue_append [d] ds |>.trans (by simp [decimalValue])
    calc decimalValue (d :: ds) = d.val * 10 ^ ds.length + decimalValue ds := split_head
      _ < (d.val + 1) * 10 ^ ds.length := by
        rw [Nat.succ_mul]
        omega
      _ ≤ 10 * 10 ^ ds.length := Nat.mul_le_mul_right _ digit
      _ = 10 ^ (d :: ds).length := by rw [List.length_cons, Nat.pow_succ, Nat.mul_comm]

theorem length_decimalDigitsWith_le (count : Nat) {n k : Nat} (h : n < 10 ^ (k + 1))
    (done : List Digit) : (decimalDigitsWith count n done).length ≤ k + 1 + done.length := by
  induction count generalizing n k done with
  | zero =>
    rw [decimalDigitsWith]
    omega
  | succ count ih =>
    by_cases hn : n < 10
    · simp only [decimalDigitsWith, if_pos hn, List.length_cons]
      omega
    · -- All digits but the last write the tenth part, which is below the next lower power of ten.
      obtain ⟨k, rfl⟩ : ∃ k', k = k' + 1 := by
        cases k with
        | zero => exact absurd h hn
        | succ k => exact ⟨k, rfl⟩
      have tenth : n / 10 < 10 ^ (k + 1) := by
        rw [Nat.pow_succ] at h
        omega
      have tail := ih tenth (⟨n % 10, Nat.mod_lt n (by decide)⟩ :: done)
      simp only [decimalDigitsWith, if_neg hn]
      rw [List.length_cons] at tail
      omega

/-- No row of digits writes a number in less room than its decimal digits take. -/
theorem length_decimalDigits_le {ds : List Digit} (h : ds ≠ []) :
    (decimalDigits (decimalValue ds)).length ≤ ds.length := by
  obtain ⟨d, ds, rfl⟩ := List.exists_cons_of_ne_nil h
  exact length_decimalDigitsWith_le _ (decimalValue_lt (d :: ds)) []

theorem wellFormed_ofNat (n : Nat) : (ofNat n).WellFormed := by
  obtain ⟨ds, hds, -, hne, leading⟩ := decimalDigitsWith_eq (Nat.lt_succ_self n) []
  have digits : decimalDigits n = ds := by rw [decimalDigits, hds, List.append_nil]
  exact ⟨by simpa [ofNat, digits] using hne, by simpa [ofNat, digits] using leading,
    by simp [ofNat]⟩

theorem integer_ofNat (n : Nat) : (ofNat n).integer = n := by
  simp [integer, ofNat, decimalValue_decimalDigits]

theorem write_ofNat (n : Nat) : (ofNat n).write = digitBytes (decimalDigits n) := by
  simp [write, ofNat, writeFraction, writeExponent]

/-- Neither a sign nor a fraction, nor an exponent, nor leading zeros would spare a byte. -/
theorem length_write_ofNat_le {m : Number} (h : m.WellFormed) {n : Nat} (hn : m.integer = n) :
    (ofNat n).write.length ≤ m.leastLength := by
  have digits : decimalValue m.whole = n := by
    simp only [integer, rowValue_eq, Int.ofNat_eq_natCast] at hn
    split at hn <;> omega
  have few := length_decimalDigits_le h.whole_ne_nil
  rw [digits] at few
  rw [write_ofNat, digitBytes, List.length_map, leastLength]
  omega

def ofInt (i : Int) : Number :=
  { ofNat i.natAbs with negative := decide (i < 0) }

theorem wellFormed_ofInt (i : Int) : (ofInt i).WellFormed := by
  have digits := wellFormed_ofNat i.natAbs
  exact ⟨digits.whole_ne_nil, digits.whole_leading, digits.exponent_ne_nil⟩

theorem integer_ofInt (i : Int) : (ofInt i).integer = i := by
  simp only [integer, ofInt, ofNat, rowValue_eq, decimalValue_decimalDigits, decide_eq_true_eq,
    Int.ofNat_eq_natCast]
  split <;> omega

end Number
end Json
end SeededTraits
