import SeededTraits.Proofs.Schema.Meaning
import SeededTraits.Proofs.Value

/-! Integers as bounds of a range, in digits and in bignums of any length: clamping them on the way
never makes bounds of what are none, nor other bounds of what are. -/
namespace SeededTraits

namespace Json.Number

def ofDigits (negative : Bool) (ds : List Digit) : Number := ⟨negative, ds, [], none⟩

def signedValue (negative : Bool) (ds : List Digit) : Int :=
  if negative then -(decimalValue ds : Int) else decimalValue ds

theorem write_ofDigits (negative : Bool) (ds : List Digit) :
    (ofDigits negative ds).write = (if negative then [Ascii.minus] else []) ++ digitBytes ds := by
  cases negative <;> simp [write, ofDigits, writeFraction, writeExponent]

theorem integer_ofDigits (negative : Bool) (ds : List Digit) :
    (ofDigits negative ds).integer = signedValue negative ds := by
  simp [integer, ofDigits, signedValue]

theorem toValue_ofDigits (negative : Bool) (ds : List Digit) :
    (ofDigits negative ds).toValue = .ofInt (clampWide (signedValue negative ds)) := by
  rw [← integer_ofDigits]
  exact toValue_of_isInteger rfl

theorem integer?_toValue_ofDigits (negative : Bool) (ds : List Digit) :
    (ofDigits negative ds).toValue.integer? = some (clampWide (signedValue negative ds)) := by
  rw [toValue_ofDigits, Value.integer?_ofInt, clampWide_clampWide]

theorem integer?_toValue_of_fraction_or_exponent {n : Number}
    (h : n.fraction ≠ [] ∨ n.exponent ≠ none) : n.toValue.integer? = none := by
  have broken : n.isInteger = false := by
    rcases h with fraction | exponent
    · simp [isInteger, fraction]
    · obtain ⟨e, he⟩ := Option.ne_none_iff_exists'.1 exponent
      simp [isInteger, he]
  rcases n.toValue_of_not_isInteger broken with ⟨bits, hbits⟩ | hnull
  · rw [hbits]
    rfl
  · rw [hnull]
    rfl

end Json.Number

namespace Value

theorem plainInteger?_ofInt_of_within {i : Int} (least : -2 ^ 64 ≤ i) (most : i ≤ 2 ^ 64 - 1) :
    (ofInt i).plainInteger? = some i := by
  rcases ofInt_cases i with ⟨n, h, hi⟩ | ⟨n, h, hi⟩ | ⟨_, _, _, wide⟩
  · rw [h, hi, plainInteger?]
  · rw [h, hi, plainInteger?]
  · omega

/-- Beyond 65 bits an integer is a bignum, and its tag tells its sign. -/
theorem ofInt_of_outside {i : Int} (h : i < -2 ^ 64 ∨ 2 ^ 64 - 1 < i) :
    ∃ bs, ofInt i = .tag (if i < 0 then negativeBignum else positiveBignum) (.bytes bs) := by
  have word : UInt64.size = 2 ^ 64 := rfl
  cases i with
  | ofNat n =>
    rw [Int.ofNat_eq_natCast] at h
    have large : ¬n < UInt64.size := by omega
    have positive : ¬Int.ofNat n < 0 := by simp
    rw [if_neg positive]
    exact ⟨_, if_neg large⟩
  | negSucc n =>
    have large : ¬n < UInt64.size := by omega
    rw [if_pos (Int.negSucc_lt_zero n)]
    exact ⟨_, if_neg large⟩

/-- Clamping takes no integer into 65 bits and none over to the other sign. -/
theorem ofInt_clampWide_of_outside {i : Int} (h : i < -2 ^ 64 ∨ 2 ^ 64 - 1 < i) :
    ∃ bs, ofInt (clampWide i) =
      .tag (if i < 0 then negativeBignum else positiveBignum) (.bytes bs) := by
  have limits : leastWide < -2 ^ 64 ∧ 2 ^ 64 < greatestWide := by decide
  have cases := clampWide_cases i
  have sign : clampWide i < 0 ↔ i < 0 := by omega
  have tagged := ofInt_of_outside (show clampWide i < -2 ^ 64 ∨ 2 ^ 64 - 1 < clampWide i by omega)
  simpa only [sign] using tagged

/-- An integer in digits, in a plain integer or in a bignum, however wide. -/
inductive Writes : Value → Int → Prop
  | digits (negative : Bool) (ds : List Json.Digit) :
    Writes (Json.Number.ofDigits negative ds).toValue (Json.Number.signedValue negative ds)
  | unsigned (n : UInt64) : Writes (.unsigned n) n.toNat
  | negative (n : UInt64) : Writes (.negative n) (-1 - n.toNat)
  | positiveBignum (bs : Bytes) : Writes (.tag Value.positiveBignum (.bytes bs)) (Bytes.toNat bs)
  | negativeBignum (bs : Bytes) :
    Writes (.tag Value.negativeBignum (.bytes bs)) (-1 - Bytes.toNat bs)

theorem Writes.denotes {v : Value} {i : Int} (h : v.Writes i) : v.Denotes (clampWide i) := by
  have limits : leastWide < -2 ^ 64 ∧ 2 ^ 64 < greatestWide := by decide
  cases h with
  | digits negative ds =>
    exact integer?_eq_some_iff.1 (Json.Number.integer?_toValue_ofDigits negative ds)
  | unsigned n =>
    have word := n.toNat_lt
    rw [clampWide_of_within (by omega) (by omega)]
    exact .unsigned n
  | negative n =>
    have word := n.toNat_lt
    rw [clampWide_of_within (by omega) (by omega)]
    exact .negative n
  | positiveBignum bs => exact .positiveBignum bs
  | negativeBignum bs => exact .negativeBignum bs

end Value

namespace Range

variable {r : Range} {b : Bounds} {min max : Int}

theorem bounds?_eq_some_iff : r.bounds? = some b ↔ r.min = b.min.toNat ∧ r.max = b.max.toNat := by
  rw [← word32?_eq_some_iff, ← word32?_eq_some_iff]
  obtain ⟨min, max, order⟩ := b
  unfold bounds?
  constructor
  · intro h
    split at h
    · rename_i least greatest hleast hgreatest
      split at h
      · obtain ⟨rfl, rfl⟩ := Bounds.mk.inj (Option.some.inj h)
        exact ⟨hleast, hgreatest⟩
      · contradiction
    · contradiction
  · rintro ⟨hmin, hmax⟩
    simp only [hmin, hmax, dif_pos order]

theorem isSome_bounds?_iff :
    r.bounds?.isSome = true ↔ 0 ≤ r.min ∧ r.min ≤ r.max ∧ r.max ≤ 2 ^ 32 - 1 := by
  rw [Option.isSome_iff_exists]
  constructor
  · rintro ⟨b, hb⟩
    obtain ⟨hmin, hmax⟩ := bounds?_eq_some_iff.1 hb
    have order : b.min.toNat ≤ b.max.toNat := b.min_le_max
    have word := b.max.toNat_lt
    omega
  · rintro ⟨least, order, most⟩
    obtain ⟨min, hmin⟩ := exists_word32 least (by omega)
    obtain ⟨max, hmax⟩ := exists_word32 (Int.le_trans least order) most
    have between : min ≤ max := UInt32.le_iff_toNat_le.2 (by omega)
    exact ⟨⟨min, max, between⟩, bounds?_eq_some_iff.2 ⟨hmin, hmax⟩⟩

/-- Bounds that do not survive clamping were none. -/
theorem bounds?_clampWide (min max : Int) :
    bounds? ⟨clampWide min, clampWide max⟩ = bounds? ⟨min, max⟩ := by
  simp only [bounds?, word32?_clampWide]

theorem ofValue?_of_writes {least greatest : Value} {fields : List (Value × Value)}
    (hmin : least.Writes min) (hmax : greatest.Writes max)
    (hleast : Value.LastUnder "min" fields least)
    (hgreatest : Value.LastUnder "max" fields greatest) :
    Range.ofValue? (.map fields) = some ⟨clampWide min, clampWide max⟩ :=
  Range.ofValue?_eq_some_iff.2
    ⟨fields, least, greatest, rfl, hleast, hgreatest, hmin.denotes, hmax.denotes⟩

/-- An integer is read as what it is, clamped to 128 bits, however many digits or bytes write it;
digits make a plain integer where 65 bits suffice and otherwise a bignum; and with a point or an
exponent there is no integer. Therefore the bounds of a range are those that its data write, if they
are 32-bit words in order as they stand there, and otherwise the range has no bounds. -/
theorem bounds?_of_writes :
    (∀ negative ds, (Json.Number.ofDigits negative ds).write =
        (if negative then [Ascii.minus] else []) ++ Json.Number.digitBytes ds ∧
      (Json.Number.ofDigits negative ds).toValue.integer? =
        some (clampWide (Json.Number.signedValue negative ds))) ∧
    (∀ n : Json.Number, n.fraction ≠ [] ∨ n.exponent ≠ none → n.toValue.integer? = none) ∧
    (∀ bs, Value.integer? (.tag Value.positiveBignum (.bytes bs)) =
        some (clampWide (Bytes.toNat bs)) ∧
      Value.integer? (.tag Value.negativeBignum (.bytes bs)) =
        some (clampWide (-1 - Bytes.toNat bs))) ∧
    (∀ negative ds, let i := Json.Number.signedValue negative ds
      let v := (Json.Number.ofDigits negative ds).toValue
      if -2 ^ 64 ≤ i ∧ i ≤ 2 ^ 64 - 1 then v.plainInteger? = some i
      else ∃ bs, v =
        .tag (if i < 0 then Value.negativeBignum else Value.positiveBignum) (.bytes bs)) ∧
    ∀ least greatest min max fields, Value.Writes least min → Value.Writes greatest max →
      Value.LastUnder "min" fields least → Value.LastUnder "max" fields greatest →
      ∃ r, Range.ofValue? (.map fields) = some r ∧
        (r.bounds?.isSome = true ↔ 0 ≤ min ∧ min ≤ max ∧ max ≤ 2 ^ 32 - 1) ∧
        ∀ b, r.bounds? = some b → (b.min.toNat : Int) = min ∧ (b.max.toNat : Int) = max := by
  refine ⟨fun negative ds => ⟨Json.Number.write_ofDigits negative ds,
      Json.Number.integer?_toValue_ofDigits negative ds⟩,
    fun n => Json.Number.integer?_toValue_of_fraction_or_exponent,
    fun bs => ⟨Value.integer?_positiveBignum bs, Value.integer?_negativeBignum bs⟩,
    fun negative ds => ?_, fun least greatest min max fields hmin hmax hleast hgreatest => ?_⟩
  · have limits : leastWide < -2 ^ 64 ∧ 2 ^ 64 < greatestWide := by decide
    simp only [Json.Number.toValue_ofDigits]
    split
    · rename_i within
      rw [clampWide_of_within (by omega) (by omega)]
      exact Value.plainInteger?_ofInt_of_within within.1 within.2
    · exact Value.ofInt_clampWide_of_outside (by omega)
  · refine ⟨_, ofValue?_of_writes hmin hmax hleast hgreatest, ?_, fun b hb => ?_⟩
    · rw [bounds?_clampWide]
      exact isSome_bounds?_iff
    · rw [bounds?_clampWide] at hb
      obtain ⟨hb, hb'⟩ := bounds?_eq_some_iff.1 hb
      exact ⟨hb.symm, hb'.symm⟩

theorem bounds?_of_writes_padded :
    let thousand : Json.Number := ⟨false, [1], [], some ⟨false, [3]⟩⟩
    let five : Value := .tag Value.positiveBignum (.bytes (List.replicate 20 0 ++ [5]))
    let most := (Json.Number.ofDigits false [4, 2, 9, 4, 9, 6, 7, 2, 9, 5]).toValue
    let fields := [(.text "min", .unsigned 9), (.text "min", five), (.text "max", most)]
    thousand.exponent ≠ none ∧ thousand.toValue.integer? = none ∧
      five.Writes 5 ∧ most.Writes 4294967295 ∧
      Value.LastUnder "min" fields five ∧ Value.LastUnder "max" fields most ∧
      ∃ r b, Range.ofValue? (.map fields) = some r ∧ r.bounds? = some b ∧
        (b.min.toNat : Int) = 5 ∧ (b.max.toNat : Int) = 4294967295 := by
  intro thousand five most fields
  have exponent : thousand.exponent ≠ none := by decide
  have hfive : five.Writes 5 := .positiveBignum _
  have hmost : most.Writes 4294967295 := .digits false _
  have last_min : Value.LastUnder "min" fields five :=
    ⟨[(.text "min", .unsigned 9)], [(.text "max", most)], rfl, by simp⟩
  have last_max : Value.LastUnder "max" fields most :=
    ⟨[(.text "min", .unsigned 9), (.text "min", five)], [], rfl, by simp⟩
  obtain ⟨-, none_there, -, -, bounds⟩ := bounds?_of_writes
  obtain ⟨r, hr, some_there, values⟩ :=
    bounds five most 5 4294967295 fields hfive hmost last_min last_max
  obtain ⟨b, hb⟩ := Option.isSome_iff_exists.1 (some_there.2 (by decide))
  exact ⟨exponent, none_there thousand (.inr exponent), hfive, hmost, last_min, last_max, r, b, hr,
    hb, values b hb⟩

end Range
end SeededTraits
