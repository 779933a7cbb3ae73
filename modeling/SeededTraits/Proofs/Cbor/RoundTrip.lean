import Mathlib.Tactic.Ring
import Mathlib.Tactic.SplitIfs
import SeededTraits.Cbor
import SeededTraits.FloatFormat
import SeededTraits.Proofs.Bytes

/-! A value that can be stored is found again behind its own bytes, whatever follows them, and its
heads are as short as heads can be. An integer beyond 128 bits need not be storable, and still its
bytes are never read as another value. -/
namespace SeededTraits

namespace Cbor
namespace Head

theorem number_bigEndian {width n : Nat} (h : n < 256 ^ width) (rest : Bytes) :
    number width (Bytes.bigEndian width n ++ rest) = some (n, rest) := by
  have front := Reader.take_append (Bytes.bigEndian width n) rest
  rw [Bytes.length_bigEndian] at front
  simp [number, Reader.map, front, Bytes.toNat_bigEndian, Nat.mod_eq_of_lt h]

theorem read_wide (m : Major) {info : UInt8} {width : Nat}
    (hw : (info, width) ∈ [((24 : UInt8), 1), (25, 2), (26, 4), (27, 8)]) (n : UInt64)
    (h : n.toNat < 256 ^ width) (rest : Bytes) :
    read ((m.code * 32 + info) :: Bytes.bigEndian width n.toNat ++ rest) =
      some (.definite m n, rest) := by
  have wide := number_bigEndian h rest
  simp only [List.mem_cons, Prod.mk.injEq, List.not_mem_nil, or_false] at hw
  rcases hw with ⟨rfl, rfl⟩ | ⟨rfl, rfl⟩ | ⟨rfl, rfl⟩ | ⟨rfl, rfl⟩ <;>
    cases m <;> simp [read, Major.code, Major.ofCode?, Reader.map, argument, wide]

theorem read_narrow (m : Major) {n : UInt64} (h : n.toNat < 24) (rest : Bytes) :
    read ((m.code * 32 + n.toUInt8) :: rest) = some (.definite m n, rest) := by
  have major : (m.code * 32 + n.toUInt8) / 32 = m.code := by
    cases m <;> simp only [Major.code] <;> (apply UInt8.toNat_inj.1; simp; omega)
  have info : (m.code * 32 + n.toUInt8) % 32 = n.toUInt8 := by
    cases m <;> simp only [Major.code] <;> (apply UInt8.toNat_inj.1; simp; omega)
  have small : n.toUInt8 < 24 := by
    rw [UInt8.lt_iff_toNat_lt]
    simp
    omega
  have notOpen : n.toUInt8 ≠ 31 := fun he => absurd (he ▸ small) (by decide)
  have same : n.toUInt8.toUInt64 = n := by
    apply UInt64.toNat_inj.1
    simp
    omega
  simp [read, major, info, notOpen, Reader.map, argument, small, same]

theorem read_write (m : Major) (n : UInt64) (rest : Bytes) :
    read (write m n ++ rest) = some (.definite m n, rest) := by
  have bound := n.toNat_lt
  simp only [write]
  split
  · exact read_narrow m (by assumption) rest
  split
  · exact read_wide m (by simp) n (by omega) rest
  split
  · exact read_wide m (by simp) n (by omega) rest
  split
  · exact read_wide m (by simp) n (by omega) rest
  · exact read_wide m (by simp) n (by omega) rest

end Head
end Cbor

/-! ### Floats -/

namespace FloatFormat

theorem infinity_add_fraction (f : FloatFormat) :
    f.infinity + 2 ^ f.fractionBits = f.signWeight := by
  have one : 1 ≤ 2 ^ f.exponentBits := Nat.one_le_two_pow
  simp only [infinity, signWeight, Nat.shiftLeft_eq, Nat.one_mul, Nat.pow_add]
  rw [← Nat.succ_mul, Nat.succ_eq_add_one, Nat.sub_add_cancel one]

theorem infinity_lt_signWeight (f : FloatFormat) : f.infinity < f.signWeight := by
  have pos : 0 < 2 ^ f.fractionBits := Nat.two_pow_pos _
  have total := f.infinity_add_fraction
  omega

theorem nearest_le_infinity (f : FloatFormat) (num den : Nat) : f.nearest num den ≤ f.infinity := by
  simp only [nearest]
  split <;> omega

theorem convert_lt_signWeight (source target : FloatFormat) {magnitude : Nat}
    (h : magnitude < source.signWeight) : convert source target magnitude < target.signWeight := by
  simp only [convert]
  split
  · exact Nat.lt_of_le_of_lt (nearest_le_infinity _ _ _) target.infinity_lt_signWeight
  · -- A NaN: what its fraction holds beyond infinity is cut to the new width.
    have inside : magnitude - source.infinity < 2 ^ source.fractionBits := by
      have total := source.infinity_add_fraction
      omega
    have cut : (magnitude - source.infinity) <<< target.fractionBits >>> source.fractionBits <
        2 ^ target.fractionBits := by
      rw [Nat.shiftLeft_eq, Nat.shiftRight_eq_div_pow]
      apply Nat.div_lt_of_lt_mul
      exact (Nat.mul_lt_mul_right (Nat.two_pow_pos _)).2 inside
    have total := target.infinity_add_fraction
    omega

/-- A shorter pattern leaves room for no more than a sign and a magnitude. -/
theorem narrow?_lt {f : FloatFormat} {bits : UInt64} {short : Nat}
    (h : f.narrow? bits = some short) : short < 2 * f.signWeight := by
  simp only [narrow?] at h
  split at h
  · rw [← Option.some.inj h]
    have sign : bits.toNat / double.signWeight < 2 :=
      Nat.div_lt_of_lt_mul (Nat.lt_of_lt_of_le bits.toNat_lt (by decide))
    have magnitude : convert double f (bits.toNat % double.signWeight) < f.signWeight :=
      convert_lt_signWeight _ _ (Nat.mod_lt _ (by decide))
    have atMost : bits.toNat / double.signWeight * f.signWeight ≤ 1 * f.signWeight :=
      Nat.mul_le_mul_right _ (by omega)
    omega
  · contradiction

end FloatFormat

/-! ### Items -/

namespace Cbor

/-- Nothing is lost of such a value: its strings, lists and maps are short enough for a head, its
integers fit 128 bits, and it has at most `depth` levels of nesting. The byte string of a bignum
does not count as a level. -/
inductive Storable : (depth : Nat) → Value → Prop
  | null {depth : Nat} : Storable depth .null
  | bool {depth : Nat} (b : Bool) : Storable depth (.bool b)
  | integer {depth : Nat} {i : Int} (least : leastWide ≤ i) (most : i < 2 ^ 128) :
    Storable depth (.ofInt i)
  | float {depth : Nat} (bits : UInt64) : Storable depth (.float bits)
  | text {depth : Nat} {s : String} (fits : (Bytes.ofText s).length < UInt64.size) :
    Storable depth (.text s)
  | array {depth : Nat} {items : List Value} (fits : items.length < UInt64.size)
      (inner : ∀ v ∈ items, Storable depth v) : Storable (depth + 1) (.array items)
  | map {depth : Nat} {entries : List (Value × Value)} (fits : entries.length < UInt64.size)
      (keys : ∀ e ∈ entries, Storable depth e.1) (values : ∀ e ∈ entries, Storable depth e.2) :
    Storable (depth + 1) (.map entries)

theorem Storable.mono {depth depth' : Nat} {v : Value} (h : Storable depth v)
    (hdepth : depth ≤ depth') : Storable depth' v := by
  induction h generalizing depth' with
  | null => exact .null
  | bool b => exact .bool b
  | integer least most => exact .integer least most
  | float bits => exact .float bits
  | text fits => exact .text fits
  | array fits _ ih =>
    obtain ⟨d, rfl⟩ : ∃ d, depth' = d + 1 := ⟨depth' - 1, by omega⟩
    exact .array fits fun v hv => ih v hv (Nat.le_of_succ_le_succ hdepth)
  | map fits _ _ ihKeys ihValues =>
    obtain ⟨d, rfl⟩ : ∃ d, depth' = d + 1 := ⟨depth' - 1, by omega⟩
    have room := Nat.le_of_succ_le_succ hdepth
    exact .map fits (fun e he => ihKeys e he room) fun e he => ihValues e he room

theorem length_mod_size {α : Type} {l : List α} (h : l.length < UInt64.size) :
    l.length % 18446744073709551616 = l.length :=
  Nat.mod_eq_of_lt h

theorem narrow?_half_lt {bits : UInt64} {short : Nat}
    (h : FloatFormat.half.narrow? bits = some short) : short < 256 ^ 2 :=
  Nat.lt_of_lt_of_eq (FloatFormat.narrow?_lt h) (by decide)

theorem narrow?_single_lt {bits : UInt64} {short : Nat}
    (h : FloatFormat.single.narrow? bits = some short) : short < 256 ^ 4 :=
  Nat.lt_of_lt_of_eq (FloatFormat.narrow?_lt h) (by decide)

theorem read_floatBytes (bits : UInt64) (rest : Bytes) :
    Head.read (floatBytes bits ++ rest) = some (.float bits, rest) := by
  simp only [floatBytes]
  split
  · rename_i short hhalf
    simp [Head.read, Head.special, Major.ofCode?, Reader.map,
      Head.number_bigEndian (narrow?_half_lt hhalf), FloatFormat.widen_of_narrow? hhalf]
  split
  · rename_i short hsingle
    simp [Head.read, Head.special, Major.ofCode?, Reader.map,
      Head.number_bigEndian (narrow?_single_lt hsingle), FloatFormat.widen_of_narrow? hsingle]
  · have room : bits.toNat < 256 ^ 8 := Nat.lt_of_lt_of_eq bits.toNat_lt (by decide)
    simp [Head.read, Head.special, Major.ofCode?, Reader.map, Head.number_bigEndian room]

/-- An item that holds no other item reads the same at every depth. -/
theorem item_of_itemWith {width : Nat} {bs : Bytes} {result : Option (Value × Bytes)}
    (h : ∀ inner, itemWith width inner bs = result) (depth : Nat) :
    item width depth bs = result := by
  cases depth <;> exact h _

theorem itemWith_text {s : String} (h : (Bytes.ofText s).length < UInt64.size) (width : Nat)
    (inner : Option (Reader Value)) (rest : Bytes) :
    itemWith width inner (write (.text s) ++ rest) = some (.text s, rest) := by
  simp [itemWith, write, stringBytes, Head.read_write, Reader.map, Reader.filterMap,
    length_mod_size h, Reader.take_append]

/-- A bignum that was written because 65 bits do not hold the number is read as the number. -/
theorem itemWith_bignum {t : UInt64} (ht : t = Value.positiveBignum ∨ t = Value.negativeBignum)
    {n : Nat} (hn : n < 2 ^ 128) {v : Value} (hv : bignum? t (Bytes.minimal n) = some v)
    (width : Nat) (inner : Option (Reader Value)) (rest : Bytes) :
    itemWith width inner (write (.tag t (.bytes (Bytes.minimal n))) ++ rest) = some (v, rest) := by
  have short : (Bytes.minimal n).length ≤ 16 := Bytes.length_minimal_le hn
  have fits : (Bytes.minimal n).length < UInt64.size := Nat.lt_of_le_of_lt short (by decide)
  have few : UInt64.ofNat (Bytes.minimal n).length ≤ maxBignumBytes := by
    rw [UInt64.le_iff_toNat_le, UInt64.toNat_ofNat', Nat.mod_eq_of_lt fits]
    exact short
  simp [itemWith, write, stringBytes, Head.read_write, bignumLength, ht, few, Reader.filterMap,
    length_mod_size fits, Reader.take_append, hv]

theorem itemWith_ofInt {i : Int} (least : leastWide ≤ i) (most : i < 2 ^ 128) (width : Nat)
    (inner : Option (Reader Value)) (rest : Bytes) :
    itemWith width inner (write (.ofInt i) ++ rest) = some (.ofInt i, rest) := by
  cases i with
  | ofNat n =>
    by_cases hn : n < UInt64.size
    · simp [Value.ofInt, hn, itemWith, write, Head.read_write]
    · have wide : Value.ofInt (Int.ofNat n) =
          .tag Value.positiveBignum (.bytes (Bytes.minimal n)) := if_neg hn
      have value :
          bignum? Value.positiveBignum (Bytes.minimal n) = some (.ofInt (Int.ofNat n)) := by
        simp [bignum?, Value.positiveBignum, Value.negativeBignum]
      have magnitude : n < 2 ^ 128 := Int.ofNat_lt.1 most
      rw [wide] at value ⊢
      exact itemWith_bignum (.inl rfl) magnitude value width inner rest
  | negSucc n =>
    by_cases hn : n < UInt64.size
    · simp [Value.ofInt, hn, itemWith, write, Head.read_write]
    · have wide : Value.ofInt (Int.negSucc n) =
          .tag Value.negativeBignum (.bytes (Bytes.minimal n)) := if_neg hn
      have value : bignum? Value.negativeBignum (Bytes.minimal n) =
          some (.ofInt (Int.negSucc n)) := by
        simp [bignum?, least]
      have magnitude : n < 2 ^ 128 := by
        unfold leastWide at least
        omega
      rw [wide] at value ⊢
      exact itemWith_bignum (.inr rfl) magnitude value width inner rest

theorem item_write {depth : Nat} {v : Value} (h : Storable depth v) (width : Nat) (rest : Bytes) :
    item width depth (write v ++ rest) = some (v, rest) := by
  induction h generalizing rest with
  | null =>
    refine item_of_itemWith (fun inner => ?_) _
    simp [itemWith, write, Head.read, Head.special, Major.ofCode?, simple?]
  | bool b =>
    refine item_of_itemWith (fun inner => ?_) _
    cases b <;> simp [itemWith, write, Head.read, Head.special, Major.ofCode?, simple?]
  | integer least most => exact item_of_itemWith (fun inner => itemWith_ofInt least most ..) _
  | float bits =>
    refine item_of_itemWith (fun inner => ?_) _
    simp [itemWith, write, read_floatBytes]
  | text fits => exact item_of_itemWith (fun inner => itemWith_text fits ..) _
  | @array depth items fits _ ih =>
    have items_read : Reader.repeated (fun bs => item width depth bs) items.length []
        (items.flatMap write ++ rest) = some (items, rest) :=
      Reader.repeated_flatMap ih [] rest
    simp [item, itemWith, write_array, Head.read_write, length_mod_size fits, Reader.map,
      items_read]
  | @map depth entries fits _ _ ihKeys ihValues =>
    have entry (e) (he : e ∈ entries) (rest : Bytes) :=
      Reader.both_append (ihKeys e he) (ihValues e he) rest
    have entries_read : Reader.repeated (Reader.both (fun bs => item width depth bs) fun bs =>
        item width depth bs) entries.length []
        ((entries.flatMap fun e => write e.1 ++ write e.2) ++ rest) = some (entries, rest) :=
      Reader.repeated_flatMap entry [] rest
    simp [item, itemWith, write_map, Head.read_write, length_mod_size fits, Reader.map,
      entries_read]

theorem read_write {v : Value} (h : Storable maxDepth v) (rest : Bytes) :
    read (write v ++ rest) = some (v, rest) :=
  item_write h _ rest

end Cbor

/-! ### Integers of any width -/

namespace Cbor

variable {width depth : Nat}

theorem ofInt_of_wide {i : Int} (h : i < leastWide ∨ 2 ^ 128 ≤ i) :
    ∃ t magnitude, (t = Value.positiveBignum ∨ t = Value.negativeBignum) ∧
      Value.ofInt i = .tag t (.bytes magnitude) ∧
        ∀ v, bignum? t magnitude = some v → v = Value.ofInt i := by
  have word : UInt64.size = 18446744073709551616 := rfl
  unfold leastWide at h
  cases i with
  | ofNat n =>
    have wide : ¬n < UInt64.size := by
      rw [Int.ofNat_eq_natCast] at h
      omega
    refine ⟨Value.positiveBignum, Bytes.minimal n, .inl rfl, if_neg wide, fun v hv => ?_⟩
    have other : Value.positiveBignum ≠ Value.negativeBignum := by decide
    simpa [bignum?, other, eq_comm] using hv
  | negSucc n =>
    have wide : ¬n < UInt64.size := by omega
    refine ⟨Value.negativeBignum, Bytes.minimal n, .inr rfl, if_neg wide, fun v hv => ?_⟩
    simp only [bignum?, if_true, Bytes.toNat_minimal] at hv
    split at hv
    · exact (Option.some.inj hv).symm
    · contradiction

theorem item_bytes {magnitude : Bytes} (fits : magnitude.length < UInt64.size) (rest : Bytes) :
    item width depth (write (.bytes magnitude) ++ rest) = some (.bytes magnitude, rest) := by
  refine item_of_itemWith (fun inner => ?_) _
  simp [itemWith, write, stringBytes, Head.read_write, Reader.map, length_mod_size fits,
    Reader.take_append]

/-- Under a bignum tag a short byte string is a number, and a longer one is left as it is. -/
theorem yields_bignum {t : UInt64} {magnitude : Bytes}
    (ht : t = Value.positiveBignum ∨ t = Value.negativeBignum)
    (fits : magnitude.length < UInt64.size)
    (number : ∀ v, bignum? t magnitude = some v → v = .tag t (.bytes magnitude)) :
    Reader.Yields (item width depth) (write (.tag t (.bytes magnitude)))
      (.tag t (.bytes magnitude)) := by
  intro rest r hr
  by_cases short : UInt64.ofNat magnitude.length ≤ maxBignumBytes
  · have head_alone (inner : Option (Reader Value)) :
        itemWith width inner (write (.tag t (.bytes magnitude)) ++ rest) =
          (bignum? t magnitude).map fun v => (v, rest) := by
      cases hnumber : bignum? t magnitude <;>
        simp [itemWith, write, stringBytes, Head.read_write, bignumLength, ht, short,
          Reader.filterMap, length_mod_size fits, Reader.take_append, hnumber]
    rw [item_of_itemWith head_alone] at hr
    obtain ⟨v, hv, rfl⟩ := Option.map_eq_some_iff.1 hr
    rw [number v hv]
  · -- The bytes are an item of their own then, one level down.
    cases depth with
    | zero =>
      simp [item, itemWith, write, stringBytes, Head.read_write, bignumLength, short] at hr
    | succ depth =>
      have content : item width depth (write (.bytes magnitude) ++ rest) = _ := item_bytes fits rest
      simp only [write, stringBytes, List.append_assoc] at content
      simpa [item, itemWith, write, stringBytes, Head.read_write, bignumLength, short, Reader.map,
        content, eq_comm] using hr

theorem length_le_write_bytes (t : UInt64) (magnitude : Bytes) :
    magnitude.length ≤ (write (.tag t (.bytes magnitude))).length := by
  simp only [write, stringBytes, List.length_append]
  omega

theorem yields_ofInt {i : Int} (fits : (write (.ofInt i)).length < UInt64.size) :
    Reader.Yields (item width depth) (write (.ofInt i)) (.ofInt i) := by
  by_cases stored : leastWide ≤ i ∧ i < 2 ^ 128
  · exact .of_eq_some (item_write (.integer stored.1 stored.2) width)
  · obtain ⟨t, magnitude, ht, hi, number⟩ := ofInt_of_wide (i := i) (by omega)
    rw [hi] at fits number ⊢
    exact yields_bignum ht (Nat.lt_of_le_of_lt (length_le_write_bytes t magnitude) fits) number

theorem yields_map {entries : List (Value × Value)} (fits : entries.length < UInt64.size)
    (keys : ∀ e ∈ entries, Reader.Yields (item width depth) (write e.1) e.1)
    (values : ∀ e ∈ entries, Reader.Yields (item width depth) (write e.2) e.2) :
    Reader.Yields (item width (depth + 1)) (write (.map entries)) (.map entries) := by
  intro rest r hr
  have entries_read := Reader.Yields.repeated (fun e he => (keys e he).both (values e he)) []
  have found := entries_read.map Value.map rest r
  apply found
  simpa [item, itemWith, write_map, Head.read_write, length_mod_size fits] using hr

end Cbor

/-! ### The shortest heads -/

namespace Cbor
namespace Head

variable {bs rest : Bytes} {info : UInt8} {m : Major} {n : UInt64}

/-- How many bytes have to follow the initial byte if the argument is to be told by them. -/
def width (argument : UInt64) : Nat :=
  let n := argument.toNat
  if n < 24 then 0 else if n < 0x100 then 1 else if n < 0x10000 then 2
  else if n < 0x100000000 then 4 else 8

theorem length_write (m : Major) (n : UInt64) : (write m n).length = 1 + width n := by
  simp only [write, width]
  split_ifs <;> simp [Nat.add_comm]

theorem width_of_lt (h : n.toNat < 24) : width n = 0 := if_pos h

theorem width_le {bytes : Nat} (hbytes : bytes ∈ [1, 2, 4, 8]) (h : n.toNat < 256 ^ bytes) :
    width n ≤ bytes := by
  simp only [List.mem_cons, List.not_mem_nil, or_false] at hbytes
  simp only [width]
  rcases hbytes with rfl | rfl | rfl | rfl <;> split_ifs <;> omega

/-! ### Read at any width -/

theorem width_le_of_number {bytes : Nat} (hbytes : bytes ∈ [1, 2, 4, 8])
    (h : Reader.map UInt64.ofNat (number bytes) bs = some (n, rest)) :
    width n + rest.length ≤ bs.length := by
  obtain ⟨k, hnumber, rfl⟩ := Reader.map_eq_some.1 h
  obtain ⟨front, htake, rfl⟩ := Reader.map_eq_some.1 hnumber
  obtain ⟨rfl, hlength⟩ := Reader.take_eq_some_iff.1 htake
  have room : (UInt64.ofNat (Bytes.toNat front)).toNat < 256 ^ bytes := by
    rw [← hlength, UInt64.toNat_ofNat']
    exact Nat.lt_of_le_of_lt (Nat.mod_le _ _) (Bytes.toNat_lt front)
  have least := width_le hbytes room
  rw [List.length_append]
  omega

theorem width_le_of_argument (h : argument info bs = some (n, rest)) :
    width n + rest.length ≤ bs.length := by
  unfold argument at h
  by_cases narrow : info < 24
  · rw [if_pos narrow] at h
    simp only [Option.some.injEq, Prod.mk.injEq] at h
    obtain ⟨rfl, rfl⟩ := h
    have small : info.toUInt64.toNat < 24 := by
      rw [UInt8.toNat_toUInt64]
      exact UInt8.lt_iff_toNat_lt.1 narrow
    rw [width_of_lt small, Nat.zero_add]
  · rw [if_neg narrow] at h
    split_ifs at h
    · exact width_le_of_number (by decide) h
    · exact width_le_of_number (by decide) h
    · exact width_le_of_number (by decide) h
    · exact width_le_of_number (by decide) h

theorem special_ne_definite (info : UInt8) (bs : Bytes) :
    special info bs ≠ some (.definite m n, rest) := by
  unfold special
  split_ifs <;> simp [Reader.map]

/-- No head that is read takes fewer bytes than the one that is written for the same argument. -/
theorem length_write_le_of_read (h : read bs = some (.definite m n, rest)) :
    (write m n).length + rest.length ≤ bs.length := by
  cases bs with
  | nil => contradiction
  | cons initial bs =>
    simp only [read] at h
    split at h
    · exact absurd h (special_ne_definite _ _)
    rename_i m' _
    split_ifs at h
    · simp at h
    obtain ⟨n', hargument, heq⟩ := Reader.map_eq_some.1 h
    obtain ⟨rfl, rfl⟩ : m' = m ∧ n' = n := by simpa using heq
    have tail := width_le_of_argument hargument
    rw [length_write, List.length_cons]
    omega

/-- A written head tells its own end and is read as what it was written for, and whatever else is
read as that takes at least as many bytes. A text behind the head that tells its length is read back
as well, and what follows it is left. The bound on the length holds of all texts in memory. -/
theorem read_write_shortest (m : Major) (n : UInt64) {s : String}
    (fits : (Bytes.ofText s).length < UInt64.size) (rest : Bytes) :
    read (write m n ++ rest) = some (.definite m n, rest) ∧
      (∀ bs left, read bs = some (.definite m n, left) →
        (write m n).length + left.length ≤ bs.length) ∧
      Cbor.read (stringBytes .text (Bytes.ofText s) ++ rest) = some (.text s, rest) :=
  ⟨read_write m n rest, fun _ _ h => length_write_le_of_read h, Cbor.read_write (.text fits) rest⟩

/-- A head of three bytes, which longer ones can stand for and shorter ones cannot. -/
theorem read_write_shortest_three :
    let s := String.ofList (List.replicate 300 'é')
    (Bytes.ofText s).length < UInt64.size ∧ write .text 600 = [0x79, 0x02, 0x58] ∧
      read [0x7a, 0x00, 0x00, 0x02, 0x58] = some (.definite .text 600, []) ∧
      (∀ bs left, read bs = some (.definite .text 600, left) → 3 + left.length ≤ bs.length) ∧
      Cbor.read (stringBytes .text (Bytes.ofText s) ++ [0xff]) = some (.text s, [0xff]) := by
  intro s
  have two : (String.utf8EncodeChar 'é').length = 2 := by decide
  have hlength : (Bytes.ofText s).length = 600 := by
    rw [Bytes.ofText_ofList, List.flatMap_replicate, List.length_flatten, List.map_replicate, two,
      List.sum_replicate_nat]
  have fits : (Bytes.ofText s).length < UInt64.size := by
    rw [hlength]
    decide
  obtain ⟨-, least, text⟩ := read_write_shortest .text 600 fits [0xff]
  exact ⟨fits, by decide, by decide, least, text⟩

end Head
end Cbor

end SeededTraits
