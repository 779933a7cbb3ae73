import Mathlib.Algebra.Order.BigOperators.Group.List
import Mathlib.Tactic.Ring
import SeededTraits.Bytes

/-! What has been written is read again. Big-endian numbers keep the bytes that there is room for,
and without leading zeros they keep them all; rows of items are read back one by one. Some readers
may refuse an item but take it for no other, and some do not look beyond what they read. -/
namespace SeededTraits

namespace Bytes

theorem ofText_ofList (cs : List Char) :
    ofText (String.ofList cs) = cs.flatMap String.utf8EncodeChar := by
  simp [ofText, List.utf8Encode]

theorem ofText_append (s t : String) : ofText (s ++ t) = ofText s ++ ofText t := by
  simp [ofText]

theorem foldl_toNat (n : Nat) (bs : Bytes) :
    bs.foldl (fun n b => 256 * n + b.toNat) n = n * 256 ^ bs.length + toNat bs := by
  induction bs generalizing n with
  | nil => simp [toNat]
  | cons b bs ih =>
    have h := ih b.toNat
    simp only [toNat, List.foldl_cons, Nat.mul_zero, Nat.zero_add] at h ⊢
    rw [ih, h, List.length_cons, Nat.pow_succ, Nat.add_mul, toNat]
    ring

theorem toNat_cons (b : UInt8) (bs : Bytes) :
    toNat (b :: bs) = b.toNat * 256 ^ bs.length + toNat bs := by
  rw [← foldl_toNat b.toNat bs]
  simp [toNat]

theorem toNat_bigEndian (width n : Nat) : toNat (bigEndian width n) = n % 256 ^ width := by
  induction width with
  | zero => simp [bigEndian, Nat.mod_one]
  | succ width ih =>
    have byte : (UInt8.ofNat (n >>> (8 * width))).toNat = n / 256 ^ width % 256 := by
      rw [Nat.shiftRight_eq_div_pow, Nat.pow_mul]
      simp
    rw [bigEndian, toNat_cons, length_bigEndian, ih, byte, pow_succ, Nat.mod_mul]
    ring

theorem toNat_lt (bs : Bytes) : toNat bs < 256 ^ bs.length := by
  induction bs with
  | nil => decide
  | cons b bs ih =>
    have byte : b.toNat + 1 ≤ 256 := b.toNat_lt
    calc toNat (b :: bs) = b.toNat * 256 ^ bs.length + toNat bs := toNat_cons b bs
      _ < (b.toNat + 1) * 256 ^ bs.length := by
        rw [Nat.succ_mul]
        omega
      _ ≤ 256 * 256 ^ bs.length := Nat.mul_le_mul_right _ byte
      _ = 256 ^ (b :: bs).length := by rw [List.length_cons, pow_succ, Nat.mul_comm]

@[simp] theorem toNat_minimal (n : Nat) : toNat (minimal n) = n := by
  by_cases hn : n = 0
  · simp [minimal, hn]
  · have fits : n < 256 ^ (n.log2 / 8 + 1) :=
      calc n < 2 ^ (n.log2 + 1) := Nat.lt_log2_self
        _ ≤ 2 ^ (8 * (n.log2 / 8 + 1)) := Nat.pow_le_pow_right (by decide) (by omega)
        _ = 256 ^ (n.log2 / 8 + 1) := Nat.pow_mul 2 8 _
    rw [minimal, if_neg hn, toNat_bigEndian, Nat.mod_eq_of_lt fits]

theorem length_minimal_le {n width : Nat} (h : n < 2 ^ (8 * width)) :
    (minimal n).length ≤ width := by
  by_cases hn : n = 0
  · simp [minimal, hn]
  · have bits : n.log2 < 8 * width := (Nat.log2_lt hn).2 h
    rw [minimal, if_neg hn, length_bigEndian]
    omega

section Rows

variable {α : Type} {write : α → Bytes} {items : List α} {a : α}

theorem length_le_flatMap (ha : a ∈ items) : (write a).length ≤ (items.flatMap write).length := by
  rw [List.length_flatMap]
  exact List.le_sum_of_mem (List.mem_map.2 ⟨a, ha, rfl⟩)

theorem count_le_flatMap (h : ∀ a ∈ items, 0 < (write a).length) :
    items.length ≤ (items.flatMap write).length := by
  rw [List.length_flatMap, ← List.length_map (f := fun a => (write a).length)]
  refine List.length_le_sum_of_one_le _ fun i hi => ?_
  obtain ⟨a, ha, rfl⟩ := List.mem_map.1 hi
  exact h a ha

end Rows

/-! ### Hexadecimal text -/

theorem hexPair_injective : Function.Injective hexPair := by
  have digits : ∀ m n : Fin 16,
      hexDigit (UInt8.ofNat m.val) = hexDigit (UInt8.ofNat n.val) → m = n := by decide
  have half {a b : UInt8} (ha : a.toNat < 16) (hb : b.toNat < 16)
      (h : hexDigit a = hexDigit b) : a.toNat = b.toNat := by
    have same := digits ⟨a.toNat, ha⟩ ⟨b.toNat, hb⟩
    simp only [UInt8.ofNat_toNat, Fin.mk.injEq] at same
    exact same h
  intro a b h
  simp only [hexPair, List.cons.injEq, and_true] at h
  have bound := a.toNat_lt
  have bound' := b.toNat_lt
  have high := half (by simp; omega) (by simp; omega) h.1
  have low := half (by simp; omega) (by simp; omega) h.2
  simp only [UInt8.toNat_div, UInt8.toNat_mod, UInt8.reduceToNat] at high low
  exact UInt8.toNat_inj.1 (by omega)

theorem flatMap_hexPair_injective : Function.Injective fun bs : Bytes => bs.flatMap hexPair := by
  intro a b h
  induction a generalizing b with
  | nil =>
    cases b with
    | nil => rfl
    | cons _ _ => simp [hexPair] at h
  | cons x a ih =>
    cases b with
    | nil => simp [hexPair] at h
    | cons y b =>
      have halves : hexPair x = hexPair y ∧ a.flatMap hexPair = b.flatMap hexPair :=
        List.append_inj h rfl
      rw [hexPair_injective halves.1, ih halves.2]

theorem hex_injective : Function.Injective hex := by
  have char (b : UInt8) : (Char.ofNat b.toNat).toNat = b.toNat := by
    have valid : b.toNat.isValidChar := .inl (Nat.lt_trans b.toNat_lt (by decide))
    rw [Char.ofNat, dif_pos valid]
    rfl
  have char_injective : Function.Injective fun b : UInt8 => Char.ofNat b.toNat := by
    intro a b h
    have same := congrArg Char.toNat h
    exact UInt8.toNat_inj.1 (by rwa [char, char] at same)
  intro a b h
  exact flatMap_hexPair_injective
    (List.map_injective_iff.2 char_injective (String.ofList_injective h))

theorem length_hex (bs : Bytes) : (hex bs).length = 2 * bs.length := by
  induction bs with
  | nil => rfl
  | cons b bs ih =>
    simp only [hex, String.length_ofList, List.length_map, List.flatMap_cons, List.length_append,
      List.length_cons] at ih ⊢
    rw [ih, hexPair, List.length_cons, List.length_singleton]
    omega

end Bytes

/-! ### Readers -/

namespace Reader

theorem map_eq_some {α β : Type} {f : α → β} {read : Reader α} {bs rest : Bytes} {b : β} :
    map f read bs = some (b, rest) ↔ ∃ a, read bs = some (a, rest) ∧ f a = b := by
  simp [map]

theorem filterMap_eq_some {α β : Type} {f : α → Option β} {read : Reader α} {bs rest : Bytes}
    {b : β} :
    filterMap f read bs = some (b, rest) ↔ ∃ a, read bs = some (a, rest) ∧ f a = some b := by
  simp only [filterMap]
  constructor
  · intro h
    split at h
    · contradiction
    split at h
    · contradiction
    rename_i a rest' hread _ b' hf
    simp only [Option.some.injEq, Prod.mk.injEq] at h
    obtain ⟨rfl, rfl⟩ := h
    exact ⟨a, hread, hf⟩
  · rintro ⟨a, hread, hf⟩
    simp [hread, hf]

theorem exact_eq_some_iff {word bs rest : Bytes} {u : Unit} :
    exact word bs = some (u, rest) ↔ bs = word ++ rest := by
  simp only [exact]
  constructor
  · intro h
    split at h
    · rename_i hword
      obtain ⟨back, rfl⟩ := List.isPrefixOf_iff_prefix.1 hword
      obtain rfl : back = rest := by simpa using h
      rfl
    · contradiction
  · rintro rfl
    simp

theorem length_of_exact {word bs rest : Bytes} {u : Unit} (h : exact word bs = some (u, rest)) :
    bs.length = word.length + rest.length := by
  rw [exact_eq_some_iff.1 h, List.length_append]

theorem both_append {α β : Type} {first : Reader α} {second : Reader β} {a : α} {b : β}
    {front back : Bytes} (hfirst : ∀ rest, first (front ++ rest) = some (a, rest))
    (hsecond : ∀ rest, second (back ++ rest) = some (b, rest)) (rest : Bytes) :
    both first second (front ++ back ++ rest) = some ((a, b), rest) := by
  simp [both, hfirst, hsecond]

theorem repeated_flatMap {α : Type} {item : Reader α} {write : α → Bytes} {items : List α}
    (h : ∀ a ∈ items, ∀ rest, item (write a ++ rest) = some (a, rest)) (done : List α)
    (rest : Bytes) :
    repeated item items.length done (items.flatMap write ++ rest) =
      some (done.reverse ++ items, rest) := by
  induction items generalizing done with
  | nil => simp [repeated]
  | cons a items ih =>
    have head := h a (by simp) (items.flatMap write ++ rest)
    have tail := ih (fun b hb => h b (by simp [hb])) (a :: done)
    simp [repeated, head, tail]

/-! ### Nothing else, if anything -/

section Yields

variable {α β : Type} {read : Reader α} {bs : Bytes} {a : α} {b : β}

/-- If the reader finds anything in these bytes, it finds `a` and leaves what follows. -/
def Yields (read : Reader α) (bs : Bytes) (a : α) : Prop :=
  ∀ rest r, read (bs ++ rest) = some r → r = (a, rest)

theorem Yields.of_eq_some (h : ∀ rest, read (bs ++ rest) = some (a, rest)) : Yields read bs a := by
  intro rest r hr
  rw [h] at hr
  exact (Option.some.inj hr).symm

theorem Yields.map (h : Yields read bs a) (f : α → β) : Yields (map f read) bs (f a) := by
  rintro rest ⟨b, rest'⟩ hr
  obtain ⟨a', hread, rfl⟩ := map_eq_some.1 hr
  cases h rest _ hread
  rfl

theorem Yields.both {second : Reader β} {front back : Bytes} (hfirst : Yields read front a)
    (hsecond : Yields second back b) : Yields (both read second) (front ++ back) (a, b) := by
  intro rest r hr
  rw [List.append_assoc] at hr
  simp only [Reader.both] at hr
  split at hr
  · contradiction
  rename_i a' rest' hread
  cases hfirst _ _ hread
  split at hr
  · contradiction
  rename_i b' rest' hread'
  cases hsecond _ _ hread'
  exact (Option.some.inj hr).symm

theorem Yields.repeated {write : α → Bytes} {items : List α}
    (h : ∀ a ∈ items, Yields read (write a) a) (done : List α) :
    Yields (repeated read items.length done) (items.flatMap write) (done.reverse ++ items) := by
  induction items generalizing done with
  | nil =>
    refine .of_eq_some fun rest => ?_
    simp [Reader.repeated]
  | cons a items ih =>
    intro rest r hr
    rw [List.flatMap_cons, List.append_assoc] at hr
    simp only [List.length_cons, Reader.repeated] at hr
    split at hr
    · contradiction
    rename_i a' rest' hread
    cases h a (by simp) _ _ hread
    have tail := ih (fun b hb => h b (by simp [hb])) (a :: done) rest r hr
    simpa using tail

end Yields

/-! ### More bytes behind -/

section Persists

variable {α β : Type} {read read' : Reader α}

/-- What the first reader finds in some bytes, the second one finds in them with more bytes behind,
and it leaves those too. The second reader is the first one, or one that is given more room. -/
def Persists (read read' : Reader α) : Prop :=
  ∀ bs a rest, read bs = some (a, rest) → ∀ more, read' (bs ++ more) = some (a, rest ++ more)

theorem Persists.map (h : Persists read read') (f : α → β) :
    Persists (map f read) (map f read') := by
  intro bs b rest hr more
  obtain ⟨a, hread, hf⟩ := map_eq_some.1 hr
  exact map_eq_some.2 ⟨a, h bs a rest hread more, hf⟩

theorem Persists.filterMap (h : Persists read read') (f : α → Option β) :
    Persists (filterMap f read) (filterMap f read') := by
  intro bs b rest hr more
  obtain ⟨a, hread, hf⟩ := filterMap_eq_some.1 hr
  exact filterMap_eq_some.2 ⟨a, h bs a rest hread more, hf⟩

theorem Persists.both {second second' : Reader β} (hfirst : Persists read read')
    (hsecond : Persists second second') : Persists (both read second) (both read' second') := by
  intro bs p rest hr more
  simp only [Reader.both] at hr ⊢
  split at hr
  · contradiction
  rename_i a rest₁ hread
  split at hr
  · contradiction
  rename_i b rest₂ hread'
  simp only [Option.some.injEq, Prod.mk.injEq] at hr
  obtain ⟨rfl, rfl⟩ := hr
  simp only [hfirst _ _ _ hread more, hsecond _ _ _ hread' more]

theorem Persists.repeated (h : Persists read read') (n : Nat) (done : List α) :
    Persists (repeated read n done) (repeated read' n done) := by
  intro bs items rest hr more
  induction n generalizing done bs with
  | zero =>
    simp only [Reader.repeated, Option.some.injEq, Prod.mk.injEq] at hr ⊢
    exact ⟨hr.1, by rw [hr.2]⟩
  | succ n ih =>
    simp only [Reader.repeated] at hr ⊢
    split at hr
    · contradiction
    rename_i a rest₁ hread
    simp only [h _ _ _ hread more]
    exact ih _ _ hr

end Persists

end Reader

/-! ### Chains of fallible steps -/

namespace Except

variable {ε ε' α β : Type} {x : Except ε α} {a : α} {b : β} {e : ε}

theorem map_eq_ok {f : α → β} : x.map f = .ok b ↔ ∃ a, x = .ok a ∧ f a = b := by
  cases x <;> simp [Except.map]

theorem map_eq_error {f : α → β} : x.map f = .error e ↔ x = .error e := by
  cases x <;> simp [Except.map]

theorem mapError_eq_ok {f : ε → ε'} : x.mapError f = .ok a ↔ x = .ok a := by
  cases x with
  | error e => exact ⟨nofun, nofun⟩
  | ok b => exact ⟨fun h => congrArg _ (Except.ok.inj h), fun h => congrArg _ (Except.ok.inj h)⟩

theorem bind_eq_ok {f : α → Except ε β} : x.bind f = .ok b ↔ ∃ a, x = .ok a ∧ f a = .ok b := by
  cases x <;> simp [Except.bind]

end Except

end SeededTraits
