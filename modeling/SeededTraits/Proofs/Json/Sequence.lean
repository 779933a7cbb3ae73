import Mathlib.Algebra.GroupWithZero.Nat
import Mathlib.Algebra.Order.BigOperators.Group.List
import Mathlib.Algebra.Order.Group.Nat
import SeededTraits.Json.Document
import SeededTraits.Proofs.Bytes
import SeededTraits.Proofs.Json.Number
import SeededTraits.Proofs.Json.Quoted
import SeededTraits.Proofs.KeyOrder

/-! Items between commas, whatever the items are: written and then read, and read and then measured.
And the fewest bytes that can spell a document: no blanks, no escape that could be shorter or left
out, no member that a later one replaces and no plus sign. -/
namespace SeededTraits
namespace Json

theorem skipBlank_cons {b : UInt8} (h : Ascii.isBlank b = false) (rest : Bytes) :
    Ascii.skipBlank (b :: rest) = b :: rest := by
  simp [Ascii.skipBlank, h]

theorem length_skipBlank_le (bs : Bytes) : (Ascii.skipBlank bs).length ≤ bs.length :=
  (List.dropWhile_suffix _).length_le

theorem mark_self {b : UInt8} (h : Ascii.isBlank b = false) (rest : Bytes) :
    mark b (b :: rest) = some rest := by
  simp [mark, skipBlank_cons h]

theorem mark_of_ne {b c : UInt8} (h : Ascii.isBlank c = false) (hne : c ≠ b) (rest : Bytes) :
    mark b (c :: rest) = none := by
  simp [mark, skipBlank_cons h, hne]

theorem length_of_mark {b : UInt8} {bs rest : Bytes} (h : mark b bs = some rest) :
    rest.length < bs.length := by
  have shorter := length_skipBlank_le bs
  simp only [mark] at h
  split at h
  · contradiction
  rename_i c rest' hskip
  rw [hskip, List.length_cons] at shorter
  split at h
  · rw [← Option.some.inj h]
    exact shorter
  · contradiction

@[simp] theorem commaSeparated_nil : commaSeparated [] = [] := rfl

@[simp] theorem commaSeparated_singleton (p : Bytes) : commaSeparated [p] = p := by
  simp [commaSeparated]

@[simp] theorem commaSeparated_cons_cons (p q : Bytes) (ps : List Bytes) :
    commaSeparated (p :: q :: ps) = p ++ Ascii.comma :: commaSeparated (q :: ps) := by
  simp [commaSeparated]

variable {α : Type} {item : Reader α} {close : UInt8}

/-! ### Lengths of rows -/

/-- What items and a close take, each item being followed by one more byte and the close being there
even where there is no item. -/
def rowLength (least : α → Nat) (items : List α) : Nat :=
  max 1 (items.map fun a => least a + 1).sum

theorem rowLength_cons (least : α → Nat) (a : α) (items : List α) :
    rowLength least (a :: items) = least a + 1 + (items.map fun a => least a + 1).sum := by
  simp only [rowLength, List.map_cons, List.sum_cons]
  omega

theorem le_rowLength (least : α → Nat) {a : α} {items : List α} (h : a ∈ items) :
    least a + 1 ≤ rowLength least items :=
  Nat.le_trans (List.le_sum_of_mem (List.mem_map.2 ⟨a, h, rfl⟩)) (Nat.le_max_right _ _)

theorem rowLength_map {β : Type} (least : β → Nat) (f : α → β) (items : List α) :
    rowLength least (items.map f) = rowLength (fun a => least (f a)) items := by
  rw [rowLength, List.map_map]
  rfl

theorem length_le_rowLength (least : α → Nat) (items : List α) :
    items.length ≤ rowLength least items := by
  have counted :
      (items.map fun a => least a + 1).length ≤ (items.map fun a => least a + 1).sum := by
    refine List.length_le_sum_of_one_le _ fun i hi => ?_
    obtain ⟨a, -, rfl⟩ := List.mem_map.1 hi
    exact Nat.le_add_left 1 _
  rw [List.length_map] at counted
  exact Nat.le_trans counted (Nat.le_max_right _ _)

/-- Where the items of one row stand for those of another, in whatever order, and none takes less
room than what it stands for, the row takes no less room than the other. -/
theorem rowLength_le_of_perm {β : Type} {size : β → Nat} {room : α → Nat} {f : α → Option β}
    {fields : List β} {items : List α} (h : (items.map f).Perm (fields.map some))
    (hroom : ∀ a ∈ items, ∀ b, f a = some b → size b ≤ room a) :
    rowLength size fields ≤ rowLength room items := by
  have same : (fields.map fun b => size b + 1).sum =
      (items.map fun a => (f a).elim 0 fun b => size b + 1).sum := by
    have sums_equal := (h.map fun o => o.elim 0 fun b => size b + 1).sum_eq
    rw [List.map_map, List.map_map] at sums_equal
    exact sums_equal.symm
  have total : (items.map fun a => (f a).elim 0 fun b => size b + 1).sum ≤
      (items.map fun a => room a + 1).sum := by
    refine List.sum_le_sum fun a ha => ?_
    obtain ⟨b, -, hb⟩ := List.mem_map.1 (h.subset (List.mem_map.2 ⟨a, ha, rfl⟩))
    rw [← hb]
    exact Nat.succ_le_succ (hroom a ha b hb.symm)
  rw [rowLength, rowLength, same]
  omega

theorem length_commaSeparated (ps : List Bytes) :
    (commaSeparated ps).length + 1 = rowLength List.length ps := by
  induction ps with
  | nil => rfl
  | cons p ps ih =>
    cases ps with
    | nil => simp [rowLength]
    | cons q ps =>
      rw [rowLength_cons] at ih
      rw [rowLength_cons, List.map_cons, List.sum_cons, ← ih, commaSeparated_cons_cons,
        List.length_append, List.length_cons]
      omega

/-! ### Written, then read -/

section Written

variable {β : Type} {write : β → Bytes} {f : β → α} {ok : β → Bool} {items : List β} {width : Nat}

theorem separated_commaSeparated (hclose : close ≠ Ascii.comma)
    (hblank : Ascii.isBlank close = false) (hne : items ≠ [])
    (h : ∀ b ∈ items, ∀ c, c = Ascii.comma ∨ c = close → ∀ rest,
      item (write b ++ c :: rest) = if ok b then some (f b, c :: rest) else none)
    (hwidth : items.length ≤ width) (done : List α) (rest : Bytes) :
    separated item close width done (commaSeparated (items.map write) ++ close :: rest) =
      if items.all ok then some (done.reverse ++ items.map f, rest) else none := by
  induction items generalizing width done with
  | nil => contradiction
  | cons a items ih =>
    obtain ⟨width, rfl⟩ : ∃ w, width = w + 1 := ⟨width - 1, by simp at hwidth; omega⟩
    cases items with
    | nil =>
      have last := h a (by simp) close (.inr rfl) rest
      cases hok : ok a <;> simp [separated, last, hok, skipBlank_cons hblank, hclose]
    | cons b items =>
      have head := h a (by simp) Ascii.comma (.inl rfl)
        (commaSeparated ((b :: items).map write) ++ close :: rest)
      have tail := ih (by simp) (fun c hc => h c (List.mem_cons_of_mem _ hc))
        (by simpa using hwidth) (f a :: done)
      have comma (rest : Bytes) := skipBlank_cons (b := Ascii.comma) (by decide) rest
      rw [List.map_cons] at head tail
      cases hok : ok a <;> simp [separated, head, hok, comma, tail]

/-- Each written item starts with a byte that can stand neither for a blank nor for the close. The
row is read where each of its items is. -/
theorem sequence_commaSeparated (hclose : close ≠ Ascii.comma)
    (hblank : Ascii.isBlank close = false)
    (hstart : ∀ a ∈ items, ∃ b t, write a = b :: t ∧ Ascii.isBlank b = false ∧ b ≠ close)
    (h : ∀ b ∈ items, ∀ c, c = Ascii.comma ∨ c = close → ∀ rest,
      item (write b ++ c :: rest) = if ok b then some (f b, c :: rest) else none)
    (hwidth : items.length ≤ width) (rest : Bytes) :
    sequence item close width (commaSeparated (items.map write) ++ close :: rest) =
      if items.all ok then some (items.map f, rest) else none := by
  cases items with
  | nil => simp [sequence, mark_self hblank]
  | cons a items =>
    have items_read := separated_commaSeparated hclose hblank (by simp) h hwidth [] rest
    obtain ⟨b, t, hb, hfirst, hne⟩ := hstart a (by simp)
    have front : ∃ t', commaSeparated ((a :: items).map write) = b :: t' := by
      cases items with
      | nil => exact ⟨t, by simp [hb]⟩
      | cons _ _ => exact ⟨_, by simp [hb]; rfl⟩
    obtain ⟨t', ht'⟩ := front
    rw [ht', List.cons_append] at items_read ⊢
    simp only [sequence, mark_of_ne hfirst hne]
    exact items_read

end Written

/-! ### Read, then measured -/

section Measured

/-- In `size` bytes at most, the reader finds nothing but what `P` holds of, and it takes no fewer
bytes than `least` tells of what it finds. -/
def Finds (P : α → Prop) (least : α → Nat) (size : Nat) (item : Reader α) : Prop :=
  ∀ bs a rest, bs.length ≤ size → item bs = some (a, rest) →
    P a ∧ least a + rest.length ≤ bs.length

variable {P : α → Prop} {least : α → Nat} {size : Nat}

theorem Finds.separated (hitem : Finds P least size item) {width : Nat} {done l : List α}
    {bs rest : Bytes} (hsize : bs.length ≤ size)
    (h : separated item close width done bs = some (l, rest)) :
    ∃ items, l = done.reverse ++ items ∧ (∀ a ∈ items, P a) ∧
      rowLength least items + rest.length ≤ bs.length := by
  induction width generalizing done bs with
  | zero => contradiction
  | succ width ih =>
    simp only [Json.separated] at h
    split at h
    · contradiction
    rename_i a rest₁ hread
    obtain ⟨ha, shorter⟩ := hitem bs a rest₁ hsize hread
    have shorter' := length_skipBlank_le rest₁
    split at h
    · contradiction
    rename_i c rest₂ hskip
    rw [hskip, List.length_cons] at shorter'
    split at h
    · obtain ⟨items, hl, hall, fewer⟩ := ih (by omega) h
      refine ⟨a :: items, by simpa using hl, List.forall_mem_cons.2 ⟨ha, hall⟩, ?_⟩
      rw [rowLength] at fewer
      rw [rowLength_cons]
      omega
    split at h
    · simp only [Option.some.injEq, Prod.mk.injEq] at h
      obtain ⟨rfl, rfl⟩ := h
      refine ⟨[a], by simp, by simpa using ha, ?_⟩
      simp only [rowLength_cons, List.map_nil, List.sum_nil]
      omega
    · contradiction

/-- Every item is followed by a byte, and if there is no item there is still a close. -/
theorem Finds.sequence (hitem : Finds P least size item) {width : Nat} {items : List α}
    {bs rest : Bytes} (hsize : bs.length ≤ size)
    (h : sequence item close width bs = some (items, rest)) :
    (∀ a ∈ items, P a) ∧ rowLength least items + rest.length ≤ bs.length := by
  simp only [Json.sequence] at h
  split at h
  · rename_i rest' hmark
    simp only [Option.some.injEq, Prod.mk.injEq] at h
    obtain ⟨rfl, rfl⟩ := h
    have shorter := length_of_mark hmark
    exact ⟨by simp, by simp only [rowLength, List.map_nil, List.sum_nil]; omega⟩
  · obtain ⟨items', rfl, hall, fewer⟩ := hitem.separated hsize h
    exact ⟨hall, fewer⟩

end Measured

/-! ### Documents, measured -/

mutual

def leastLength : Json → Nat
  | .null => 4
  | .bool true => 4
  | .bool false => 5
  | .number n => n.leastLength
  | .string s => (Quoted.write s).length
  | .array items => 1 + max 1 (leastLengthOfItems items)
  | .object members => 1 + max 1 (leastLengthOfMembers members)

/-- The items with a comma or the close behind each of them. -/
def leastLengthOfItems : List Json → Nat
  | [] => 0
  | j :: rest => leastLength j + 1 + leastLengthOfItems rest

def leastLengthOfMembers : List (String × Json) → Nat
  | [] => 0
  | (k, j) :: rest => (Quoted.write k).length + 1 + leastLength j + 1 + leastLengthOfMembers rest

end

/-- The fewest bytes that can spell a key, a colon and a document. -/
def leastLengthOfMember (m : String × Json) : Nat :=
  (Quoted.write m.1).length + 1 + leastLength m.2

theorem leastLength_array (items : List Json) :
    leastLength (.array items) = 1 + rowLength leastLength items := by
  have total : leastLengthOfItems items = (items.map fun j => leastLength j + 1).sum := by
    induction items with
    | nil => rfl
    | cons j rest ih => rw [leastLengthOfItems, ih, List.map_cons, List.sum_cons]
  rw [leastLength, total, rowLength]

theorem leastLength_object (members : List (String × Json)) :
    leastLength (.object members) = 1 + rowLength leastLengthOfMember members := by
  have total : leastLengthOfMembers members =
      (members.map fun m => leastLengthOfMember m + 1).sum := by
    induction members with
    | nil => rfl
    | cons m rest ih =>
      rw [leastLengthOfMembers, ih, List.map_cons, List.sum_cons, leastLengthOfMember]
  rw [leastLength, total, rowLength]

theorem leastLength_ofMembers_le (members : List (String × Json)) :
    leastLength (ofMembers members) ≤ 1 + rowLength leastLengthOfMember members := by
  have kept := KeyOrder.sum_lastOfEach_le (fun m => leastLengthOfMember m + 1) members
  rw [ofMembers, leastLength_object, rowLength, rowLength]
  omega

end Json
end SeededTraits
