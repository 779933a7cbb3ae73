import SeededTraits.Proofs.Json.Sequence

/-! What a text can say of a document. A document that a reader finds is of a certain form; whether
it is found again in its own text is a matter of how deep it nests and of where the number key
stands in it, and of nothing else. -/
namespace SeededTraits
namespace Json

/-- What a reader finds in a text of `size` bytes: well-formed numbers, objects in key order, no
text and no list longer than the whole, and at most `depth` levels of arrays and objects. -/
inductive Readable (size : Nat) : (depth : Nat) → Json → Prop
  | null {depth : Nat} : Readable size depth .null
  | bool {depth : Nat} (b : Bool) : Readable size depth (.bool b)
  | number {depth : Nat} {n : Number} (form : n.WellFormed) : Readable size depth (.number n)
  | string {depth : Nat} {s : String} (fits : (Bytes.ofText s).length ≤ size) :
    Readable size depth (.string s)
  | array {depth : Nat} {items : List Json} (count : items.length ≤ size)
      (inner : ∀ j ∈ items, Readable size depth j) : Readable size (depth + 1) (.array items)
  /-- The number key is in an object only if some other key was before it. -/
  | object {depth : Nat} {members : List (String × Json)} (count : members.length ≤ size)
      (ascending : KeyOrder.Ascending members)
      (others : ∀ j, members ≠ [(numberKey, j)])
      (keys : ∀ m ∈ members, (Bytes.ofText m.1).length ≤ size)
      (inner : ∀ m ∈ members, Readable size depth m.2) :
    Readable size (depth + 1) (.object members)

variable {size size' depth depth' : Nat} {j : Json}

/-! ### Levels of nesting -/

mutual

def nesting : Json → Nat
  | .null => 0
  | .bool _ => 0
  | .number _ => 0
  | .string _ => 0
  | .array items => nestingOfItems items + 1
  | .object members => nestingOfMembers members + 1

def nestingOfItems : List Json → Nat
  | [] => 0
  | j :: rest => max (nesting j) (nestingOfItems rest)

def nestingOfMembers : List (String × Json) → Nat
  | [] => 0
  | (_, j) :: rest => max (nesting j) (nestingOfMembers rest)

end

theorem nestingOfItems_le_iff {items : List Json} {n : Nat} :
    nestingOfItems items ≤ n ↔ ∀ j ∈ items, nesting j ≤ n := by
  induction items with
  | nil => simp [nestingOfItems]
  | cons j rest ih => simp [nestingOfItems, ih]

theorem nestingOfMembers_le_iff {members : List (String × Json)} {n : Nat} :
    nestingOfMembers members ≤ n ↔ ∀ m ∈ members, nesting m.2 ≤ n := by
  induction members with
  | nil => simp [nestingOfMembers]
  | cons m rest ih =>
    obtain ⟨k, j⟩ := m
    simp [nestingOfMembers, ih]

theorem Readable.nesting_le (h : Readable size depth j) : nesting j ≤ depth := by
  induction h with
  | null | bool | number | string => simp [nesting]
  | array _ _ ih =>
    rw [nesting]
    exact Nat.succ_le_succ (nestingOfItems_le_iff.2 ih)
  | object _ _ _ _ _ ih =>
    rw [nesting]
    exact Nat.succ_le_succ (nestingOfMembers_le_iff.2 ih)

theorem Readable.of_size_le (h : Readable size depth j) (hsize : size ≤ size') :
    Readable size' depth j := by
  induction h with
  | null => exact .null
  | bool b => exact .bool b
  | number form => exact .number form
  | string fits => exact .string (Nat.le_trans fits hsize)
  | array count _ ih => exact .array (Nat.le_trans count hsize) ih
  | object count ascending others keys _ ih =>
    exact .object (Nat.le_trans count hsize) ascending others
      (fun m hm => Nat.le_trans (keys m hm) hsize) ih

/-! ### The number key -/

section NumberKey

variable {members : List (String × Json)}

/-- The first key is another one than the number key. -/
def opensPlain {α : Type} (members : List (String × α)) : Bool :=
  members.head?.all fun m => m.1 ≠ numberKey

mutual

/-- No object has the number key in front of its other keys. -/
def isPlain : Json → Bool
  | .null => true
  | .bool _ => true
  | .number _ => true
  | .string _ => true
  | .array items => areItemsPlain items
  | .object members => opensPlain members && areMembersPlain members

def areItemsPlain : List Json → Bool
  | [] => true
  | j :: rest => isPlain j && areItemsPlain rest

def areMembersPlain : List (String × Json) → Bool
  | [] => true
  | (_, j) :: rest => isPlain j && areMembersPlain rest

end

theorem areItemsPlain_eq_all (items : List Json) : areItemsPlain items = items.all isPlain := by
  induction items with
  | nil => rfl
  | cons j rest ih => rw [areItemsPlain, ih, List.all_cons]

theorem areMembersPlain_eq_all (members : List (String × Json)) :
    areMembersPlain members = members.all fun m => isPlain m.2 := by
  induction members with
  | nil => rfl
  | cons m rest ih => rw [areMembersPlain, ih, List.all_cons]

@[simp] theorem isPlain_array (items : List Json) : isPlain (.array items) = items.all isPlain := by
  rw [isPlain, areItemsPlain_eq_all]

@[simp] theorem isPlain_object (members : List (String × Json)) :
    isPlain (.object members) = (opensPlain members && members.all fun m => isPlain m.2) := by
  rw [isPlain, areMembersPlain_eq_all]

theorem opensPlain_map {α β : Type} (f : α → β) (members : List (String × α)) :
    opensPlain (members.map fun m => (m.1, f m.2)) = opensPlain members := by
  simp [opensPlain, Option.all_map]

theorem opensPlain_of_forall_ne {α : Type} {members : List (String × α)}
    (h : ∀ m ∈ members, m.1 ≠ numberKey) : opensPlain members = true := by
  cases members with
  | nil => rfl
  | cons m rest => simpa [opensPlain] using h m (by simp)

theorem ofMembers?_of_opensPlain (h : opensPlain members = true) :
    ofMembers? members = some (ofMembers members) := by
  cases members with
  | nil => rfl
  | cons m rest =>
    have hne : m.1 ≠ numberKey := by simpa [opensPlain] using h
    simp [ofMembers?, hne]

/-- With the number key in front there is room for no other key. -/
theorem ofMembers?_of_not_opensPlain (h : opensPlain members = false)
    (others : ∀ j, members ≠ [(numberKey, j)]) : ofMembers? members = none := by
  cases members with
  | nil => contradiction
  | cons m rest =>
    obtain ⟨k, j⟩ := m
    obtain rfl : k = numberKey := by simpa [opensPlain] using h
    cases rest with
    | nil => exact absurd rfl (others j)
    | cons m' rest => cases j <;> simp [ofMembers?]

theorem Number.ofText?_eq_some {s : String} {n : Number} (h : Number.ofText? s = some n) :
    Number.read (Bytes.ofText s) = some (n, []) := by
  simp only [Number.ofText?] at h
  split at h
  · rename_i hread
    rw [hread, Option.some.inj h]
  · contradiction

/-- Members are an object under their first key, or the one of them is a number. -/
theorem ofMembers?_eq_some (h : ofMembers? members = some j) :
    (opensPlain members = true ∧ j = ofMembers members) ∨
      ∃ s n, members = [(numberKey, .string s)] ∧ Number.ofText? s = some n ∧ j = .number n := by
  cases hplain : opensPlain members with
  | true =>
    rw [ofMembers?_of_opensPlain hplain] at h
    exact .inl ⟨rfl, (Option.some.inj h).symm⟩
  | false =>
    right
    cases members with
    | nil => contradiction
    | cons m rest =>
      obtain ⟨k, v⟩ := m
      obtain rfl : k = numberKey := by simpa [opensPlain] using hplain
      simp only [ofMembers?, if_true] at h
      split at h
      · obtain ⟨n, hn, rfl⟩ := Option.map_eq_some_iff.1 h
        exact ⟨_, n, rfl, hn, rfl⟩
      · contradiction

/-- Put in order, members keep a key that is not the number key. -/
theorem lastOfEach_ne_number (h : opensPlain members = true) (j : Json) :
    KeyOrder.lastOfEach members ≠ [(numberKey, j)] := by
  intro heq
  cases members with
  | nil => contradiction
  | cons m rest =>
    have hne : m.1 ≠ numberKey := by simpa [opensPlain] using h
    have kept := KeyOrder.key_mem_lastOfEach (List.mem_cons_self (a := m) (l := rest))
    rw [heq] at kept
    exact hne (by simpa using kept)

end NumberKey

/-! ### What is legible -/

/-- What a reader of that depth makes out in the text that is written of the document. -/
def legible (depth : Nat) (j : Json) : Bool := j.isPlain && decide (nesting j ≤ depth)

theorem legible_eq_true : legible depth j = true ↔ j.isPlain = true ∧ nesting j ≤ depth := by
  simp [legible]

@[simp] theorem legible_zero_array (items : List Json) : legible 0 (.array items) = false := by
  simp [legible, nesting]

@[simp] theorem legible_zero_object (members : List (String × Json)) :
    legible 0 (.object members) = false := by
  simp [legible, nesting]

@[simp] theorem legible_succ_array (depth : Nat) (items : List Json) :
    legible (depth + 1) (.array items) = items.all (legible depth) := by
  rw [Bool.eq_iff_iff]
  simp only [legible_eq_true, isPlain_array, List.all_eq_true, nesting, Nat.add_le_add_iff_right,
    nestingOfItems_le_iff]
  exact forall₂_and.symm

@[simp] theorem legible_succ_object (depth : Nat) (members : List (String × Json)) :
    legible (depth + 1) (.object members) =
      (opensPlain members && members.all fun m => legible depth m.2) := by
  rw [Bool.eq_iff_iff]
  simp only [legible_eq_true, isPlain_object, Bool.and_eq_true, List.all_eq_true, nesting,
    Nat.add_le_add_iff_right, nestingOfMembers_le_iff, and_assoc]
  exact and_congr_right fun _ => forall₂_and.symm

end Json
end SeededTraits
