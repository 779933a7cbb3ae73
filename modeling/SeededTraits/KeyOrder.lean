import SeededTraits.Bytes

/-! Text keys in the order of their UTF-8 bytes, and key-value lists kept in that order with each
key once. -/
namespace SeededTraits
namespace KeyOrder

def lt (a b : String) : Bool :=
  decide (Bytes.ofText a < Bytes.ofText b)

theorem lt_irrefl (a : String) : lt a a = false :=
  decide_eq_false (List.lt_irrefl _)

theorem lt_trans {a b c : String} (hab : lt a b = true) (hbc : lt b c = true) : lt a c = true :=
  decide_eq_true (List.lt_trans (of_decide_eq_true hab) (of_decide_eq_true hbc))

theorem lt_of_not_lt {a b : String} (hne : a ≠ b) (h : lt a b = false) : lt b a = true := by
  refine decide_eq_true (Decidable.byContradiction fun hback => hne (Bytes.ofText_injective ?_))
  exact List.le_antisymm (List.not_lt.1 hback) (List.not_lt.1 (of_decide_eq_false h))

/-- Strictly ascending keys, hence no key twice. -/
def Ascending {α : Type} (entries : List (String × α)) : Prop :=
  entries.Pairwise fun a b => lt a.1 b.1 = true

/-- Puts an entry in its place; a key that is there already keeps its value. -/
def insertNew {α : Type} (key : String) (value : α) : List (String × α) → List (String × α)
  | [] => [(key, value)]
  | (k, v) :: rest =>
    if key = k then (k, v) :: rest
    else if lt key k then (key, value) :: (k, v) :: rest
    else (k, v) :: insertNew key value rest

theorem mem_insertNew {α : Type} {key : String} {value : α} {entries : List (String × α)}
    {e : String × α} (h : e ∈ insertNew key value entries) : e = (key, value) ∨ e ∈ entries := by
  induction entries with
  | nil => simpa [insertNew] using h
  | cons head rest ih =>
    obtain ⟨k, v⟩ := head
    unfold insertNew at h
    split at h
    · exact .inr h
    split at h
    · simpa using h
    · rcases List.mem_cons.1 h with rfl | h
      · exact .inr (List.mem_cons_self ..)
      · rcases ih h with rfl | h
        · exact .inl rfl
        · exact .inr (List.mem_cons_of_mem _ h)

theorem Ascending.insertNew {α : Type} {entries : List (String × α)} (h : Ascending entries)
    (key : String) (value : α) : Ascending (insertNew key value entries) := by
  induction entries with
  | nil => simp [KeyOrder.insertNew, Ascending]
  | cons head rest ih =>
    obtain ⟨k, v⟩ := head
    have hrest := List.pairwise_cons.1 h
    unfold KeyOrder.insertNew
    split
    · exact h
    rename_i hne
    split
    · rename_i hlt
      refine List.pairwise_cons.2 ⟨fun e he => ?_, h⟩
      rcases List.mem_cons.1 he with rfl | he
      · exact hlt
      · exact lt_trans hlt (hrest.1 e he)
    · rename_i hlt
      refine List.pairwise_cons.2 ⟨fun e he => ?_, ih hrest.2⟩
      rcases mem_insertNew he with rfl | he
      · exact lt_of_not_lt hne (Bool.eq_false_iff.2 hlt)
      · exact hrest.1 e he

theorem lookup_insertNew_of_ne {α : Type} {key k : String} (h : k ≠ key) (value : α)
    (entries : List (String × α)) :
    (insertNew key value entries).lookup k = entries.lookup k := by
  have hne : (k == key) = false := by simpa using h
  induction entries with
  | nil => simp [insertNew, List.lookup_cons, hne]
  | cons head rest ih =>
    obtain ⟨k', v⟩ := head
    unfold insertNew
    split
    · rfl
    split
    · rw [List.lookup_cons, hne]
    · simp only [List.lookup_cons, ih]

theorem lookup_eq_none_of_lt {α : Type} {key : String} {entries : List (String × α)}
    (h : ∀ e ∈ entries, lt key e.1 = true) : entries.lookup key = none := by
  induction entries with
  | nil => rfl
  | cons head rest ih =>
    have hlt := h head (List.mem_cons_self ..)
    have hne : (key == head.1) = false := by
      apply beq_eq_false_iff_ne.2
      rintro he
      rw [he, lt_irrefl] at hlt
      contradiction
    rw [List.lookup_cons, hne]
    exact ih fun e he => h e (List.mem_cons_of_mem _ he)

theorem lookup_insertNew_self {α : Type} {entries : List (String × α)} (h : Ascending entries)
    (key : String) (value : α) :
    (insertNew key value entries).lookup key = some ((entries.lookup key).getD value) := by
  induction entries with
  | nil => simp [insertNew]
  | cons head rest ih =>
    obtain ⟨k, v⟩ := head
    have hrest := List.pairwise_cons.1 h
    unfold insertNew
    split
    · rename_i he
      simp [he]
    rename_i hne
    have hbeq : (key == k) = false := by simpa using hne
    split
    · rename_i hlt
      have hnone : rest.lookup key = none :=
        lookup_eq_none_of_lt fun e he => lt_trans hlt (hrest.1 e he)
      simp [List.lookup_cons, hbeq, hnone]
    · simp only [List.lookup_cons, hbeq]
      exact ih hrest.2

/-- Puts an entry before the first one whose key is not below its own. -/
def place {α : Type} (entry : String × α) : List (String × α) → List (String × α)
  | [] => [entry]
  | e :: rest => if lt e.1 entry.1 then e :: place entry rest else entry :: e :: rest

/-- The entries in key order, those under one key in the order in which they were. -/
def sort {α : Type} (entries : List (String × α)) : List (String × α) :=
  entries.foldr place []

/-- The entries in key order, a repeated key keeping its last value. -/
def lastOfEach {α : Type} (entries : List (String × α)) : List (String × α) :=
  entries.foldr (fun e sorted => insertNew e.1 e.2 sorted) []

theorem ascending_lastOfEach {α : Type} (entries : List (String × α)) :
    Ascending (lastOfEach entries) := by
  induction entries with
  | nil => exact List.Pairwise.nil
  | cons e entries ih => exact ih.insertNew e.1 e.2

end KeyOrder
end SeededTraits
