import Mathlib.Algebra.GroupWithZero.Nat
import Mathlib.Data.List.Nodup
import Mathlib.Data.List.Sort
import Mathlib.Tactic.SplitIfs
import SeededTraits.KeyOrder

/-! Putting entries in key order changes nothing where they are in key order, and never invents
any. -/
namespace SeededTraits
namespace KeyOrder

theorem ne_of_lt {a b : String} (h : lt a b = true) : a ≠ b := by
  rintro rfl
  simp [lt_irrefl] at h

theorem lt_asymm {a b : String} (h : lt a b = true) : lt b a = false := by
  cases hback : lt b a with
  | false => rfl
  | true => simpa [lt_irrefl] using lt_trans h hback

theorem insertNew_of_lt {α : Type} {key : String} {value : α} {entries : List (String × α)}
    (h : ∀ e ∈ entries, lt key e.1 = true) :
    insertNew key value entries = (key, value) :: entries := by
  cases entries with
  | nil => rfl
  | cons e rest =>
    have hlt := h e (by simp)
    simp [insertNew, ne_of_lt hlt, hlt]

/-- A new key stands between what is below it and what is not. -/
theorem insertNew_eq_append {α : Type} {key : String} {entries : List (String × α)}
    (h : ∀ e ∈ entries, e.1 ≠ key) (value : α) :
    ∃ below above, entries = below ++ above ∧
      insertNew key value entries = below ++ (key, value) :: above := by
  induction entries with
  | nil => exact ⟨[], [], rfl, rfl⟩
  | cons e rest ih =>
    obtain ⟨hne, hrest⟩ := List.forall_mem_cons.1 h
    by_cases hlt : lt key e.1 = true
    · exact ⟨[], e :: rest, rfl, by simp [insertNew, hne.symm, hlt]⟩
    · obtain ⟨below, above, rfl, hinsert⟩ := ih hrest
      exact ⟨e :: below, above, rfl, by simp [insertNew, hne.symm, hlt, hinsert]⟩

theorem insertNew_perm {α : Type} {key : String} {entries : List (String × α)}
    (h : ∀ e ∈ entries, e.1 ≠ key) (value : α) :
    (insertNew key value entries).Perm ((key, value) :: entries) := by
  obtain ⟨below, above, rfl, hinsert⟩ := insertNew_eq_append h value
  rw [hinsert]
  exact List.perm_middle

/-! ### Sorting -/

section Sorting

variable {α : Type}

/-- The first entry does not belong behind the second one. -/
def NotBehind (a b : String × α) : Prop := lt b.1 a.1 = false

instance : DecidableRel (NotBehind (α := α)) := fun a b =>
  inferInstanceAs (Decidable (lt b.1 a.1 = false))

instance : Std.Total (NotBehind (α := α)) where
  total a b := by
    cases hab : lt a.1 b.1 with
    | false => exact .inr hab
    | true => exact .inl (lt_asymm hab)

instance : IsTrans (String × α) NotBehind where
  trans a b c hab hbc := by
    by_cases heq : b.1 = c.1
    · rwa [NotBehind, ← heq]
    · have above : lt b.1 c.1 = true := lt_of_not_lt (Ne.symm heq) hbc
      cases hca : lt c.1 a.1 with
      | false => exact hca
      | true =>
        have below : lt b.1 a.1 = true := lt_trans above hca
        rw [hab] at below
        contradiction

theorem sort_eq_insertionSort (entries : List (String × α)) :
    sort entries = entries.insertionSort NotBehind := by
  have place_eq (e : String × α) (l : List (String × α)) :
      place e l = l.orderedInsert NotBehind e := by
    induction l with
    | nil => rfl
    | cons f rest ih =>
      cases hlt : lt f.1 e.1 <;> simp [place, NotBehind, hlt, ih]
  rw [sort, List.insertionSort]
  exact congrArg (fun step => entries.foldr step []) (funext₂ place_eq)

theorem sort_perm (entries : List (String × α)) : (sort entries).Perm entries := by
  rw [sort_eq_insertionSort]
  exact List.perm_insertionSort _ entries

/-- Sorting is stable, but where no key is repeated there is only one order. -/
theorem ascending_sort {entries : List (String × α)} (h : (entries.map Prod.fst).Nodup) :
    Ascending (sort entries) := by
  have distinct : (sort entries).Pairwise fun a b => a.1 ≠ b.1 :=
    List.pairwise_map.1 (((sort_perm entries).map Prod.fst).nodup_iff.2 h)
  have sorted : (sort entries).Pairwise NotBehind := by
    rw [sort_eq_insertionSort]
    exact List.pairwise_insertionSort NotBehind entries
  exact (distinct.and sorted).imp fun ⟨hne, hlt⟩ => lt_of_not_lt hne.symm hlt

end Sorting

/-! ### Looking keys up -/

theorem lookup_eq_none_iff_notMem {α : Type} {key : String} {entries : List (String × α)} :
    entries.lookup key = none ↔ key ∉ entries.map Prod.fst := by
  simp only [List.lookup_eq_none_iff, List.mem_map, not_exists, not_and, bne_iff_ne]
  exact forall₂_congr fun e _ => by simp [eq_comm]

theorem lookup_cons_ite {α : Type} (key k : String) (v : α) (rest : List (String × α)) :
    ((k, v) :: rest).lookup key = if key = k then some v else rest.lookup key := by
  by_cases hkey : key = k
  · simp [hkey]
  · have hbeq : (key == k) = false := by simpa using hkey
    simp [List.lookup_cons, hbeq, hkey]

theorem lookup_eq_some_iff_of_nodup {α : Type} {key : String} {value : α}
    {entries : List (String × α)} (h : (entries.map Prod.fst).Nodup) :
    entries.lookup key = some value ↔ (key, value) ∈ entries := by
  induction entries with
  | nil => simp
  | cons e rest ih =>
    obtain ⟨k, v⟩ := e
    obtain ⟨hhead, hrest⟩ := List.nodup_cons.1 h
    by_cases hkey : key = k
    · subst hkey
      have fresh : (key, value) ∉ rest := fun hmem => hhead (List.mem_map.2 ⟨_, hmem, rfl⟩)
      simp [fresh, eq_comm]
    · simp [lookup_cons_ite, hkey, ih hrest]

theorem Ascending.nodup_keys {α : Type} {entries : List (String × α)} (h : Ascending entries) :
    (entries.map Prod.fst).Nodup :=
  List.pairwise_map.2 (h.imp ne_of_lt)

theorem lookup_eq_some_iff {α : Type} {key : String} {value : α} {entries : List (String × α)}
    (h : Ascending entries) : entries.lookup key = some value ↔ (key, value) ∈ entries :=
  lookup_eq_some_iff_of_nodup h.nodup_keys

theorem perm_of_lookup {α : Type} {a b : List (String × α)} (ha : (a.map Prod.fst).Nodup)
    (hb : (b.map Prod.fst).Nodup) (h : ∀ k, a.lookup k = b.lookup k) : a.Perm b := by
  apply (List.perm_ext_iff_of_nodup (ha.of_map _) (hb.of_map _)).2
  rintro ⟨k, v⟩
  rw [← lookup_eq_some_iff_of_nodup ha, ← lookup_eq_some_iff_of_nodup hb, h]

theorem eq_of_perm {α : Type} {a b : List (String × α)} (ha : Ascending a) (hb : Ascending b)
    (h : a.Perm b) : a = b := by
  have antisymmetric : ∀ e f : String × α, e ∈ a → f ∈ b → lt e.1 f.1 = true →
      lt f.1 e.1 = true → e = f := by
    intro e f _ _ hef hfe
    simp [lt_asymm hef] at hfe
  exact h.eq_of_pairwise antisymmetric ha hb

/-- Entries in key order are told apart by what is found under some key. -/
theorem eq_of_lookup {α : Type} {a b : List (String × α)} (ha : Ascending a) (hb : Ascending b)
    (h : ∀ k, a.lookup k = b.lookup k) : a = b :=
  eq_of_perm ha hb (perm_of_lookup ha.nodup_keys hb.nodup_keys h)

theorem lookup_map_snd {α β : Type} (f : α → β) (entries : List (String × α)) (key : String) :
    (entries.map fun e => (e.1, f e.2)).lookup key = (entries.lookup key).map f := by
  induction entries with
  | nil => rfl
  | cons e rest ih =>
    rw [List.map_cons, lookup_cons_ite, lookup_cons_ite, ih]
    split <;> rfl

theorem lookup_lastOfEach {α : Type} (entries : List (String × α)) (key : String) :
    (lastOfEach entries).lookup key = entries.reverse.lookup key := by
  induction entries with
  | nil => rfl
  | cons e rest ih =>
    obtain ⟨k, v⟩ := e
    have below := ascending_lastOfEach rest
    change (insertNew k v (lastOfEach rest)).lookup key = _
    rw [List.reverse_cons, List.lookup_append]
    by_cases hkey : key = k
    · subst hkey
      rw [lookup_insertNew_self below, ih]
      cases rest.reverse.lookup key <;> simp
    · rw [lookup_insertNew_of_ne hkey, ih]
      simp [lookup_cons_ite, hkey]

theorem lastOfEach_of_ascending {α : Type} {entries : List (String × α)} (h : Ascending entries) :
    lastOfEach entries = entries := by
  induction entries with
  | nil => rfl
  | cons e rest ih =>
    have hrest := List.pairwise_cons.1 h
    have tail : lastOfEach rest = rest := ih hrest.2
    change insertNew e.1 e.2 (lastOfEach rest) = e :: rest
    rw [tail, insertNew_of_lt hrest.1]

theorem mem_of_mem_lastOfEach {α : Type} {entries : List (String × α)} {e : String × α}
    (h : e ∈ lastOfEach entries) : e ∈ entries := by
  induction entries with
  | nil => exact h
  | cons head rest ih =>
    rcases mem_insertNew h with rfl | h
    · simp
    · exact List.mem_cons_of_mem _ (ih h)

/-- Values are dropped, and keys never. -/
theorem key_mem_lastOfEach {α : Type} {entries : List (String × α)} {e : String × α}
    (h : e ∈ entries) : e.1 ∈ (lastOfEach entries).map Prod.fst := by
  by_contra absent
  have none := lookup_eq_none_iff_notMem.2 absent
  rw [lookup_lastOfEach, lookup_eq_none_iff_notMem] at none
  exact none (List.mem_map.2 ⟨e, List.mem_reverse.2 h, rfl⟩)

/-- Where no key is repeated, there is nothing to drop. -/
theorem lastOfEach_perm {α : Type} {entries : List (String × α)}
    (h : (entries.map Prod.fst).Nodup) : (lastOfEach entries).Perm entries := by
  induction entries with
  | nil => exact .refl _
  | cons head rest ih =>
    obtain ⟨fresh, hrest⟩ := List.nodup_cons.1 h
    have other : ∀ e ∈ lastOfEach rest, e.1 ≠ head.1 := by
      rintro e he heq
      exact fresh (List.mem_map.2 ⟨e, mem_of_mem_lastOfEach he, heq⟩)
    exact (insertNew_perm other head.2).trans ((ih hrest).cons head)

theorem insertNew_map_snd {α β : Type} (f : α → β) (key : String) (value : α)
    (entries : List (String × α)) :
    insertNew key (f value) (entries.map fun e => (e.1, f e.2)) =
      (insertNew key value entries).map fun e => (e.1, f e.2) := by
  induction entries with
  | nil => rfl
  | cons head rest ih =>
    simp only [List.map_cons, insertNew, ih]
    split_ifs <;> rfl

theorem lastOfEach_map_snd {α β : Type} (f : α → β) (entries : List (String × α)) :
    lastOfEach (entries.map fun e => (e.1, f e.2)) =
      (lastOfEach entries).map fun e => (e.1, f e.2) := by
  induction entries with
  | nil => rfl
  | cons head rest ih =>
    rw [List.map_cons]
    change insertNew head.1 (f head.2) (lastOfEach (rest.map fun e => (e.1, f e.2))) = _
    rw [ih]
    exact insertNew_map_snd f head.1 head.2 (lastOfEach rest)

section Weight

variable {α : Type} (weight : String × α → Nat)

theorem sum_insertNew_le (key : String) (value : α) (entries : List (String × α)) :
    ((insertNew key value entries).map weight).sum ≤
      weight (key, value) + (entries.map weight).sum := by
  induction entries with
  | nil => simp [insertNew]
  | cons e rest ih =>
    obtain ⟨k, v⟩ := e
    by_cases hkey : key = k
    · simp [insertNew, hkey]
    by_cases hlt : lt key k = true
    · simp [insertNew, hkey, hlt]
    · simp only [insertNew, hkey, hlt, if_false, List.map_cons, List.sum_cons, Bool.false_eq_true]
      omega

/-- Whatever the entries weigh, putting them in order drops some of them at most. -/
theorem sum_lastOfEach_le (entries : List (String × α)) :
    ((lastOfEach entries).map weight).sum ≤ (entries.map weight).sum := by
  induction entries with
  | nil => exact Nat.le_refl _
  | cons e rest ih =>
    rw [List.map_cons, List.sum_cons]
    exact Nat.le_trans (sum_insertNew_le weight e.1 e.2 (lastOfEach rest))
      (Nat.add_le_add_left ih _)

end Weight

theorem length_lastOfEach_le {α : Type} (entries : List (String × α)) :
    (lastOfEach entries).length ≤ entries.length := by
  simpa using sum_lastOfEach_le (fun _ => 1) entries

end KeyOrder
end SeededTraits
