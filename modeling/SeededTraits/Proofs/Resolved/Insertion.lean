import SeededTraits.Proofs.KeyOrder
import SeededTraits.Resolved

/-! Outputs as maps: what is found under a key after an insertion, their fields, and runs of
insertions. The first attribute under each key stays, and nothing else of a run can be told from the
output that it leaves. -/
namespace SeededTraits

namespace AttributeMap

variable {m m' : AttributeMap} {key : String} {value : UInt32}

theorem ext (h : m.entries = m'.entries) : m = m' := by
  cases m
  cases m'
  cases h
  rfl

theorem get?_eq_none_of_insert? (h : m.insert? key value = some m') : m.get? key = none := by
  cases htaken : m.get? key with
  | none => rfl
  | some n =>
    have refused : m.insert? key value = none := insert?_eq_none_iff.2 (.inr (by simp [htaken]))
    rw [h] at refused
    contradiction

end AttributeMap

namespace Resolved

@[simp] theorem get?_idKey (s : Resolved) : s.get? idKey = none := by
  rw [get?, AttributeMap.get?, List.lookup_eq_none_iff]
  intro e he
  simpa using (s.attributes.id_free e he).symm

/-- The first value under a key stays. -/
theorem get?_insert {k : String} (hk : k ≠ idKey) (s : Resolved) (key : String) (value : UInt32) :
    (s.insert key value).get? k = (s.get? k).or (if k = key then some value else none) := by
  simp only [insert, insert?]
  cases hinsert : s.attributes.insert? key value with
  | none =>
    rcases AttributeMap.insert?_eq_none_iff.1 hinsert with rfl | taken
    · simp [hk]
    · by_cases hkey : k = key
      · obtain ⟨n, hn⟩ := Option.isSome_iff_exists.1 taken
        simp [get?, hkey, hn]
      · simp [hkey]
  | some attributes =>
    have entry := AttributeMap.get?_of_insert? hinsert k
    have free := AttributeMap.get?_eq_none_of_insert? hinsert
    by_cases hkey : k = key
    · subst hkey
      simp [get?, entry, free]
    · simp [get?, entry, hkey]

theorem ext_get? {s t : Resolved} (hid : s.id = t.id) (h : ∀ k, s.get? k = t.get? k) : s = t := by
  have entries : s.attributes.entries = t.attributes.entries :=
    KeyOrder.eq_of_lookup s.attributes.ascending t.attributes.ascending h
  have attributes := AttributeMap.ext entries
  cases s
  cases t
  cases hid
  cases attributes
  rfl

end Resolved

/-! ### Fields -/

theorem AttributeMap.entries_of_insert? {m m' : AttributeMap} {key : String} {value : UInt32}
    (h : m.insert? key value = some m') :
    m'.entries = KeyOrder.insertNew key value m.entries := by
  unfold insert? at h
  split at h
  · contradiction
  split at h
  · contradiction
  rw [← Option.some.inj h]

namespace Resolved

variable {s t : Resolved} {k : String}

theorem fields_perm (s : Resolved) : s.fields.Perm
    ((idKey, .id s.id) :: s.attributes.entries.map fun e => (e.1, .value e.2)) :=
  (KeyOrder.sort_perm _).trans (List.perm_append_singleton _ _)

/-- The key of the identifier comes to stand among keys that begin with it or that it begins with
just as among others, being none of them. -/
theorem ascending_fields (s : Resolved) : KeyOrder.Ascending s.fields := by
  have keys : s.attributes.entries.map ((fun e => e.1) ∘ fun e => (e.1, OutputField.value e.2)) =
      s.attributes.entries.map Prod.fst := rfl
  refine KeyOrder.ascending_sort ?_
  rw [List.map_append, List.map_map, List.map_singleton, keys, List.nodup_append]
  refine ⟨s.attributes.ascending.nodup_keys, List.nodup_singleton _, fun k hk i hi => ?_⟩
  obtain ⟨e, he, rfl⟩ := List.mem_map.1 hk
  obtain rfl := List.mem_singleton.1 hi
  exact s.attributes.id_free e he

theorem length_fields (s : Resolved) : s.fields.length = s.fieldCount := by
  rw [s.fields_perm.length_eq, List.length_cons, List.length_map, fieldCount]

theorem mem_entries {n : UInt32} : (k, n) ∈ s.attributes.entries ↔ s.get? k = some n :=
  (KeyOrder.lookup_eq_some_iff s.attributes.ascending).symm

theorem mem_fields {f : OutputField} :
    (k, f) ∈ s.fields ↔ (k = idKey ∧ f = .id s.id) ∨ ∃ n, s.get? k = some n ∧ f = .value n := by
  simp only [s.fields_perm.mem_iff, List.mem_cons, List.mem_map, Prod.mk.injEq, ← mem_entries]
  refine or_congr_right ⟨?_, ?_⟩
  · rintro ⟨a, ha, rfl, rfl⟩
    exact ⟨a.2, ha, rfl⟩
  · rintro ⟨n, hn, rfl⟩
    exact ⟨(k, n), hn, rfl, rfl⟩

theorem mem_fields_value {n : UInt32} : (k, .value n) ∈ s.fields ↔ s.get? k = some n := by
  simp [mem_fields]

theorem eq_of_fields_perm (h : s.fields.Perm t.fields) : s = t := by
  have same := KeyOrder.eq_of_perm s.ascending_fields t.ascending_fields h
  have id : (idKey, OutputField.id s.id) ∈ t.fields := by
    rw [← same]
    exact mem_fields.2 (.inl ⟨rfl, rfl⟩)
  refine ext_get? (by simpa [mem_fields] using id) fun k => Option.ext fun n => ?_
  rw [← mem_fields_value, ← mem_fields_value, same]

end Resolved

/-! ### Runs of insertions -/

namespace Resolved

variable {s : Resolved} {key k : String} {value : UInt32}

def accepts (s : Resolved) (a : String × UInt32) : Bool :=
  (s.insert? a.1 a.2).isSome

def answers (s : Resolved) : List (String × UInt32) → List Bool
  | [] => []
  | a :: rest => s.accepts a :: (s.insert a.1 a.2).answers rest

theorem insertAll_cons (s : Resolved) (a : String × UInt32) (rest : List (String × UInt32)) :
    s.insertAll (a :: rest) = (s.insert a.1 a.2).insertAll rest := rfl

/-! ### One insertion -/

theorem accepts_iff {a : String × UInt32} :
    s.accepts a = true ↔ a.1 ≠ idKey ∧ s.get? a.1 = none := by
  have refused := @AttributeMap.insert?_eq_none_iff s.attributes a.1 a.2
  rw [accepts, insert?, Option.isSome_map, Option.isSome_iff_ne_none, ne_eq, refused, not_or,
    Option.not_isSome_iff_eq_none]
  rfl

theorem fieldCount_insert (s : Resolved) (a : String × UInt32) :
    (s.insert a.1 a.2).fieldCount = s.fieldCount + (s.accepts a).toNat := by
  unfold accepts insert insert?
  cases hinsert : s.attributes.insert? a.1 a.2 with
  | none => rfl
  | some grown =>
    have absent := AttributeMap.get?_eq_none_of_insert? hinsert
    have free : ∀ e ∈ s.attributes.entries, e.1 ≠ a.1 := fun e he heq =>
      KeyOrder.lookup_eq_none_iff_notMem.1 absent (List.mem_map.2 ⟨e, he, heq⟩)
    have one_longer := (KeyOrder.insertNew_perm free a.2).length_eq
    rw [← AttributeMap.entries_of_insert? hinsert, List.length_cons] at one_longer
    exact congrArg (· + 1) one_longer

/-! ### A run -/

theorem id_insertAll (s : Resolved) (calls : List (String × UInt32)) :
    (s.insertAll calls).id = s.id := by
  induction calls generalizing s with
  | nil => rfl
  | cons a rest ih => rw [insertAll_cons, ih, id_insert]

theorem get?_insertAll (hk : k ≠ idKey) (s : Resolved) (calls : List (String × UInt32)) :
    (s.insertAll calls).get? k = (s.get? k).or (calls.lookup k) := by
  induction calls generalizing s with
  | nil => simp [insertAll]
  | cons a rest ih =>
    rw [insertAll_cons, ih, get?_insert hk, Option.or_assoc, KeyOrder.lookup_cons_ite]
    by_cases hkey : k = a.1 <;> simp [hkey]

theorem fieldCount_insertAll (s : Resolved) (calls : List (String × UInt32)) :
    (s.insertAll calls).fieldCount = s.fieldCount + (s.answers calls).count true := by
  induction calls generalizing s with
  | nil => rfl
  | cons a rest ih =>
    rw [insertAll_cons, ih, fieldCount_insert, answers]
    cases s.accepts a with
    | false => rfl
    | true => rw [List.count_cons_self, Nat.add_assoc, Nat.add_comm _ 1, Bool.toNat_true]

theorem get?_insertAll_new (id : String) (calls : List (String × UInt32)) (k : String) :
    ((new id).insertAll calls).get? k =
      if k = idKey then none else calls.lookup k := by
  have none_yet : (new id).get? k = none := rfl
  by_cases hk : k = idKey
  · rw [if_pos hk, hk, get?_idKey]
  · rw [if_neg hk, get?_insertAll hk, none_yet, Option.none_or]

/-- An output is what is left of a run over its own attributes. -/
theorem insertAll_entries (s : Resolved) :
    (new s.id).insertAll s.attributes.entries = s := by
  refine ext_get? (id_insertAll _ _) fun k => ?_
  rw [get?_insertAll_new]
  by_cases hk : k = idKey
  · rw [if_pos hk, hk, get?_idKey]
  · rw [if_neg hk]
    rfl

/-- Runs that agree on the first attribute under each key leave the same output. -/
theorem insertAll_eq_of_lookup (id : String) {calls calls' : List (String × UInt32)}
    (h : ∀ k, k ≠ idKey → calls.lookup k = calls'.lookup k) :
    (new id).insertAll calls = (new id).insertAll calls' := by
  refine ext_get? ((id_insertAll _ _).trans (id_insertAll _ _).symm) fun k => ?_
  rw [get?_insertAll_new, get?_insertAll_new]
  by_cases hk : k = idKey
  · rw [if_pos hk, if_pos hk]
  · rw [if_neg hk, if_neg hk, h k hk]

/-- After any run the identifier is what it was; one more insertion adds its attribute if its key is
not the identifier's and has not been used; every key has its first value; the fields are the
identifier and the attributes that have been added, each once and in key order. Neither the output
nor its bytes tell more of the run than the first value under each key. -/
theorem insertAll_of_new (id : String) (calls : List (String × UInt32)) :
    let s : Resolved := (new id).insertAll calls
    s.id = id ∧
      (∀ key value, (s.insert? key value).isSome = true ↔ key ≠ idKey ∧ key ∉ calls.map Prod.fst) ∧
      (∀ k, s.get? k = if k = idKey then none else calls.lookup k) ∧
      s.fieldCount = 1 + ((new id).answers calls).count true ∧
      s.fields.length = s.fieldCount ∧ KeyOrder.Ascending s.fields ∧
      (∀ k f, (k, f) ∈ s.fields ↔
        (k = idKey ∧ f = .id id) ∨ ∃ n, s.get? k = some n ∧ f = .value n) ∧
      ∀ calls' : List (String × UInt32),
        (∀ k, k ≠ idKey → calls.lookup k = calls'.lookup k) →
          s = (new id).insertAll calls' ∧
            ∀ c, s.encode c = ((new id).insertAll calls').encode c := by
  intro s
  have hid : s.id = id := id_insertAll (new id) calls
  have hget : ∀ k, s.get? k = if k = idKey then none else calls.lookup k :=
    get?_insertAll_new id calls
  refine ⟨hid, fun key value => ?_, hget, ?_, s.length_fields, s.ascending_fields, fun k f => ?_,
    fun calls' h => ?_⟩
  · have answer := accepts_iff (s := s) (a := (key, value))
    rw [hget key] at answer
    refine answer.trans (and_congr_right fun hkey => ?_)
    rw [if_neg hkey, KeyOrder.lookup_eq_none_iff_notMem]
  · exact fieldCount_insertAll (new id) calls
  · rw [mem_fields, hid]
  · have same : s = (new id).insertAll calls' := insertAll_eq_of_lookup id h
    exact ⟨same, fun c => congrArg (encode · c) same⟩

theorem insertAll_of_new_reordered :
    let calls : List (String × UInt32) := [("b", 300), ("id", 1), ("a", 70000), ("b", 5)]
    let calls' : List (String × UInt32) := [("a", 70000), ("b", 300)]
    (new "u").answers calls = [true, false, true, false] ∧
      (∀ k, k ≠ idKey → calls.lookup k = calls'.lookup k) ∧
      (new "u").insertAll calls = (new "u").insertAll calls' ∧
      ∀ c, ((new "u").insertAll calls).encode c = ((new "u").insertAll calls').encode c := by
  intro calls calls'
  have first : ∀ k, k ≠ idKey → calls.lookup k = calls'.lookup k := by
    intro k hk
    have key : k ≠ "id" := hk
    simp only [calls, calls', KeyOrder.lookup_cons_ite, if_neg key]
    by_cases ha : k = "a"
    · simp [ha]
    by_cases hb : k = "b" <;> simp [ha, hb]
  obtain ⟨-, -, -, -, -, -, -, same⟩ := insertAll_of_new "u" calls
  exact ⟨by decide, first, same calls' first⟩

end Resolved

end SeededTraits
