import Mathlib.Data.List.Perm.Basic
import SeededTraits.Proofs.Bytes
import SeededTraits.Proofs.Resolved.Insertion
import SeededTraits.Proofs.Value

/-! Which maps are outputs: those whose entries are the fields of one, in any order. -/
namespace SeededTraits
namespace Resolved

/-- The field that an entry is, whatever stands beside it. -/
def field? (entry : Value × Value) : Option (String × OutputField) :=
  match entry.1.text? with
  | none => none
  | some key =>
    if key = idKey then entry.2.text?.map fun s => (key, .id s)
    else (entry.2.plainInteger?.bind word32?).map fun n => (key, .value n)

variable {entry : Value × Value} {f : String × OutputField} {s t : Resolved}

theorem field?_ofInt (key : String) (i : Int) :
    field? (.text key, .ofInt i) =
      if key = idKey then none else (word32? i).map fun n => (key, .value n) := by
  have by_integer : field? (.text key, .ofInt i) =
      if key = idKey then (Value.ofInt i).text?.map fun s => (key, OutputField.id s)
      else ((Value.ofInt i).plainInteger?.bind word32?).map fun n => (key, .value n) := rfl
  rw [by_integer, Value.text?_ofInt, Value.word32?_ofInt, Option.map_none]

theorem fst_of_field? {key : String} {v : Value} (h : field? (.text key, v) = some f) :
    f.1 = key := by
  simp only [field?, Value.text?] at h
  split at h
  all_goals
    obtain ⟨_, -, rfl⟩ := Option.map_eq_some_iff.1 h
    rfl

theorem key_of_field? (h : field? entry = some f) : entry.1 = .text f.1 := by
  obtain ⟨key, v⟩ := entry
  cases hkey : key.text? with
  | none => simp [field?, hkey] at h
  | some name =>
    obtain rfl := Value.text?_eq_some_iff.1 hkey
    rw [fst_of_field? h]

/-- No key stands twice in what the fields of an output are read from. -/
theorem pairwise_keys {read : List (Option (String × OutputField))}
    (h : read.Perm (s.fields.map some)) :
    read.Pairwise fun a b => a.map Prod.fst ≠ b.map Prod.fst := by
  refine h.symm.pairwise ?_ fun hab => hab.symm
  refine List.pairwise_map.2 (s.ascending_fields.imp fun hlt => ?_)
  simpa using KeyOrder.ne_of_lt hlt

namespace Draft

variable {draft next : Draft}

def fields (draft : Draft) : List (String × OutputField) :=
  (draft.id.map fun s => (idKey, OutputField.id s)).toList ++
    draft.attributes.entries.map fun e => (e.1, .value e.2)

theorem add_eq_ok (h : draft.add entry = .ok next) :
    ∃ f, field? entry = some f ∧ next.fields.Perm (f :: draft.fields) := by
  obtain ⟨id, attributes⟩ := draft
  simp only [add] at h
  split at h
  · contradiction
  rename_i key hkey
  split at h
  · rename_i hid
    split at h
    · contradiction
    rename_i s hs
    cases id with
    | some _ => simp at h
    | none =>
      obtain rfl : (⟨some s, attributes⟩ : Draft) = next := by simpa using h
      exact ⟨(idKey, .id s), by simp [field?, hkey, hid, hs], .refl _⟩
  · rename_i hid
    split at h
    · contradiction
    rename_i i hi
    split at h
    · contradiction
    rename_i n hn
    split at h
    · contradiction
    rename_i grown hinsert
    obtain rfl := Except.ok.inj h
    have absent :=
      KeyOrder.lookup_eq_none_iff_notMem.1 (AttributeMap.get?_eq_none_of_insert? hinsert)
    have free : ∀ e ∈ attributes.entries, e.1 ≠ key :=
      fun e he heq => absent (List.mem_map.2 ⟨e, he, heq⟩)
    have grown_perm : grown.entries.Perm ((key, n) :: attributes.entries) := by
      rw [AttributeMap.entries_of_insert? hinsert]
      exact KeyOrder.insertNew_perm free n
    refine ⟨(key, .value n), by simp [field?, hkey, hid, hi, hn], ?_⟩
    exact ((grown_perm.map _).append_left _).trans List.perm_middle

theorem exists_add (hf : field? entry = some f) (fresh : f.1 ∉ draft.fields.map Prod.fst) :
    ∃ next, draft.add entry = .ok next := by
  obtain ⟨id, attributes⟩ := draft
  simp only [field?] at hf
  split at hf
  · contradiction
  rename_i key hkey
  split at hf
  · rename_i hid
    obtain ⟨s, hs, rfl⟩ := Option.map_eq_some_iff.1 hf
    have missing : id = none := by
      cases id with
      | none => rfl
      | some _ => simp [fields, hid] at fresh
    exact ⟨⟨some s, attributes⟩, by simp [add, hkey, hid, hs, missing]⟩
  · rename_i hid
    obtain ⟨n, hn, rfl⟩ := Option.map_eq_some_iff.1 hf
    obtain ⟨i, hi, hword⟩ := Option.bind_eq_some_iff.1 hn
    have absent : attributes.get? key = none := by
      apply KeyOrder.lookup_eq_none_iff_notMem.2
      simp only [fields, List.map_append, List.mem_append, not_or] at fresh
      simpa using fresh.2
    cases hinsert : attributes.insert? key n with
    | none =>
      rcases AttributeMap.insert?_eq_none_iff.1 hinsert with rfl | taken
      · contradiction
      · simp [absent] at taken
    | some grown => exact ⟨⟨id, grown⟩, by simp [add, hkey, hid, hi, hword, hinsert]⟩

theorem addAll_eq_ok {entries : List (Value × Value)} (h : draft.addAll entries = .ok next) :
    (next.fields.map some).Perm (entries.map field? ++ draft.fields.map some) := by
  induction entries generalizing draft with
  | nil =>
    obtain rfl := Except.ok.inj h
    exact .refl _
  | cons entry rest ih =>
    simp only [addAll] at h
    split at h
    · contradiction
    rename_i grown hadd
    obtain ⟨f, hf, added⟩ := add_eq_ok hadd
    have moved : (rest.map field? ++ grown.fields.map some).Perm
        (rest.map field? ++ some f :: draft.fields.map some) :=
      (added.map some).append_left _
    rw [List.map_cons, hf]
    exact (ih h).trans (moved.trans List.perm_middle)

/-- Entries that are, with the fields already there, all fields of one output are all taken in. -/
theorem exists_addAll {entries : List (Value × Value)}
    (h : (entries.map field? ++ draft.fields.map some).Perm (s.fields.map some)) :
    ∃ next, draft.addAll entries = .ok next := by
  induction entries generalizing draft with
  | nil => exact ⟨draft, rfl⟩
  | cons entry rest ih =>
    have head : field? entry ∈ s.fields.map some := h.subset (by simp)
    obtain ⟨f, -, hf⟩ := List.mem_map.1 head
    -- What is left and what has been taken in are together one output, its keys all different.
    have fresh : f.1 ∉ draft.fields.map Prod.fst := by
      intro taken
      obtain ⟨g, hg, heq⟩ := List.mem_map.1 taken
      have other := (List.pairwise_cons.1 (pairwise_keys h)).1 (some g) (by simp [hg])
      simp [← hf, heq] at other
    obtain ⟨grown, hadd⟩ := exists_add hf.symm fresh
    obtain ⟨f', hf', added⟩ := add_eq_ok hadd
    obtain rfl : f = f' := by simpa [← hf] using hf'
    have moved : (rest.map field? ++ grown.fields.map some).Perm
        ((entry :: rest).map field? ++ draft.fields.map some) := by
      rw [List.map_cons, ← hf]
      exact ((added.map some).append_left _).trans List.perm_middle
    obtain ⟨next, hnext⟩ := ih (moved.trans h)
    exact ⟨next, by simp only [addAll, hadd, hnext]⟩

/-- No attribute is lost where the output is made anew. -/
theorem finish_of_id (id : String) (attributes : AttributeMap) :
    finish ⟨some id, attributes⟩ = .ok ⟨id, attributes⟩ :=
  congrArg Except.ok (insertAll_entries ⟨id, attributes⟩)

theorem finish_eq_ok (h : draft.finish = .ok s) : draft.fields.Perm s.fields := by
  obtain ⟨id, attributes⟩ := draft
  cases id with
  | none => contradiction
  | some id =>
    rw [finish_of_id] at h
    obtain rfl := Except.ok.inj h
    exact (fields_perm ⟨id, attributes⟩).symm

theorem finish_eq_ok_iff : draft.finish = .ok s ↔ draft.fields.Perm s.fields := by
  refine ⟨finish_eq_ok, fun h => ?_⟩
  have held : (idKey, OutputField.id s.id) ∈ draft.fields :=
    h.symm.subset (mem_fields.2 (.inl ⟨rfl, rfl⟩))
  obtain ⟨id, attributes⟩ := draft
  cases id with
  | none => simp [fields] at held
  | some id =>
    have finished := finish_of_id id attributes
    rw [finished, eq_of_fields_perm ((finish_eq_ok finished).symm.trans h)]

end Draft

/-- A map is read as an output if its entries are the fields of that output, in whatever order, and
as nothing otherwise. -/
theorem ofValue_map_eq_ok_iff {entries : List (Value × Value)} :
    ofValue (.map entries) = .ok s ↔ (entries.map field?).Perm (s.fields.map some) := by
  have start : (Draft.fields {}).map some = [] := rfl
  constructor
  · intro h
    obtain ⟨draft, hdraft, hs⟩ := Except.bind_eq_ok.1 h
    have read_fields := Draft.addAll_eq_ok hdraft
    rw [start, List.append_nil] at read_fields
    exact read_fields.symm.trans ((Draft.finish_eq_ok hs).map some)
  · intro h
    have whole : (entries.map field? ++ (Draft.fields {}).map some).Perm (s.fields.map some) := by
      rwa [start, List.append_nil]
    obtain ⟨draft, hdraft⟩ := Draft.exists_addAll whole
    have wrapped := (Draft.addAll_eq_ok hdraft).trans whole
    have same : draft.fields.Perm s.fields :=
      (List.map_perm_map_iff fun _ _ => Option.some.inj).1 wrapped
    exact Except.bind_eq_ok.2 ⟨draft, hdraft, Draft.finish_eq_ok_iff.2 same⟩

section
variable {entries : List (Value × Value)}

theorem mem_fields_of_ofValue (h : ofValue (.map entries) = .ok s) :
    f ∈ s.fields ↔ ∃ e ∈ entries, field? e = some f := by
  have occurrence := (ofValue_map_eq_ok_iff.1 h).mem_iff (a := some f)
  rw [List.mem_map, List.mem_map_of_injective fun _ _ => Option.some.inj] at occurrence
  exact occurrence.symm

theorem exists_field?_of_ofValue (h : ofValue (.map entries) = .ok s) (he : entry ∈ entries) :
    ∃ f ∈ s.fields, field? entry = some f := by
  obtain ⟨f, hf, hfield⟩ := List.mem_map.1
    ((ofValue_map_eq_ok_iff.1 h).subset (List.mem_map.2 ⟨entry, he, rfl⟩))
  exact ⟨f, hf, hfield.symm⟩

theorem nodup_keys_of_ofValue (h : ofValue (.map entries) = .ok s) :
    (entries.map Prod.fst).Nodup := by
  have keys_differ := List.pairwise_map.1 (pairwise_keys (ofValue_map_eq_ok_iff.1 h))
  refine List.pairwise_map.2 (keys_differ.imp_of_mem fun {e e'} he he' hne heq => hne ?_)
  obtain ⟨f, -, hf⟩ := exists_field?_of_ofValue h he
  obtain ⟨f', -, hf'⟩ := exists_field?_of_ofValue h he'
  rw [key_of_field? hf, key_of_field? hf', Value.text.injEq] at heq
  rw [hf, hf', Option.map_some, Option.map_some, heq]

end

end Resolved
end SeededTraits
