import Mathlib.Data.List.Forall2
import SeededTraits.Proofs.Resolution
import SeededTraits.Proofs.Schema.Meaning
import SeededTraits.Value

/-! A value and its object form stand for the same schema, up to the order of the entries of a
group, and that order does not matter to what is resolved. -/
namespace SeededTraits

namespace Value

def objectEntries (entries : List (Value × Value)) : List (Value × Value) :=
  (KeyOrder.lastOfEach (objectMembers entries)).map fun e => (.text e.1, e.2)

theorem map?_objectForm (v : Value) : v.objectForm.map? = v.map?.map objectEntries := by
  cases v <;> simp [objectForm, map?, objectEntries]

theorem text?_objectForm (v : Value) : v.objectForm.text? = v.text? := by
  cases v <;> simp [objectForm, text?]

theorem integer?_objectForm (v : Value) : v.objectForm.integer? = v.integer? := by
  cases v with
  | tag t content => cases content <;> simp [objectForm, integer?]
  | _ => simp [objectForm, integer?]

theorem objectMembers_eq (entries : List (Value × Value)) :
    objectMembers entries = (members entries).map fun m => (m.1, objectForm m.2) := by
  induction entries with
  | nil => rfl
  | cons e rest ih =>
    obtain ⟨k, v⟩ := e
    cases k <;> simpa [objectMembers, members, text?] using ih

theorem members_objectEntries (entries : List (Value × Value)) :
    members (objectEntries entries) = KeyOrder.lastOfEach (objectMembers entries) := by
  simp [members, objectEntries, List.filterMap_map, text?]

/-- Where a key is repeated, the object form keeps what a reader of the map finds. -/
theorem field?_objectEntries (name : String) (entries : List (Value × Value)) :
    field? name (objectEntries entries) = (field? name entries).map objectForm := by
  have ascending := KeyOrder.ascending_lastOfEach (objectMembers entries)
  calc field? name (objectEntries entries)
      = (KeyOrder.lastOfEach (objectMembers entries)).reverse.lookup name := by
        rw [field?_eq, members_objectEntries]
    _ = (objectMembers entries).reverse.lookup name := by
        rw [← KeyOrder.lookup_lastOfEach, KeyOrder.lastOfEach_of_ascending ascending,
          KeyOrder.lookup_lastOfEach]
    _ = (field? name entries).map objectForm := by
        rw [objectMembers_eq, ← List.map_reverse, KeyOrder.lookup_map_snd, field?_eq]

end Value

theorem Range.ofValue?_objectForm (data : Value) :
    Range.ofValue? data.objectForm = Range.ofValue? data := by
  rw [Range.ofValue?, Range.ofValue?, Value.map?_objectForm]
  cases data.map? with
  | none => rfl
  | some fields =>
    have bound (name : String) :
        (Value.field? name (Value.objectEntries fields)).bind Value.integer? =
          (Value.field? name fields).bind Value.integer? := by
      rw [Value.field?_objectEntries, Option.bind_map]
      exact congrArg _ (funext Value.integer?_objectForm)
    simp only [Option.map_some, bound]

theorem SchemaEntry.ofValue_objectForm (v : Value) :
    SchemaEntry.ofValue v.objectForm = SchemaEntry.ofValue v := by
  rw [SchemaEntry.ofValue, SchemaEntry.ofValue, Value.map?_objectForm]
  cases v.map? with
  | none => rfl
  | some fields =>
    simp only [Option.map_some, Value.field?_objectEntries]
    cases Value.field? "type" fields with
    | none => rfl
    | some kind =>
      cases Value.field? "data" fields with
      | none => rfl
      | some data => simp [Value.text?_objectForm, Range.ofValue?_objectForm]

namespace SchemaGroup

/-- The same entries, each key once, in whatever order. -/
structure Agrees (g g' : SchemaGroup) : Prop where
  nodup_left : g.keys.Nodup
  nodup_right : g'.keys.Nodup
  get? (key : String) : g.get? key = g'.get? key

theorem Agrees.perm {g g' : SchemaGroup} (h : g.Agrees g') : g.entries.Perm g'.entries :=
  KeyOrder.perm_of_lookup h.nodup_left h.nodup_right h.get?

theorem agrees_objectEntries (fields : List (Value × Value)) :
    (ofEntries fields).Agrees (ofEntries (Value.objectEntries fields)) where
  nodup_left := nodup_keys_ofEntries _
  nodup_right := nodup_keys_ofEntries _
  get? key := by
    simp only [get?_ofEntries, Value.field?_objectEntries, Option.map_map, Function.comp_def,
      SchemaEntry.ofValue_objectForm]

end SchemaGroup

namespace Schema

theorem agrees_ofItems (items : List Value) :
    List.Forall₂ SchemaGroup.Agrees (ofItems items).groups
      (ofItems (items.map Value.objectForm)).groups := by
  induction items with
  | nil => exact .nil
  | cons item rest ih =>
    simp only [ofItems, List.map_cons, List.filterMap_cons, Value.map?_objectForm] at ih ⊢
    cases item.map? with
    | none => exact ih
    | some fields => exact .cons (SchemaGroup.agrees_objectEntries fields) ih

theorem agrees_objectForm (v : Value) :
    List.Forall₂ SchemaGroup.Agrees (ofValue v).groups (ofValue v.objectForm).groups := by
  cases v with
  | array items =>
    simp only [Value.objectForm, Value.objectForms_eq, ofValue]
    exact agrees_ofItems items
  | _ => simp [Value.objectForm, ofValue]

def ranges (entries : List (String × SchemaEntry)) : List (String × Range) :=
  entries.filterMap fun e => e.2.range?.map fun r => (e.1, r)

theorem definitions_cons (g : SchemaGroup) (groups : List SchemaGroup) :
    (mk (g :: groups)).definitions = ranges g.entries ++ (mk groups).definitions := by
  simp [definitions, entries, ranges]

/-- Where no key is repeated, an entry that is ignored does not stand before a range of its key. -/
theorem lookup_ranges {entries : List (String × SchemaEntry)}
    (h : (entries.map Prod.fst).Nodup) (key : String) :
    (ranges entries).lookup key = (entries.lookup key).bind SchemaEntry.range? := by
  induction entries with
  | nil => rfl
  | cons e rest ih =>
    obtain ⟨k, entry⟩ := e
    obtain ⟨fresh, hrest⟩ := List.nodup_cons.1 h
    have tail := ih hrest
    simp only [ranges, List.filterMap_cons] at tail ⊢
    by_cases hkey : key = k
    · subst hkey
      have none_left : rest.lookup key = none := KeyOrder.lookup_eq_none_iff_notMem.2 fresh
      cases hrange : entry.range? <;> simp [hrange, tail, none_left]
    · cases hrange : entry.range? <;> simp [KeyOrder.lookup_cons_ite, hkey, tail]

variable {groups groups' : List SchemaGroup}

theorem perm_definitions (h : List.Forall₂ SchemaGroup.Agrees groups groups') :
    (mk groups).definitions.Perm (mk groups').definitions := by
  induction h with
  | nil => exact .refl _
  | cons head _ ih =>
    rw [definitions_cons, definitions_cons]
    exact (head.perm.filterMap _).append ih

theorem lookup_definitions (h : List.Forall₂ SchemaGroup.Agrees groups groups') (key : String) :
    (mk groups).definitions.lookup key = (mk groups').definitions.lookup key := by
  induction h with
  | nil => rfl
  | @cons g g' groups groups' head _ ih =>
    have same : (ranges g.entries).lookup key = (ranges g'.entries).lookup key := by
      rw [lookup_ranges head.nodup_left, lookup_ranges head.nodup_right]
      exact congrArg (Option.bind · SchemaEntry.range?) (head.get? key)
    rw [definitions_cons, definitions_cons, List.lookup_append, List.lookup_append, same, ih]

/-- A value and its object form have the same groups, but for the order of the entries in each, and
every digest resolves both to the same output or fails on both. -/
theorem resolve_objectForm (v : Value) :
    List.Forall₂ (fun g g' : SchemaGroup => g.keys.Perm g'.keys ∧ ∀ key, g.get? key = g'.get? key)
        (ofValue v).groups (ofValue v.objectForm).groups ∧
      ∀ (d : Digest) (user : String),
        (∃ s, (ofValue v).resolve d user = .ok s ∧ (ofValue v.objectForm).resolve d user = .ok s) ∨
          ∃ e e', (ofValue v).resolve d user = .error e ∧
            (ofValue v.objectForm).resolve d user = .error e' := by
  have agrees := agrees_objectForm v
  refine ⟨agrees.imp fun g g' h => ⟨h.perm.map _, h.get?⟩, fun d user => ?_⟩
  exact resolve_agrees (perm_definitions agrees) (lookup_definitions agrees) d user

end Schema
end SeededTraits
