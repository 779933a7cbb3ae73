import Mathlib.Data.Int.CardIntervalMod
import Mathlib.Data.Set.Card
import SeededTraits.Engine
import SeededTraits.Proofs.Resolved.Insertion
import SeededTraits.Proofs.Value

/-! What resolution answers: under every key the value that its first definition picks, or else the
first definition that has no bounds. Picking is reduction modulo the number of values, and no word
is left on the way, so that the values share the digests evenly but for the remainder. -/
namespace SeededTraits

namespace Bounds

theorem min_add_mod_le_max (b : Bounds) (n : Nat) :
    b.min.toNat + n % (b.max.toNat - b.min.toNat + 1) ≤ b.max.toNat := by
  have order : b.min.toNat ≤ b.max.toNat := b.min_le_max
  have offset : n % (b.max.toNat - b.min.toNat + 1) < b.max.toNat - b.min.toNat + 1 :=
    Nat.mod_lt _ (Nat.succ_pos _)
  omega

theorem toNat_difference (b : Bounds) :
    (b.max.toUInt64 - b.min.toUInt64).toNat = b.max.toNat - b.min.toNat :=
  UInt64.toNat_sub_of_le _ _ b.min_le_max

/-- Sixty-four bits hold the number of values, that of the full range included. -/
theorem toNat_width (b : Bounds) :
    (b.max.toUInt64 - b.min.toUInt64 + 1).toNat = b.max.toNat - b.min.toNat + 1 := by
  have most : b.max.toNat < 4294967296 := b.max.toNat_lt
  rw [UInt64.toNat_add, toNat_difference]
  change (b.max.toNat - b.min.toNat + 1) % 18446744073709551616 = _
  omega

theorem toNat_sum (b : Bounds) (d : Digest) :
    (b.min.toUInt64 + d.value.toUInt64 % (b.max.toUInt64 - b.min.toUInt64 + 1)).toNat =
      b.min.toNat + d.value.toNat % (b.max.toNat - b.min.toNat + 1) := by
  have most : b.max.toNat < 4294967296 := b.max.toNat_lt
  have between := b.min_add_mod_le_max d.value.toNat
  rw [UInt64.toNat_add, UInt64.toNat_mod, toNat_width]
  simp only [UInt32.toNat_toUInt64]
  omega

theorem toNat_pick (b : Bounds) (d : Digest) :
    (b.pick d).toNat = b.min.toNat + d.value.toNat % (b.max.toNat - b.min.toNat + 1) := by
  have most : b.max.toNat < 4294967296 := b.max.toNat_lt
  have between := b.min_add_mod_le_max d.value.toNat
  simp only [pick, UInt64.toNat_toUInt32, toNat_sum]
  omega

theorem min_le_pick (b : Bounds) (d : Digest) : b.min ≤ b.pick d := by
  rw [UInt32.le_iff_toNat_le, toNat_pick]
  exact Nat.le_add_right _ _

theorem pick_le_max (b : Bounds) (d : Digest) : b.pick d ≤ b.max := by
  rw [UInt32.le_iff_toNat_le, toNat_pick]
  exact b.min_add_mod_le_max _

end Bounds

namespace Range

def pick? (d : Digest) (r : Range) : Option UInt32 :=
  r.bounds?.map fun b => b.pick d

theorem bounds_of_pick? {d : Digest} {r : Range} {n : UInt32} (h : r.pick? d = some n) :
    ∃ b, r.bounds? = some b ∧ b.min ≤ n ∧ n ≤ b.max := by
  obtain ⟨b, hb, rfl⟩ := Option.map_eq_some_iff.1 h
  exact ⟨b, hb, b.min_le_pick d, b.pick_le_max d⟩

theorem isSome_pick? (d : Digest) (r : Range) : (r.pick? d).isSome = r.bounds?.isSome := by
  simp [pick?]

end Range

namespace Schema

variable {d : Digest} {definitions : List (String × Range)}

theorem resolveAll_append (d : Digest) (s : Resolved) (a b : List (String × Range)) :
    resolveAll d s (a ++ b) = (resolveAll d s a).bind fun s => resolveAll d s b := by
  induction a generalizing s with
  | nil => rfl
  | cons definition a ih =>
    simp only [List.cons_append, resolveAll]
    cases resolveOne d s definition with
    | error e => rfl
    | ok s => exact ih s

def picks (d : Digest) (definitions : List (String × Range)) : List (String × UInt32) :=
  definitions.filterMap fun e => (e.2.pick? d).map fun n => (e.1, n)

theorem picks_cons {e : String × Range} {b : Bounds} (hb : e.2.bounds? = some b)
    (rest : List (String × Range)) : picks d (e :: rest) = (e.1, b.pick d) :: picks d rest := by
  simp [picks, Range.pick?, hb]

theorem lookup_picks (h : ∀ e ∈ definitions, e.2.bounds?.isSome) (k : String) :
    (picks d definitions).lookup k = (definitions.lookup k).bind (Range.pick? d) := by
  induction definitions with
  | nil => rfl
  | cons e rest ih =>
    obtain ⟨hhead, hrest⟩ := List.forall_mem_cons.1 h
    obtain ⟨b, hb⟩ := Option.isSome_iff_exists.1 hhead
    rw [picks_cons hb, KeyOrder.lookup_cons_ite, KeyOrder.lookup_cons_ite, ih hrest]
    by_cases hk : k = e.1 <;> simp [hk, Range.pick?, hb]

/-- Definitions that all have bounds are a run of insertions. -/
theorem resolveAll_of_bounded (h : ∀ e ∈ definitions, e.2.bounds?.isSome) (s : Resolved) :
    resolveAll d s definitions = .ok (s.insertAll (picks d definitions)) := by
  induction definitions generalizing s with
  | nil => rfl
  | cons e rest ih =>
    obtain ⟨hhead, hrest⟩ := List.forall_mem_cons.1 h
    obtain ⟨b, hb⟩ := Option.isSome_iff_exists.1 hhead
    simp only [resolveAll, resolveOne, hb, ih hrest, picks_cons hb, Resolved.insertAll_cons]

/-- Nothing that comes after a definition without bounds is looked at. -/
theorem resolveAll_of_unbounded {before after : List (String × Range)} {e : String × Range}
    (h : ∀ e ∈ before, e.2.bounds?.isSome) (he : e.2.bounds? = none) (s : Resolved) :
    resolveAll d s (before ++ e :: after) = .error ⟨e.1, e.2.min, e.2.max⟩ := by
  rw [resolveAll_append, resolveAll_of_bounded h]
  simp only [Except.bind, resolveAll, resolveOne, he]

def firstUnbounded? (schema : Schema) : Option (String × Range) :=
  schema.definitions.find? fun e => e.2.bounds?.isNone

variable {schema : Schema} {user : String}

theorem firstUnbounded?_eq_none_iff :
    schema.firstUnbounded? = none ↔ ∀ e ∈ schema.definitions, e.2.bounds?.isSome := by
  simp [firstUnbounded?, List.find?_eq_none, Option.isSome_iff_ne_none]

theorem resolve_of_firstUnbounded? {e : String × Range} (h : schema.firstUnbounded? = some e) :
    schema.resolve d user = .error ⟨e.1, e.2.min, e.2.max⟩ := by
  obtain ⟨he, before, after, hdefinitions, hbefore⟩ := List.find?_eq_some_iff_append.1 h
  rw [resolve, hdefinitions]
  refine resolveAll_of_unbounded (fun b hb => ?_) (by simpa using he) _
  simpa [Option.isSome_iff_ne_none] using hbefore b hb

theorem resolve_eq_insertAll (h : schema.firstUnbounded? = none) (d : Digest) (user : String) :
    schema.resolve d user = .ok ((Resolved.new user).insertAll (picks d schema.definitions)) :=
  resolveAll_of_bounded (firstUnbounded?_eq_none_iff.1 h) (.new user)

theorem resolve_of_bounded (h : schema.firstUnbounded? = none) (d : Digest) (user : String) :
    ∃ s, schema.resolve d user = .ok s ∧ s.id = user ∧
      ∀ k, s.get? k = if k = idKey then none else
        (schema.definitions.lookup k).bind (Range.pick? d) := by
  have bounded := firstUnbounded?_eq_none_iff.1 h
  refine ⟨_, resolve_eq_insertAll h d user, Resolved.id_insertAll _ _, fun k => ?_⟩
  rw [Resolved.get?_insertAll_new, lookup_picks bounded]

theorem resolve_eq_ok {s : Resolved} (h : schema.resolve d user = .ok s) :
    schema.firstUnbounded? = none ∧ s.id = user ∧
      ∀ k, s.get? k = if k = idKey then none else
        (schema.definitions.lookup k).bind (Range.pick? d) := by
  cases hfirst : schema.firstUnbounded? with
  | none =>
    obtain ⟨t, hresolve, hid, hget⟩ := resolve_of_bounded hfirst d user
    obtain rfl : s = t := Except.ok.inj (h.symm.trans hresolve)
    exact ⟨rfl, hid, hget⟩
  | some e =>
    rw [resolve_of_firstUnbounded? hfirst] at h
    contradiction

theorem isSome_get?_of_resolve {s : Resolved} (h : schema.resolve d user = .ok s) (k : String) :
    (s.get? k).isSome ↔ k ≠ idKey ∧ k ∈ schema.definitions.map Prod.fst := by
  obtain ⟨hfirst, -, hget⟩ := resolve_eq_ok h
  have bounded := firstUnbounded?_eq_none_iff.1 hfirst
  rw [hget]
  by_cases hk : k = idKey
  · simp [hk]
  rw [if_neg hk]
  cases hlookup : schema.definitions.lookup k with
  | none =>
    have absent := KeyOrder.lookup_eq_none_iff_notMem.1 hlookup
    simp [absent]
  | some r =>
    obtain ⟨before, after, hdefinitions, -⟩ := List.lookup_eq_some_iff.1 hlookup
    have present : (k, r) ∈ schema.definitions := by simp [hdefinitions]
    have picked : (r.pick? d).isSome := by
      rw [r.isSome_pick? d]
      exact bounded _ present
    have key : k ∈ schema.definitions.map Prod.fst := List.mem_map.2 ⟨_, present, rfl⟩
    simp [hk, picked, key]

/-- Every value lies between the bounds of the first definition of its key. -/
theorem bounds_of_resolve {s : Resolved} (h : schema.resolve d user = .ok s) {k : String}
    {n : UInt32} (hn : s.get? k = some n) :
    ∃ r b, schema.definitions.lookup k = some r ∧ r.bounds? = some b ∧ b.min ≤ n ∧ n ≤ b.max := by
  obtain ⟨-, -, hget⟩ := resolve_eq_ok h
  rw [hget, Option.ite_none_left_eq_some] at hn
  obtain ⟨r, hlookup, hpick⟩ := Option.bind_eq_some_iff.1 hn.2
  obtain ⟨b, hb, between⟩ := Range.bounds_of_pick? hpick
  exact ⟨r, b, hlookup, hb, between⟩

/-- The order of definitions matters only among those of one key, as long as there are bounds. -/
theorem resolve_agrees {schema' : Schema} (hperm : schema.definitions.Perm schema'.definitions)
    (hlookup : ∀ k, schema.definitions.lookup k = schema'.definitions.lookup k) (d : Digest)
    (user : String) :
    (∃ s, schema.resolve d user = .ok s ∧ schema'.resolve d user = .ok s) ∨
      ∃ e e', schema.resolve d user = .error e ∧ schema'.resolve d user = .error e' := by
  have same : schema.firstUnbounded? = none ↔ schema'.firstUnbounded? = none := by
    simp only [firstUnbounded?_eq_none_iff, hperm.mem_iff]
  cases h : schema.firstUnbounded? with
  | none =>
    obtain ⟨s, hs, hid, hget⟩ := resolve_of_bounded h d user
    obtain ⟨t, ht, hid', hget'⟩ := resolve_of_bounded (same.1 h) d user
    have equal : s = t := Resolved.ext_get? (hid.trans hid'.symm) fun k => by
      rw [hget, hget', hlookup]
    exact .inl ⟨s, hs, equal ▸ ht⟩
  | some e =>
    obtain ⟨e', h'⟩ := Option.ne_none_iff_exists'.1 (mt same.2 (by simp [h]))
    exact .inr ⟨_, _, resolve_of_firstUnbounded? h, resolve_of_firstUnbounded? h'⟩

theorem definitions_eq_flatMap (schema : Schema) :
    schema.definitions = schema.groups.flatMap fun g => g.entries.filterMap fun e =>
      match e.2 with
      | .range r => some (e.1, r)
      | .ignored _ => none := by
  rw [definitions, entries, List.filterMap_flatMap]
  refine List.flatMap_congr fun g _ => List.filterMap_congr fun e _ => ?_
  cases e.2 <;> rfl

/-- Every range in a schema has to have bounds, one under the identifier's key and one whose key is
taken not excepted. Then each key but that of the identifier has the value of its first range. -/
theorem resolve_first_of_each (schema : Schema) (d : Digest) (user : String) :
    let ranges := schema.groups.flatMap fun g => g.entries.filterMap fun e =>
      match e.2 with
      | .range r => some (e.1, r)
      | .ignored _ => none
    match ranges.find? fun e => e.2.bounds?.isNone with
    | none => ∃ s, schema.resolve d user = .ok s ∧ s.id = user ∧
        ∀ k, s.get? k = if k = idKey then none else
          (ranges.lookup k).bind fun r => r.bounds?.map fun b => b.pick d
    | some e => schema.resolve d user = .error ⟨e.1, e.2.min, e.2.max⟩ := by
  intro ranges
  have same : ranges = schema.definitions := schema.definitions_eq_flatMap.symm
  rw [same]
  split
  · rename_i h
    exact resolve_of_bounded h d user
  · rename_i e h
    exact resolve_of_firstUnbounded? h

/-- A key in both groups and twice in one of them, behind an entry that is ignored, and a range
under the identifier's key; then the same groups with two more ranges that have no bounds. -/
theorem resolve_first_of_each_two_groups :
    let level (min max : Int) : String × SchemaEntry := ("level", .range ⟨min, max⟩)
    let groups : List SchemaGroup := [⟨[("power", .ignored .malformedRange), level 10 10]⟩,
      ⟨[level 1 3, ("id", .range ⟨5, 6⟩), ("power", .range ⟨0, 9⟩), level 2 2]⟩]
    let more : SchemaGroup := ⟨[level 3 1, ("id", .range ⟨-1, 0⟩)]⟩
    (∃ s, Schema.resolve ⟨groups⟩ ⟨57⟩ "u" = .ok s ∧ s.id = "u" ∧ s.get? "level" = some 10 ∧
      s.get? "power" = some 7 ∧ s.get? "id" = none ∧ s.get? "age" = none) ∧
      Schema.resolve ⟨groups ++ [more]⟩ ⟨57⟩ "u" = .error ⟨"level", 3, 1⟩ := by
  intro level groups more
  obtain ⟨s, hs, hid, hget⟩ := resolve_first_of_each ⟨groups⟩ ⟨57⟩ "u"
  exact ⟨⟨s, hs, hid, hget "level", hget "power", hget "id", hget "age"⟩,
    resolve_first_of_each ⟨groups ++ [more]⟩ ⟨57⟩ "u"⟩

/-! ### Schemas put together -/

/-- What two halves resolve to when they are taken together: the error of the first one, else that
of the second one, else the attributes of both, those of the first one where a key is in both. -/
def Merges : (first second whole : Except InvalidRange Resolved) → Prop
  | .error e, _, whole => whole = .error e
  | .ok _, .error e, whole => whole = .error e
  | .ok s, .ok t, whole =>
    ∃ r, whole = .ok r ∧ r.id = s.id ∧ ∀ k, r.get? k = (s.get? k).or (t.get? k)

theorem firstUnbounded?_append (a b : List SchemaGroup) :
    (Schema.mk (a ++ b)).firstUnbounded? =
      (Schema.mk a).firstUnbounded?.or (Schema.mk b).firstUnbounded? := by
  simp only [firstUnbounded?, definitions_append, List.find?_append]

theorem picks_append (d : Digest) (a b : List (String × Range)) :
    picks d (a ++ b) = picks d a ++ picks d b :=
  List.filterMap_append ..

theorem merges_resolve (a b : List SchemaGroup) (d : Digest) (user : String) :
    Merges ((Schema.mk a).resolve d user) ((Schema.mk b).resolve d user)
      ((Schema.mk (a ++ b)).resolve d user) := by
  have first := firstUnbounded?_append a b
  cases ha : (Schema.mk a).firstUnbounded? with
  | some e =>
    rw [ha, Option.some_or] at first
    rw [resolve_of_firstUnbounded? ha, resolve_of_firstUnbounded? first]
    rfl
  | none =>
    rw [ha, Option.none_or] at first
    cases hb : (Schema.mk b).firstUnbounded? with
    | some e =>
      rw [hb] at first
      rw [resolve_eq_insertAll ha, resolve_of_firstUnbounded? hb, resolve_of_firstUnbounded? first]
      rfl
    | none =>
      rw [hb] at first
      rw [resolve_eq_insertAll ha, resolve_eq_insertAll hb, resolve_eq_insertAll first]
      refine ⟨_, rfl, ?_, fun k => ?_⟩
      · rw [Resolved.id_insertAll, Resolved.id_insertAll]
      · rw [definitions_append, picks_append]
        simp only [Resolved.get?_insertAll_new, List.lookup_append]
        split <;> rfl

end Schema

/-! ### How the digests are spread -/

def word64? : Int → Option UInt64
  | .ofNat n => if n < UInt64.size then some (UInt64.ofNat n) else none
  | .negSucc _ => none

theorem word64?_toNat (n : UInt64) : word64? n.toNat = some n := by
  have fits : word64? n.toNat = some (UInt64.ofNat n.toNat) := if_pos n.toNat_lt
  rw [fits, UInt64.ofNat_toNat]

namespace Bounds

def span (b : Bounds) : Nat := b.max.toNat - b.min.toNat + 1

theorem span_pos (b : Bounds) : 0 < b.span := Nat.succ_pos _

theorem span_le (b : Bounds) : b.span ≤ 2 ^ 32 := by
  have most := b.max.toNat_lt
  unfold span
  omega

/-! ### No step leaves its word -/

/-- The value that is picked if every difference and sum fits 64 bits, the divisor is not zero, and
the result fits 32 bits. -/
def pickChecked? (b : Bounds) (d : Digest) : Option UInt32 := do
  let difference ← word64? (b.max.toNat - b.min.toNat)
  let span ← word64? (difference.toNat + 1)
  let offset ← if span = 0 then none else some (d.value.toUInt64 % span)
  let sum ← word64? (b.min.toNat + offset.toNat)
  word32? sum.toNat

theorem pickChecked?_eq (b : Bounds) (d : Digest) : b.pickChecked? d = some (b.pick d) := by
  have difference :
      word64? (b.max.toNat - b.min.toNat) = some (b.max.toUInt64 - b.min.toUInt64) := by
    have order : b.min.toNat ≤ b.max.toNat := b.min_le_max
    rw [← word64?_toNat, b.toNat_difference, Int.ofNat_sub order]
  have width : word64? ((b.max.toUInt64 - b.min.toUInt64).toNat + 1) =
      some (b.max.toUInt64 - b.min.toUInt64 + 1) := by
    rw [← word64?_toNat, b.toNat_width, b.toNat_difference]
    rfl
  have positive : b.max.toUInt64 - b.min.toUInt64 + 1 ≠ 0 := by
    intro zero
    have number := b.toNat_width
    rw [zero] at number
    exact absurd number (Nat.succ_ne_zero _).symm
  have offset : (d.value.toUInt64 % (b.max.toUInt64 - b.min.toUInt64 + 1)).toNat =
      d.value.toNat % (b.max.toNat - b.min.toNat + 1) := by
    rw [UInt64.toNat_mod, b.toNat_width, UInt32.toNat_toUInt64]
  have sum : word64? (b.min.toNat +
      (d.value.toUInt64 % (b.max.toUInt64 - b.min.toUInt64 + 1)).toNat) =
        some (b.min.toUInt64 + d.value.toUInt64 % (b.max.toUInt64 - b.min.toUInt64 + 1)) := by
    rw [← word64?_toNat, b.toNat_sum, offset]
    rfl
  have fits : word32? (b.min.toUInt64 +
      d.value.toUInt64 % (b.max.toUInt64 - b.min.toUInt64 + 1)).toNat = some (b.pick d) := by
    rw [word32?_eq_some_iff, b.toNat_sum, b.toNat_pick]
  simp only [pickChecked?, Option.bind_eq_bind, difference, Option.bind_some, width,
    if_neg positive, sum, fits]

/-! ### Shares -/

noncomputable def digestCount (b : Bounds) (v : UInt32) : Nat :=
  {d : Digest | b.pick d = v}.ncard

theorem ncard_digests (p : Nat → Prop) [DecidablePred p] :
    {d : Digest | p d.value.toNat}.ncard = Nat.count p (2 ^ 32) := by
  have value_injective : Function.Injective fun d : Digest => d.value.toNat := by
    rintro ⟨a⟩ ⟨b⟩ h
    exact congrArg Digest.mk (UInt32.toNat_inj.1 h)
  have image : (fun d : Digest => d.value.toNat) '' {d | p d.value.toNat} =
      ((Finset.range (2 ^ 32)).filter p : Set Nat) := by
    ext n
    simp only [Set.mem_image, Set.mem_ofPred_eq, Finset.coe_filter, Finset.mem_range]
    constructor
    · rintro ⟨d, hd, rfl⟩
      exact ⟨d.value.toNat_lt, hd⟩
    · rintro ⟨hn, hp⟩
      have word : (UInt32.ofNat n).toNat = n := by
        rw [UInt32.toNat_ofNat', Nat.mod_eq_of_lt hn]
      exact ⟨⟨UInt32.ofNat n⟩, by rwa [word], word⟩
  rw [Nat.count_eq_card_filter_range, ← Set.ncard_coe_finset, ← image,
    Set.ncard_image_of_injective _ value_injective]

def Contains (b : Bounds) (v : UInt32) : Prop := b.min ≤ v ∧ v ≤ b.max

variable {b : Bounds} {v w : UInt32}

theorem Contains.offset_lt (h : b.Contains v) : v.toNat - b.min.toNat < b.span := by
  have least : b.min.toNat ≤ v.toNat := h.1
  have most : v.toNat ≤ b.max.toNat := h.2
  unfold span
  omega

theorem Contains.pick_eq_iff (h : b.Contains v) (d : Digest) :
    b.pick d = v ↔ d.value.toNat ≡ v.toNat - b.min.toNat [MOD b.span] := by
  have least : b.min.toNat ≤ v.toNat := h.1
  rw [← UInt32.toNat_inj, toNat_pick, Nat.ModEq, Nat.mod_eq_of_lt h.offset_lt, span]
  omega

theorem Contains.digestCount_eq (h : b.Contains v) :
    b.digestCount v = if v.toNat - b.min.toNat < 2 ^ 32 % b.span then 2 ^ 32 / b.span + 1
      else 2 ^ 32 / b.span := by
  have residues : {d : Digest | b.pick d = v} =
      {d | d.value.toNat ≡ v.toNat - b.min.toNat [MOD b.span]} := by
    ext d
    exact h.pick_eq_iff d
  rw [digestCount, residues, ncard_digests (· ≡ v.toNat - b.min.toNat [MOD b.span]),
    Nat.count_modEq_card _ b.span_pos, Nat.mod_eq_of_lt h.offset_lt]
  split <;> rfl

/-- No value goes without a digest, since there are as many digests as there can be values. -/
theorem Contains.exists_pick (h : b.Contains v) : ∃ d, b.pick d = v := by
  have share : 0 < 2 ^ 32 / b.span := Nat.div_pos b.span_le b.span_pos
  have counted : b.digestCount v ≠ 0 := by
    rw [h.digestCount_eq]
    split <;> omega
  exact Set.nonempty_of_ncard_ne_zero counted

theorem Contains.digestCount_le (hv : b.Contains v) (hw : b.Contains w) :
    b.digestCount v ≤ b.digestCount w + 1 := by
  rw [hv.digestCount_eq, hw.digestCount_eq]
  split <;> split <;> omega

/-- Checked step by step, the arithmetic of a pick goes through, and it stays within the range. Of
all digests each value has its share, which is the same for all values but for the remainder: that
goes to the first ones, one digest to each. -/
theorem pick_evenly (b : Bounds) :
    (∀ d, b.pickChecked? d = some (b.pick d) ∧ b.Contains (b.pick d)) ∧
      (∀ v, b.Contains v → (∃ d, b.pick d = v) ∧
        b.digestCount v = if v.toNat - b.min.toNat < 2 ^ 32 % b.span then 2 ^ 32 / b.span + 1
          else 2 ^ 32 / b.span) ∧
      ∀ v w, b.Contains v → b.Contains w → b.digestCount v ≤ b.digestCount w + 1 :=
  ⟨fun d => ⟨b.pickChecked?_eq d, b.min_le_pick d, b.pick_le_max d⟩,
    fun _ h => ⟨h.exists_pick, h.digestCount_eq⟩,
    fun _ _ hv hw => hv.digestCount_le hw⟩

theorem pick_evenly_three :
    let b : Bounds := ⟨5, 7, by decide⟩
    let full : Bounds := ⟨0, 0xffffffff, by decide⟩
    b.Contains 5 ∧ b.Contains 7 ∧ b.digestCount 5 = 1431655766 ∧ b.digestCount 7 = 1431655765 ∧
      b.digestCount 5 ≤ b.digestCount 7 + 1 ∧
      full.Contains 0xffffffff ∧ full.digestCount 0xffffffff = 1 := by
  intro b full
  have first : b.Contains 5 := ⟨by decide, by decide⟩
  have last : b.Contains 7 := ⟨by decide, by decide⟩
  have widest : full.Contains 0xffffffff := ⟨by decide, by decide⟩
  obtain ⟨-, shares, near⟩ := pick_evenly b
  obtain ⟨-, fullShares, -⟩ := pick_evenly full
  exact ⟨first, last, (shares 5 first).2.trans (by decide), (shares 7 last).2.trans (by decide),
    near 5 7 first last, widest, (fullShares _ widest).2.trans (by decide)⟩

end Bounds

end SeededTraits
