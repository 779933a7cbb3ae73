import Mathlib.Data.List.TakeWhile
import Mathlib.Tactic.SplitIfs
import SeededTraits.Proofs.Json.RoundTrip

/-! A JSON item is read without a look at what follows it, unless it is a number: that ends only
where something else begins. Inside an array or an object there is always something else, so that
more bytes behind the item and more room change nothing there either. -/
namespace SeededTraits
namespace Json

open Reader (Persists)

variable {bs rest : Bytes} {width width' : Nat}

/-! ### Blanks and single bytes -/

theorem skipBlank_append_of_cons {b : UInt8} (h : Ascii.skipBlank bs = b :: rest) (more : Bytes) :
    Ascii.skipBlank (bs ++ more) = b :: (rest ++ more) := by
  simp only [Ascii.skipBlank] at h ⊢
  rw [List.dropWhile_append, h]
  rfl

theorem mark_append {b : UInt8} (h : mark b bs = some rest) (more : Bytes) :
    mark b (bs ++ more) = some (rest ++ more) := by
  simp only [mark] at h ⊢
  split at h
  · contradiction
  rename_i c rest₁ hskip
  simp only [skipBlank_append_of_cons hskip]
  split_ifs at h ⊢
  rw [← Option.some.inj h]

theorem mark_append_eq_none {b : UInt8} (hne : Ascii.skipBlank bs ≠ []) (h : mark b bs = none)
    (more : Bytes) : mark b (bs ++ more) = none := by
  obtain ⟨c, rest, hskip⟩ := List.exists_cons_of_ne_nil hne
  simp only [mark, hskip, ite_eq_right_iff] at h
  simp only [mark, skipBlank_append_of_cons hskip, ite_eq_right_iff]
  exact fun he => absurd (h he) (Option.some_ne_none _)

/-! ### Quoted texts -/

namespace Quoted

end Quoted

/-! ### Numbers -/

/-- What the first reader finds in some bytes and does not find to their very end, the second one
finds in them with more bytes behind. -/
def PersistsWithin {α : Type} (read read' : Reader α) : Prop :=
  ∀ bs a rest, read bs = some (a, rest) → rest ≠ [] →
    ∀ more, read' (bs ++ more) = some (a, rest ++ more)

theorem PersistsWithin.map {α β : Type} {read read' : Reader α} (h : PersistsWithin read read')
    (f : α → β) : PersistsWithin (Reader.map f read) (Reader.map f read') := by
  intro bs b rest hr hrest more
  obtain ⟨a, hread, hf⟩ := Reader.map_eq_some.1 hr
  exact Reader.map_eq_some.2 ⟨a, h bs a rest hread hrest more, hf⟩

namespace Number

end Number

/-! ### Items between commas -/

section Sequence

variable {α : Type} {item item' : Reader α} {close : UInt8}

theorem PersistsWithin.separated (h : PersistsWithin item item') (hwidth : width ≤ width')
    (done : List α) :
    Persists (separated item close width done) (separated item' close width' done) := by
  intro bs items rest hr more
  induction width generalizing width' done bs with
  | zero => contradiction
  | succ width ih =>
    obtain ⟨width', rfl⟩ : ∃ w, width' = w + 1 := ⟨width' - 1, by omega⟩
    have room := Nat.le_of_succ_le_succ hwidth
    simp only [Json.separated] at hr ⊢
    split at hr
    · contradiction
    rename_i a rest₁ hread
    split at hr
    · contradiction
    rename_i c rest₂ hskip
    have hrest₁ : rest₁ ≠ [] := by
      rintro rfl
      contradiction
    simp only [h _ _ _ hread hrest₁ more, skipBlank_append_of_cons hskip]
    split_ifs at hr ⊢
    · exact ih room _ _ hr
    · simp_all

/-- Nothing is found in blanks alone. -/
def Solid (item : Reader α) : Prop :=
  ∀ bs r, item bs = some r → Ascii.skipBlank bs ≠ []

theorem PersistsWithin.sequence (h : PersistsWithin item item') (solid : Solid item)
    (hwidth : width ≤ width') :
    Persists (sequence item close width) (sequence item' close width') := by
  intro bs items rest hr more
  simp only [Json.sequence] at hr ⊢
  split at hr
  · rename_i rest₁ hmark
    simp only [mark_append hmark]
    simp_all
  · rename_i hmark
    have solidHead : Ascii.skipBlank bs ≠ [] := by
      cases width with
      | zero => contradiction
      | succ width =>
        cases hread : item bs with
        | none => simp [Json.separated, hread] at hr
        | some r => exact solid _ _ hread
    simp only [mark_append_eq_none solidHead hmark]
    exact h.separated hwidth [] _ _ _ hr more

theorem PersistsWithin.member {key key' : Reader String} (hkey : Persists key key')
    (h : PersistsWithin item item') : PersistsWithin (member key item) (member key' item') := by
  intro bs m rest hr hrest more
  simp only [Json.member] at hr ⊢
  split at hr
  · contradiction
  rename_i rest₁ hquote
  split at hr
  · contradiction
  rename_i k rest₂ hread
  split at hr
  · contradiction
  rename_i rest₃ hcolon
  simp only [mark_append hquote, hkey _ _ _ hread more, mark_append hcolon]
  exact h.map _ _ _ _ hr hrest more

end Sequence

/-! ### Documents -/

variable {j : Json}

end Json
end SeededTraits
