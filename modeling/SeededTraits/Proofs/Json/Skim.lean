import Mathlib.Tactic.SplitIfs
import SeededTraits.Interchange
import SeededTraits.Proofs.Json.RoundTrip

/-! What a reader makes out can be passed over as well, at whatever depth it nests, and what follows
it is then left. A reader recurses where the other one keeps its nests on a stack, so a row of items
is followed from one comma to the next. -/
namespace SeededTraits
namespace Json
namespace Skim

variable {width texts depth : Nat} {bs rest : Bytes}

/-! ### Texts and keys -/

theorem length_of_escapeSequence {bytes : Bytes} (h : escapeSequence bs = some (bytes, rest)) :
    rest.length < bs.length := by
  cases bs with
  | nil => contradiction
  | cons letter bs =>
    simp only [escapeSequence] at h
    rw [List.length_cons]
    split at h
    · obtain ⟨unit, hunit, -⟩ := Reader.map_eq_some.1 h
      have four := Quoted.length_of_unit16 hunit
      omega
    · simp only [Option.map_eq_some_iff, Prod.mk.injEq] at h
      obtain ⟨b, -, -, rfl⟩ := h
      omega

/-- Two surrogates are one escape sequence to a reader and two to whoever passes over them. -/
theorem escapeSequence_cases {bytes : Bytes}
    (h : Quoted.escapeSequence bs = some (bytes, rest)) :
    (∃ unit, escapeSequence bs = some (unit, rest)) ∨
      ∃ high low back, escapeSequence bs = some (high, Ascii.backslash :: back) ∧
        escapeSequence back = some (low, rest) := by
  cases bs with
  | nil => contradiction
  | cons letter bs =>
    simp only [Quoted.escapeSequence] at h
    split at h
    · rename_i hletter
      simp only [Quoted.unicodeEscape] at h
      split at h
      · contradiction
      rename_i high rest₁ hhigh
      have first : escapeSequence (letter :: bs) = some ([], rest₁) := by
        simp [escapeSequence, hletter, Reader.map, hhigh]
      split at h
      · split at h
        · contradiction
        rename_i rest₂ hmark
        obtain rfl := Reader.exact_eq_some_iff.1 hmark
        split at h
        · contradiction
        rename_i low rest₃ hlow
        split at h
        · simp only [Option.map_eq_some_iff, Prod.mk.injEq] at h
          obtain ⟨_, -, -, rfl⟩ := h
          exact .inr ⟨[], [], _, first, by simp [escapeSequence, Reader.map, hlow]⟩
        · contradiction
      · simp only [Option.map_eq_some_iff, Prod.mk.injEq] at h
        obtain ⟨_, -, -, rfl⟩ := h
        exact .inl ⟨[], first⟩
    · rename_i hletter
      exact .inl ⟨bytes, by rw [escapeSequence, if_neg hletter, h]⟩

theorem content_of_content {done bytes : Bytes}
    (h : Quoted.content Quoted.escapeSequence width done bs = some (bytes, rest))
    (room : bs.length ≤ texts + rest.length) (done' : Bytes) :
    ∃ passed, Quoted.content escapeSequence texts done' bs = some (passed, rest) := by
  induction width generalizing texts done done' bs with
  | zero => contradiction
  | succ width ih =>
    cases bs with
    | nil => contradiction
    | cons b bs =>
      obtain ⟨_, -, behind⟩ := Quoted.content_eq_some h
      rw [List.length_cons] at room behind
      obtain ⟨texts, rfl⟩ : ∃ t, texts = t + 1 := ⟨texts - 1, by omega⟩
      simp only [Quoted.content] at h ⊢
      split_ifs at h ⊢
      · simp_all
      · split at h
        · contradiction
        rename_i escaped rest₁ hescape
        obtain ⟨_, -, behind⟩ := Quoted.content_eq_some h
        rcases escapeSequence_cases hescape with ⟨unit, hunit⟩ | ⟨high, low, back, hhigh, hlow⟩
        · have shorter := length_of_escapeSequence hunit
          simp only [hunit]
          exact ih h (by omega) _
        · -- The backslash between the two takes a step of its own.
          have shorter := length_of_escapeSequence hhigh
          have shorter' := length_of_escapeSequence hlow
          rw [List.length_cons] at shorter
          obtain ⟨texts, rfl⟩ : ∃ t, texts = t + 1 := ⟨texts - 1, by omega⟩
          simp only [hhigh, Quoted.content, if_neg (show Ascii.backslash ≠ Ascii.quote by decide),
            if_pos, hlow]
          exact ih h (by omega) _
      · exact ih h (by omega) _

theorem text_of_read {s : String} (h : Quoted.read width bs = some (s, rest))
    (room : bs.length ≤ texts + rest.length) : text texts bs = some rest := by
  obtain ⟨bytes, hcontent, -⟩ := Reader.filterMap_eq_some.1 h
  obtain ⟨passed, hpassed⟩ := content_of_content hcontent room []
  rw [text, hpassed]
  rfl

/-! ### Nests -/

namespace Nest

def opening : Nest → UInt8
  | .array => Ascii.openBracket
  | .object => Ascii.openBrace

def close : Nest → UInt8
  | .array => Ascii.closeBracket
  | .object => Ascii.closeBrace

def lead (texts : Nat) : Nest → Bytes → Option Bytes
  | .array, bs => some bs
  | .object, bs => key texts bs

end Nest

/-- Where an item is due inside `inner`, the loop comes to `rest` inside `outer`. Neither its steps
nor the length of a text need be more than the bytes that it takes. -/
def Passes (inner outer : List Nest) (bs rest : Bytes) : Prop :=
  ∃ steps, steps + rest.length ≤ bs.length ∧
    ∀ texts, bs.length ≤ texts + rest.length → ∀ width,
      loop texts (width + steps) inner true bs = loop texts width outer false rest

/-- Between `bs` and `start` stands what comes before an item. -/
def Leads (nest : Nest) (bs start : Bytes) : Prop :=
  start.length ≤ bs.length ∧
    ∀ texts, bs.length ≤ texts + start.length → nest.lead texts bs = some start

def Skims {α : Type} (nest : Nest) (item : Reader α) : Prop :=
  ∀ bs a rest, item bs = some (a, rest) →
    ∃ start, Leads nest bs start ∧ ∀ nests, Passes nests nests start rest

theorem loop_comma {nest : Nest} {outer : List Nest} {start : Bytes}
    (hskip : Ascii.skipBlank bs = Ascii.comma :: rest) (hlead : nest.lead texts rest = some start)
    (width : Nat) :
    loop texts (width + 1) (nest :: outer) false bs =
      loop texts width (nest :: outer) true start := by
  cases nest with
  | array =>
    obtain rfl := Option.some.inj hlead
    simp [loop, hskip]
  | object =>
    have key : key texts rest = some start := hlead
    simp [loop, hskip, key]

theorem loop_close {nest : Nest} {outer : List Nest}
    (hskip : Ascii.skipBlank bs = nest.close :: rest) (width : Nat) :
    loop texts (width + 1) (nest :: outer) false bs = loop texts width outer false rest := by
  cases nest <;> simp [loop, hskip, Nest.close, Ascii.comma, Ascii.closeBracket, Ascii.closeBrace]

theorem loop_open {nest : Nest} {nests : List Nest} {start : Bytes}
    (hskip : Ascii.skipBlank bs = nest.opening :: rest) (hmark : mark nest.close rest = none)
    (hlead : nest.lead texts rest = some start) (width : Nat) :
    loop texts (width + 1) nests true bs = loop texts width (nest :: nests) true start := by
  cases nest with
  | array =>
    obtain rfl := Option.some.inj hlead
    have close : mark Ascii.closeBracket rest = none := hmark
    simp [loop, hskip, Nest.opening, close]
  | object =>
    have key : key texts rest = some start := hlead
    have close : mark Ascii.closeBrace rest = none := hmark
    simp [loop, hskip, Nest.opening, Ascii.openBrace, Ascii.openBracket, close, key]

theorem loop_empty {nest : Nest} {back : Bytes} (hskip : Ascii.skipBlank bs = nest.opening :: rest)
    (hmark : mark nest.close rest = some back) (nests : List Nest) (width : Nat) :
    loop texts (width + 1) nests true bs = loop texts width nests false back := by
  cases nest with
  | array =>
    have close : mark Ascii.closeBracket rest = some back := hmark
    simp [loop, hskip, Nest.opening, close]
  | object =>
    have close : mark Ascii.closeBrace rest = some back := hmark
    simp [loop, hskip, Nest.opening, Ascii.openBrace, Ascii.openBracket, close]

section Rows

variable {α : Type} {nest : Nest} {item : Reader α} {items : List α}

/-- The first item that is still to come may be the one behind its key; a comma or the close
follows each item. -/
theorem Skims.separated (hitem : Skims nest item) {done : List α}
    (h : Json.separated item nest.close width done bs = some (items, rest)) :
    ∃ start, Leads nest bs start ∧ ∀ outer, Passes (nest :: outer) outer start rest := by
  induction width generalizing done bs with
  | zero => contradiction
  | succ width ih =>
    simp only [Json.separated] at h
    split at h
    · contradiction
    rename_i a rest₁ hread
    obtain ⟨start, leads, passes⟩ := hitem _ _ _ hread
    have blanks := length_skipBlank_le rest₁
    split at h
    · contradiction
    rename_i c rest₂ hskip
    rw [hskip, List.length_cons] at blanks
    refine ⟨start, leads, fun outer => ?_⟩
    obtain ⟨steps, few, go⟩ := passes (nest :: outer)
    split at h
    · rename_i hcomma
      subst hcomma
      obtain ⟨start', ⟨short', lead'⟩, passes'⟩ := ih h
      obtain ⟨steps', few', go'⟩ := passes' outer
      refine ⟨steps' + 1 + steps, by omega, fun texts room width => ?_⟩
      rw [← Nat.add_assoc, ← Nat.add_assoc, go texts (by omega),
        loop_comma hskip (lead' texts (by omega)), go' texts (by omega)]
    split at h
    · rename_i hclose
      subst hclose
      simp only [Option.some.injEq, Prod.mk.injEq] at h
      obtain ⟨-, rfl⟩ := h
      refine ⟨1 + steps, by omega, fun texts room width => ?_⟩
      rw [← Nat.add_assoc, go texts (by omega), loop_close hskip]
    · contradiction

theorem Skims.sequence (hitem : Skims nest item) {back : Bytes}
    (hskip : Ascii.skipBlank bs = nest.opening :: back)
    (h : Json.sequence item nest.close width back = some (items, rest)) (nests : List Nest) :
    Passes nests nests bs rest := by
  have blanks := length_skipBlank_le bs
  rw [hskip, List.length_cons] at blanks
  simp only [Json.sequence] at h
  split at h
  · rename_i rest₁ hmark
    simp only [Option.some.injEq, Prod.mk.injEq] at h
    obtain ⟨-, rfl⟩ := h
    have shorter := length_of_mark hmark
    exact ⟨1, by omega, fun _ _ => loop_empty hskip hmark nests⟩
  · rename_i hmark
    obtain ⟨start, ⟨short, lead⟩, passes⟩ := hitem.separated h
    obtain ⟨steps, few, go⟩ := passes nests
    refine ⟨steps + 1, by omega, fun texts room width => ?_⟩
    rw [← Nat.add_assoc, loop_open hskip hmark (lead texts (by omega)), go texts (by omega)]

end Rows

/-! ### Documents -/

theorem Skims.member {value : Reader Json} (h : Skims .array value) (width : Nat) :
    Skims .object (Json.member (Quoted.read width) value) := by
  intro bs m rest hm
  simp only [Json.member] at hm
  split at hm
  · contradiction
  rename_i rest₁ hquote
  split at hm
  · contradiction
  rename_i k rest₂ hkey
  split at hm
  · contradiction
  rename_i rest₃ hcolon
  obtain ⟨v, hvalue, -⟩ := Reader.map_eq_some.1 hm
  have first := length_of_mark hquote
  have second := Quoted.length_write_le_of_read hkey
  have quoted := Quoted.length_text_lt_write k
  have third := length_of_mark hcolon
  obtain ⟨start, ⟨-, lead⟩, passes⟩ := h _ _ _ hvalue
  obtain rfl : rest₃ = start := Option.some.inj (lead rest₃.length (by omega))
  refine ⟨rest₃, ⟨by omega, fun texts room => ?_⟩, passes⟩
  have passed : text texts rest₁ = some rest₂ := text_of_read hkey (by omega)
  simp [Nest.lead, key, hquote, passed, hcolon]

theorem length_of_word {b : UInt8} {j : Json} (h : word b bs = some (j, rest)) :
    rest.length ≤ bs.length := by
  simp only [word] at h
  split_ifs at h
  all_goals
    obtain ⟨_, hexact, -⟩ := Reader.map_eq_some.1 h
    have letters := Reader.length_of_exact hexact
    omega

theorem passes_leaf {b : UInt8} {back : Bytes} (hskip : Ascii.skipBlank bs = b :: back)
    (hbracket : b ≠ Ascii.openBracket) (hbrace : b ≠ Ascii.openBrace)
    (shorter : rest.length ≤ back.length)
    (h : ∀ texts, back.length ≤ texts + rest.length → leaf texts (b :: back) = some rest)
    (nests : List Nest) : Passes nests nests bs rest := by
  have blanks := length_skipBlank_le bs
  rw [hskip, List.length_cons] at blanks
  refine ⟨1, by omega, fun texts room width => ?_⟩
  simp [loop, hskip, hbracket, hbrace, h texts (by omega)]

theorem skims_documentWith {inner : Option (Reader Json)}
    (hinner : ∀ read ∈ inner, Skims .array read) (width : Nat) :
    Skims .array (documentWith width inner) := by
  intro bs j rest h
  refine ⟨bs, ⟨Nat.le_refl _, fun _ _ => rfl⟩, ?_⟩
  simp only [documentWith] at h
  split at h
  · contradiction
  rename_i b back hskip
  split at h
  · rename_i hquote
    subst hquote
    obtain ⟨s, hread, -⟩ := Reader.map_eq_some.1 h
    have shorter := Quoted.length_write_le_of_read hread
    have quoted := Quoted.length_text_lt_write s
    refine passes_leaf hskip (by decide) (by decide) (by omega) fun texts room => ?_
    rw [leaf, if_pos rfl, text_of_read hread room]
  rename_i hquote
  split at h
  · rename_i hbracket
    subst hbracket
    cases inner with
    | none => contradiction
    | some read =>
      obtain ⟨items, hitems, -⟩ := Reader.map_eq_some.1 h
      exact (hinner read rfl).sequence hskip hitems
  rename_i hbracket
  split at h
  · rename_i hbrace
    subst hbrace
    cases inner with
    | none => contradiction
    | some read =>
      obtain ⟨members, hmembers, -⟩ := Reader.filterMap_eq_some.1 h
      exact ((hinner read rfl).member width).sequence hskip hmembers
  rename_i hbrace
  split at h
  · rename_i hdigit
    obtain ⟨n, hread, -⟩ := Reader.map_eq_some.1 h
    obtain ⟨form, shorter⟩ := Number.read_eq_some hread
    have digits := List.length_pos_iff.2 form.whole_ne_nil
    rw [Number.leastLength, List.length_cons] at shorter
    refine passes_leaf hskip hbracket hbrace (by omega) fun texts room => ?_
    rw [leaf, if_neg hquote, if_pos hdigit, hread]
    rfl
  · rename_i hdigit
    refine passes_leaf hskip hbracket hbrace (length_of_word h) fun texts room => ?_
    rw [leaf, if_neg hquote, if_neg hdigit, h]
    rfl

theorem skims_document (width depth : Nat) : Skims .array (document width depth) := by
  induction depth with
  | zero => exact skims_documentWith (by simp) width
  | succ depth ih =>
    refine skims_documentWith (fun read hread => ?_) width
    obtain rfl : document width depth = read := by simpa using hread
    exact ih

/-- Whatever a reader makes out, at whatever depth, can be passed over. -/
theorem item_of_document {j : Json} (h : document width depth bs = some (j, rest))
    (room : bs.length ≤ texts + rest.length) : item texts bs = some ((), rest) := by
  obtain ⟨start, ⟨-, lead⟩, passes⟩ := skims_document width depth bs j rest h
  obtain rfl : bs = start := Option.some.inj (lead bs.length (by omega))
  obtain ⟨steps, few, go⟩ := passes []
  obtain ⟨left, hleft⟩ : ∃ left, texts + 1 = left + 1 + steps := ⟨texts - steps, by omega⟩
  rw [item, hleft, go texts room, loop]
  rfl

/-- One surrogate alone is passed over, though no reader makes it out. -/
example : item 8 (Bytes.ofText r#""\ud800""#) = some ((), []) ∧
    parse? (Bytes.ofText r#""\ud800""#) = none := by decide +kernel

end Skim
end Json
end SeededTraits
