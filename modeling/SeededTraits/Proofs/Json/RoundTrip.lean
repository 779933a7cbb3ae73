import SeededTraits.Proofs.Json.Legible

/-! A document that has been read is read again from the text that is written of it, unless it nests
too deep or the number key has come to stand first in one of its objects. No text of a document has
fewer bytes than its least length. -/
namespace SeededTraits
namespace Json

variable {size width depth depth' : Nat} {j : Json} {bs rest : Bytes}

theorem write_array (items : List Json) :
    write (.array items) =
      Ascii.openBracket :: commaSeparated (items.map write) ++ [Ascii.closeBracket] := by
  simp [write, writeItems_eq]

def memberBytes (m : String × Json) : Bytes := Quoted.write m.1 ++ Ascii.colon :: write m.2

theorem length_memberBytes (m : String × Json) :
    (memberBytes m).length = (Quoted.write m.1).length + 1 + (write m.2).length := by
  rw [memberBytes, List.length_append, List.length_cons]
  omega

theorem write_object (members : List (String × Json)) :
    write (.object members) =
      Ascii.openBrace :: commaSeparated (members.map memberBytes) ++ [Ascii.closeBrace] := by
  simp only [write, writeMembers_eq, List.append_nil, List.reverse_reverse]
  rfl

theorem length_write_array (items : List Json) :
    (write (.array items)).length = 1 + rowLength (fun j => (write j).length) items := by
  rw [write_array, List.length_append, List.length_cons, ← rowLength_map List.length write,
    ← length_commaSeparated, List.length_singleton]
  omega

theorem length_write_object (members : List (String × Json)) :
    (write (.object members)).length = 1 + rowLength (fun m => (memberBytes m).length) members := by
  rw [write_object, List.length_append, List.length_cons, ← rowLength_map List.length memberBytes,
    ← length_commaSeparated, List.length_singleton]
  omega

theorem Number.write_start {n : Number} (h : n.WellFormed) :
    ∃ b t, n.write = b :: t ∧ (b = Ascii.minus ∨ isDigit b = true) := by
  obtain ⟨negative, whole, fraction, exponent⟩ := n
  cases negative with
  | true => exact ⟨_, _, rfl, .inl rfl⟩
  | false =>
    cases whole with
    | nil => exact absurd rfl h.whole_ne_nil
    | cons d ds => exact ⟨_, _, rfl, .inr (Number.isDigit_toByte d)⟩

theorem Number.start_cases {b : UInt8} (h : b = Ascii.minus ∨ isDigit b = true) :
    Ascii.isBlank b = false ∧ b ≠ Ascii.quote ∧ b ≠ Ascii.openBracket ∧ b ≠ Ascii.openBrace ∧
      b ≠ Ascii.closeBracket ∧ b ≠ Ascii.closeBrace := by
  rcases h with rfl | h
  · decide
  · have digit : ∀ d : Digit, Ascii.isBlank d.toByte = false ∧ d.toByte ≠ Ascii.quote ∧
        d.toByte ≠ Ascii.openBracket ∧ d.toByte ≠ Ascii.openBrace ∧
          d.toByte ≠ Ascii.closeBracket ∧ d.toByte ≠ Ascii.closeBrace := by decide
    obtain ⟨d, hd⟩ := Option.isSome_iff_exists.1 h
    rw [← Digit.toByte_of_ofByte? hd]
    exact digit d

theorem Readable.write_start (h : Readable size depth j) :
    ∃ b t, write j = b :: t ∧ Ascii.isBlank b = false ∧ b ≠ Ascii.closeBracket := by
  cases h with
  | null => exact ⟨_, _, rfl, by decide⟩
  | bool b => cases b <;> exact ⟨_, _, rfl, by decide⟩
  | number form =>
    obtain ⟨b, t, hb, hstart⟩ := Number.write_start form
    have other := Number.start_cases hstart
    exact ⟨b, t, hb, other.1, other.2.2.2.2.1⟩
  | string _ => exact ⟨_, _, rfl, by decide⟩
  | array _ _ => exact ⟨_, _, rfl, by decide⟩
  | object _ _ _ _ _ => exact ⟨_, _, rfl, by decide⟩

/-- What closes an item ends the number that it may be. -/
theorem ends_of_close {c : UInt8}
    (h : c = Ascii.comma ∨ c = Ascii.closeBracket ∨ c = Ascii.closeBrace) (rest : Bytes) :
    Number.Ends (c :: rest) := by
  constructor
  all_goals
    intro b hb
    obtain rfl : c = b := by simpa using hb
    rcases h with rfl | rfl | rfl <;> decide

/-! ### Written, then read -/

/-- A document that holds no other document reads the same at every depth. -/
theorem document_of_documentWith {result : Option (Json × Bytes)}
    (h : ∀ inner, documentWith width inner bs = result) (depth : Nat) :
    document width depth bs = result := by
  cases depth <;> exact h _

theorem document_openBracket (width depth : Nat) (rest : Bytes) :
    document width (depth + 1) (Ascii.openBracket :: rest) =
      Reader.map .array (sequence (document width depth) Ascii.closeBracket width) rest := rfl

theorem document_openBrace (width depth : Nat) (rest : Bytes) :
    document width (depth + 1) (Ascii.openBrace :: rest) =
      Reader.filterMap ofMembers?
        (sequence (member (Quoted.read width) (document width depth)) Ascii.closeBrace width)
        rest := rfl

theorem documentWith_number {n : Number} (h : n.WellFormed) (hrest : Number.Ends rest)
    (inner : Option (Reader Json)) :
    documentWith width inner (write (.number n) ++ rest) = some (.number n, rest) := by
  have number_read := Number.read_write h hrest
  obtain ⟨b, t, hb, hstart⟩ := Number.write_start h
  have other := Number.start_cases hstart
  simp only [write]
  rw [hb, List.cons_append] at number_read ⊢
  simp [documentWith, skipBlank_cons other.1, other.2.1, other.2.2.1, other.2.2.2.1, hstart,
    Reader.map, number_read]

theorem documentWith_string {s : String} (h : (Bytes.ofText s).length < width)
    (inner : Option (Reader Json)) :
    documentWith width inner (write (.string s) ++ rest) = some (.string s, rest) := by
  have content_read := Quoted.read_write s width rest h
  simp [documentWith, write, Quoted.write, skipBlank_cons (b := Ascii.quote) (by decide),
    Reader.map, content_read]

theorem member_memberBytes {value : Reader Json} {m : String × Json} {ok : Bool}
    (hkey : (Bytes.ofText m.1).length < width)
    (hvalue : value (write m.2 ++ rest) = if ok then some (m.2, rest) else none) :
    member (Quoted.read width) value (memberBytes m ++ rest) =
      if ok then some (m, rest) else none := by
  have key := Quoted.read_write m.1 width (Ascii.colon :: (write m.2 ++ rest)) hkey
  cases ok <;>
    simp_all [member, memberBytes, Quoted.write, mark_self (b := Ascii.quote) (by decide),
      mark_self (b := Ascii.colon) (by decide), Reader.map]

theorem document_write_array {items : List Json} (readable : ∀ j ∈ items, Readable size depth' j)
    (hwidth : (write (.array items)).length ≤ width)
    (value : ∀ j ∈ items, (write j).length ≤ width → ∀ c,
      c = Ascii.comma ∨ c = Ascii.closeBracket → ∀ rest,
        document width depth (write j ++ c :: rest) =
          if legible depth j then some (j, c :: rest) else none) (rest : Bytes) :
    document width (depth + 1) (write (.array items) ++ rest) =
      if items.all (legible depth) then some (.array items, rest) else none := by
  rw [length_write_array] at hwidth
  have few := length_le_rowLength (fun j => (write j).length) items
  have item (j : Json) (hj : j ∈ items) (c : UInt8)
      (hc : c = Ascii.comma ∨ c = Ascii.closeBracket) (rest : Bytes) :
      document width depth (write j ++ c :: rest) =
        if legible depth j then some (j, c :: rest) else none := by
    have short := le_rowLength (fun j => (write j).length) hj
    exact value j hj (by omega) c hc rest
  have listed : sequence (document width depth) Ascii.closeBracket width
      (commaSeparated (items.map write) ++ Ascii.closeBracket :: rest) =
        if items.all (legible depth) then some (items.map id, rest) else none :=
    sequence_commaSeparated (by decide) (by decide) (fun j hj => (readable j hj).write_start) item
      (by omega) rest
  simp only [write_array, List.cons_append, List.append_assoc, List.nil_append,
    document_openBracket, Reader.map, listed, List.map_id]
  cases items.all (legible depth) <;> rfl

section Members

variable {members : List (String × Json)}

/-- Members are read one after another as they were written. -/
theorem sequence_memberBytes (hwidth : (write (.object members)).length ≤ width)
    (value : ∀ m ∈ members, (write m.2).length ≤ width → ∀ c,
      c = Ascii.comma ∨ c = Ascii.closeBrace → ∀ rest,
        document width depth (write m.2 ++ c :: rest) =
          if legible depth m.2 then some (m.2, c :: rest) else none) (rest : Bytes) :
    sequence (member (Quoted.read width) (document width depth)) Ascii.closeBrace width
        (commaSeparated (members.map memberBytes) ++ Ascii.closeBrace :: rest) =
      if members.all (fun m => legible depth m.2) then some (members, rest) else none := by
  rw [length_write_object] at hwidth
  have few := length_le_rowLength (fun m => (memberBytes m).length) members
  have item (m : String × Json) (hm : m ∈ members) (c : UInt8)
      (hc : c = Ascii.comma ∨ c = Ascii.closeBrace) (rest : Bytes) :
      member (Quoted.read width) (document width depth) (memberBytes m ++ c :: rest) =
        if legible depth m.2 then some (m, c :: rest) else none := by
    have short := le_rowLength (fun m => (memberBytes m).length) hm
    have key := Quoted.length_text_lt_write m.1
    have parts := length_memberBytes m
    exact member_memberBytes (by omega) (value m hm (by omega) c hc rest)
  have listed : sequence (member (Quoted.read width) (document width depth)) Ascii.closeBrace width
      (commaSeparated (members.map memberBytes) ++ Ascii.closeBrace :: rest) =
        if members.all (fun m => legible depth m.2) then some (members.map id, rest) else none :=
    sequence_commaSeparated (by decide) (by decide)
      (fun m _ => ⟨Ascii.quote, _, rfl, by decide, by decide⟩) item (by omega) rest
  rwa [List.map_id] at listed

/-- They are put in order only when all of them have been read. -/
theorem document_write_object (hwidth : (write (.object members)).length ≤ width)
    (value : ∀ m ∈ members, (write m.2).length ≤ width → ∀ c,
      c = Ascii.comma ∨ c = Ascii.closeBrace → ∀ rest,
        document width depth (write m.2 ++ c :: rest) =
          if legible depth m.2 then some (m.2, c :: rest) else none) (rest : Bytes) :
    document width (depth + 1) (write (.object members) ++ rest) =
      if members.all (fun m => legible depth m.2) then (ofMembers? members).map fun j => (j, rest)
      else none := by
  simp only [write_object, List.cons_append, List.append_assoc, List.nil_append,
    document_openBrace, Reader.filterMap, sequence_memberBytes hwidth value rest]
  cases members.all fun m => legible depth m.2
  · rfl
  · cases hmembers : ofMembers? members <;> simp [hmembers]

end Members

/-- Only after a number does it matter what follows. -/
theorem document_write (h : Readable size depth' j) (hwidth : (write j).length ≤ width)
    (hrest : ∀ n, j = .number n → Number.Ends rest) :
    document width depth (write j ++ rest) =
      if legible depth j then some (j, rest) else none := by
  induction h generalizing depth rest with
  | null => exact document_of_documentWith (fun inner => rfl) _
  | bool b => cases b <;> exact document_of_documentWith (fun inner => rfl) _
  | number form =>
    exact document_of_documentWith (documentWith_number form (hrest _ rfl)) _
  | @string _ s _ =>
    have room : (Bytes.ofText s).length < width :=
      Nat.lt_of_lt_of_le (Quoted.length_text_lt_write s) hwidth
    exact document_of_documentWith (documentWith_string room) _
  | @array _ items _ inner ih =>
    cases depth with
    | zero =>
      rw [legible_zero_array, write_array]
      rfl
    | succ depth =>
      have value (j : Json) (hj : j ∈ items) (short : (write j).length ≤ width) (c : UInt8)
          (hc : c = Ascii.comma ∨ c = Ascii.closeBracket) (rest : Bytes) :
          document width depth (write j ++ c :: rest) =
            if legible depth j then some (j, c :: rest) else none :=
        ih j hj short fun _ _ => ends_of_close (hc.imp id .inl) rest
      rw [document_write_array inner hwidth value rest, legible_succ_array]
  | @object _ members _ ascending others _ _ ih =>
    cases depth with
    | zero =>
      rw [legible_zero_object, write_object]
      rfl
    | succ depth =>
      have value (m : String × Json) (hm : m ∈ members) (short : (write m.2).length ≤ width)
          (c : UInt8) (hc : c = Ascii.comma ∨ c = Ascii.closeBrace) (rest : Bytes) :
          document width depth (write m.2 ++ c :: rest) =
            if legible depth m.2 then some (m.2, c :: rest) else none :=
        ih m hm short fun _ _ => ends_of_close (hc.imp id .inr) rest
      rw [document_write_object hwidth value rest, legible_succ_object]
      cases front : opensPlain members with
      | true =>
        rw [ofMembers?_of_opensPlain front, ofMembers, KeyOrder.lastOfEach_of_ascending ascending]
        rfl
      | false =>
        rw [ofMembers?_of_not_opensPlain front others]
        simp

/-! ### Read, then readable -/

/-- The first letter of a word stands before what is read here. -/
theorem word_eq_some {b : UInt8} (h : word b bs = some (j, rest)) :
    Readable size depth j ∧ leastLength j + rest.length ≤ bs.length + 1 := by
  simp only [word] at h
  split at h
  · obtain ⟨_, hexact, rfl⟩ := Reader.map_eq_some.1 h
    have letters := Reader.length_of_exact hexact
    exact ⟨.null, by simp [leastLength, letters]; omega⟩
  split at h
  · obtain ⟨_, hexact, rfl⟩ := Reader.map_eq_some.1 h
    have letters := Reader.length_of_exact hexact
    exact ⟨.bool true, by simp [leastLength, letters]; omega⟩
  split at h
  · obtain ⟨_, hexact, rfl⟩ := Reader.map_eq_some.1 h
    have letters := Reader.length_of_exact hexact
    exact ⟨.bool false, by simp [leastLength, letters]; omega⟩
  · contradiction

theorem member_eq_some {value : Reader Json} {m : String × Json}
    (h : member (Quoted.read width) value bs = some (m, rest)) :
    ∃ text, value text = some (m.2, rest) ∧
      (Quoted.write m.1).length + 1 + text.length ≤ bs.length := by
  simp only [member] at h
  split at h
  · contradiction
  rename_i rest₁ hquote
  split at h
  · contradiction
  rename_i k rest₂ hkey
  split at h
  · contradiction
  rename_i rest₃ hcolon
  obtain ⟨v, hvalue, rfl⟩ := Reader.map_eq_some.1 h
  have first := length_of_mark hquote
  have second := Quoted.length_write_le_of_read hkey
  have third := length_of_mark hcolon
  exact ⟨rest₃, hvalue, by simp only; omega⟩

theorem Finds.member {value : Reader Json} (h : Finds (Readable size depth) leastLength size value)
    (width : Nat) :
    Finds (fun m => (Bytes.ofText m.1).length ≤ size ∧ Readable size depth m.2) leastLengthOfMember
      size (member (Quoted.read width) value) := by
  intro bs m rest hbs hm
  obtain ⟨text, hvalue, room⟩ := member_eq_some hm
  obtain ⟨readable, shorter⟩ := h text m.2 rest (by omega) hvalue
  have key := Quoted.length_text_lt_write m.1
  exact ⟨⟨by omega, readable⟩, by rw [leastLengthOfMember]; omega⟩

section Nested

variable {value : Reader Json} {close : UInt8}

/-- A bracket stands before what is read here. -/
theorem Finds.array_eq_some {items : List Json}
    (hvalue : Finds (Readable size depth) leastLength size value) (hsize : bs.length ≤ size)
    (h : Json.sequence value close width bs = some (items, rest)) :
    Readable size (depth + 1) (.array items) ∧
      leastLength (.array items) + rest.length ≤ bs.length + 1 := by
  obtain ⟨all, fewer⟩ := hvalue.sequence hsize h
  have count := length_le_rowLength leastLength items
  exact ⟨.array (by omega) all, by rw [leastLength_array]; omega⟩

theorem Finds.object_eq_some {members : List (String × Json)}
    (hvalue : Finds (Readable size depth) leastLength size value) (hsize : bs.length ≤ size)
    (h : Json.sequence (Json.member (Quoted.read width) value) close width bs =
      some (members, rest))
    (hj : ofMembers? members = some j) :
    Readable size (depth + 1) j ∧ leastLength j + rest.length ≤ bs.length + 1 := by
  obtain ⟨all, fewer⟩ := (hvalue.member width).sequence hsize h
  rcases ofMembers?_eq_some hj with ⟨plain, rfl⟩ | ⟨s, n, rfl, hn, rfl⟩
  · have count := length_le_rowLength leastLengthOfMember members
    have kept := KeyOrder.length_lastOfEach_le members
    have length := leastLength_ofMembers_le members
    have old (m : String × Json) (hm : m ∈ KeyOrder.lastOfEach members) :=
      all m (KeyOrder.mem_of_mem_lastOfEach hm)
    exact ⟨.object (by omega) (KeyOrder.ascending_lastOfEach members) (lastOfEach_ne_number plain)
      (fun m hm => (old m hm).1) (fun m hm => (old m hm).2), by omega⟩
  · obtain ⟨form, digits⟩ := Number.read_eq_some (Number.ofText?_eq_some hn)
    have quoted := Quoted.length_text_lt_write s
    have one :=
      le_rowLength leastLengthOfMember (List.mem_singleton_self (numberKey, Json.string s))
    rw [leastLengthOfMember, leastLength] at one
    exact ⟨.number form, by rw [leastLength]; omega⟩

end Nested

theorem finds_documentWith {inner : Option (Reader Json)}
    (hinner : ∀ read ∈ inner, ∃ d, depth = d + 1 ∧ Finds (Readable size d) leastLength size read)
    (width : Nat) : Finds (Readable size depth) leastLength size (documentWith width inner) := by
  intro bs j rest hsize h
  have blanks := length_skipBlank_le bs
  simp only [documentWith] at h
  split at h
  · contradiction
  rename_i b rest₁ hskip
  rw [hskip, List.length_cons] at blanks
  have room : rest₁.length ≤ size := by omega
  split at h
  · obtain ⟨s, hread, rfl⟩ := Reader.map_eq_some.1 h
    have shorter := Quoted.length_write_le_of_read hread
    have text := Quoted.length_text_lt_write s
    exact ⟨.string (by omega), by rw [leastLength]; omega⟩
  split at h
  · cases inner with
    | none => contradiction
    | some read =>
      obtain ⟨d, rfl, hread⟩ := hinner read rfl
      obtain ⟨items, hitems, rfl⟩ := Reader.map_eq_some.1 h
      obtain ⟨readable, shorter⟩ := hread.array_eq_some room hitems
      exact ⟨readable, by omega⟩
  split at h
  · cases inner with
    | none => contradiction
    | some read =>
      obtain ⟨d, rfl, hread⟩ := hinner read rfl
      obtain ⟨members, hmembers, hj⟩ := Reader.filterMap_eq_some.1 h
      obtain ⟨readable, shorter⟩ := hread.object_eq_some room hmembers hj
      exact ⟨readable, by omega⟩
  split at h
  · obtain ⟨n, hread, rfl⟩ := Reader.map_eq_some.1 h
    obtain ⟨form, shorter⟩ := Number.read_eq_some hread
    rw [List.length_cons] at shorter
    exact ⟨.number form, by rw [leastLength]; omega⟩
  · obtain ⟨readable, shorter⟩ := word_eq_some h
    exact ⟨readable, by omega⟩

theorem finds_document (size width depth : Nat) :
    Finds (Readable size depth) leastLength size (document width depth) := by
  induction depth with
  | zero => exact finds_documentWith (by simp) width
  | succ depth ih =>
    refine finds_documentWith (fun read hread => ⟨depth, rfl, ?_⟩) width
    obtain rfl : document width depth = read := by simpa using hread
    exact ih

theorem whole?_eq_some {α : Type} {read : Reader α} {a : α} (h : whole? read bs = some a) :
    ∃ rest, read bs = some (a, rest) ∧ Ascii.skipBlank rest = [] := by
  simp only [whole?] at h
  split at h
  · contradiction
  rename_i a' rest hread
  split at h
  · rename_i blank
    rw [← Option.some.inj h]
    exact ⟨rest, hread, by simpa using blank⟩
  · contradiction

theorem Readable.of_parse? (h : parse? bs = some j) : Readable bs.length maxDepth j := by
  obtain ⟨rest, hread, -⟩ := whole?_eq_some h
  exact (finds_document _ _ _ _ _ _ (Nat.le_refl _) hread).1

theorem leastLength_le_of_parse? (h : parse? bs = some j) : leastLength j ≤ bs.length := by
  obtain ⟨rest, hread, -⟩ := whole?_eq_some h
  have whole := (finds_document _ _ _ _ _ _ (Nat.le_refl _) hread).2
  omega

theorem parse?_write (h : Readable size depth j) :
    parse? (write j) = if legible maxDepth j then some j else none := by
  have whole : document (write j).length maxDepth (write j ++ []) =
      if legible maxDepth j then some (j, []) else none :=
    document_write h (Nat.le_refl _) fun _ _ => Number.ends_nil
  rw [List.append_nil] at whole
  cases hlegible : legible maxDepth j <;> simp [parse?, whole?, whole, hlegible, Ascii.skipBlank]

section Members

variable {members members' : List (String × Json)}

theorem document_write_member (inner : ∀ m ∈ members, Readable size depth m.2)
    (m : String × Json) (hm : m ∈ members) (short : (write m.2).length ≤ width) (c : UInt8)
    (hc : c = Ascii.comma ∨ c = Ascii.closeBrace) (rest : Bytes) :
    document width depth (write m.2 ++ c :: rest) =
      if legible depth m.2 then some (m.2, c :: rest) else none :=
  document_write (inner m hm) short fun _ _ => ends_of_close (hc.imp id .inr) rest

/-- Written members that are not in order, or not each key once, are read as members all the same.
-/
theorem parse?_write_object (hdepth : depth + 1 = maxDepth)
    (inner : ∀ m ∈ members, Readable size depth m.2)
    (plain : ∀ m ∈ members, legible depth m.2 = true) :
    parse? (write (.object members)) = ofMembers? members := by
  have whole := document_write_object (Nat.le_refl _) (document_write_member inner) []
  rw [List.append_nil, hdepth, if_pos (List.all_eq_true.2 plain)] at whole
  cases hmembers : ofMembers? members <;> simp [parse?, whole?, whole, hmembers, Ascii.skipBlank]

/-- Members tell where they end, whether or not an object is made of them. -/
theorem eq_of_write_object_append (inner : ∀ m ∈ members, Readable size depth m.2)
    (plain : ∀ m ∈ members, legible depth m.2 = true)
    (inner' : ∀ m ∈ members', Readable size depth m.2)
    (plain' : ∀ m ∈ members', legible depth m.2 = true)
    (h : write (.object members) ++ rest = write (.object members')) : members = members' := by
  have short : (write (.object members)).length ≤ (write (.object members')).length := by
    rw [← h, List.length_append]
    exact Nat.le_add_right _ _
  have first := sequence_memberBytes short (document_write_member inner) rest
  have second := sequence_memberBytes (Nat.le_refl _) (document_write_member inner') []
  have same : commaSeparated (members.map memberBytes) ++ Ascii.closeBrace :: rest =
      commaSeparated (members'.map memberBytes) ++ [Ascii.closeBrace] := by
    simpa [write_object] using h
  rw [same, second, if_pos (List.all_eq_true.2 plain), if_pos (List.all_eq_true.2 plain')] at first
  exact (congrArg Prod.fst (Option.some.inj first)).symm

end Members

/-! ### Nothing but levels -/

/-- An empty array inside `n` others. -/
def brackets : (n : Nat) → Json
  | 0 => .array []
  | n + 1 => .array [brackets n]

theorem nesting_brackets (n : Nat) : nesting (brackets n) = n + 1 := by
  induction n with
  | zero => rfl
  | succ n ih => simp [brackets, nesting, nestingOfItems, ih]

theorem legible_brackets (depth n : Nat) : legible depth (brackets n) = decide (n + 1 ≤ depth) := by
  have plain : (brackets n).isPlain = true := by
    induction n with
    | zero => rfl
    | succ n ih => simpa [brackets] using ih
  rw [legible, plain, nesting_brackets, Bool.true_and]

theorem readable_brackets (n : Nat) : Readable 1 (n + 1) (brackets n) := by
  induction n with
  | zero => exact .array (by simp) (by simp)
  | succ n ih => exact .array (by simp) (by simpa using ih)

theorem write_brackets (n : Nat) :
    (brackets n).write =
      List.replicate (n + 1) Ascii.openBracket ++ List.replicate (n + 1) Ascii.closeBracket := by
  induction n with
  | zero => rfl
  | succ n ih =>
    have last := List.replicate_succ' (n := n + 1) (a := Ascii.closeBracket)
    rw [brackets, write_array, List.map_singleton, commaSeparated_singleton, ih, last,
      List.replicate_succ (n := n + 1)]
    simp only [List.cons_append, List.append_assoc]

theorem parse?_brackets {n : Nat} (h : n < maxDepth) :
    parse? (Bytes.ofText
        (String.ofList (List.replicate (n + 1) '[' ++ List.replicate (n + 1) ']'))) =
      some (brackets n) := by
  have first : String.utf8EncodeChar '[' = [Ascii.openBracket] := by decide
  have last : String.utf8EncodeChar ']' = [Ascii.closeBracket] := by decide
  rw [Bytes.ofText_ofList, List.flatMap_append, List.flatMap_replicate, List.flatMap_replicate,
    first, last, List.flatten_replicate_singleton, List.flatten_replicate_singleton,
    ← write_brackets]
  have shallow : legible maxDepth (brackets n) = true := by
    rw [legible_brackets]
    exact decide_eq_true h
  rw [parse?_write (readable_brackets n), if_pos shallow]

end Json
end SeededTraits
