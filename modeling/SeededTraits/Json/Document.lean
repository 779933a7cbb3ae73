import SeededTraits.Bytes
import SeededTraits.Json.Number
import SeededTraits.KeyOrder

/-! JSON documents, strictly read and compactly written. Arrays and objects nest to a fixed depth;
`width` bounds the members of one of them and the length of one text, for which the length of the
input is always enough. Reading undoes all escapes; writing uses none that can be avoided, no
blanks, and numbers as they were read. -/
namespace SeededTraits

inductive Json
  | null
  | bool (b : Bool)
  | number (n : Json.Number)
  | string (s : String)
  | array (items : List Json)
  /-- Members in key order, each key once. -/
  | object (members : List (String × Json))

namespace Json

/-- The object in which a repeated key keeps its last value. -/
def ofMembers (members : List (String × Json)) : Json :=
  .object (KeyOrder.lastOfEach members)

def Number.ofText? (s : String) : Option Number :=
  match Number.read (Bytes.ofText s) with
  | some (n, []) => some n
  | _ => none

/-- The key under which a number may stand as text. -/
def numberKey : String := "$serde_json::private::Number"

/-- What members stand for that came in this order. Where the number key comes first, they are the
number under it, and there must be no other member. -/
def ofMembers? (members : List (String × Json)) : Option Json :=
  match members with
  | [] => some (ofMembers [])
  | (key, j) :: rest =>
    if key = numberKey then
      match j, rest with
      | .string s, [] => (Number.ofText? s).map .number
      | _, _ => none
    else some (ofMembers members)

mutual

def toValue : Json → Value
  | .null => .null
  | .bool b => .bool b
  | .number n => n.toValue
  | .string s => .text s
  | .array items => .array (toValues [] items).reverse
  | .object members => .map (toEntries [] members).reverse

/-- The values, last one first, on top of those already done. -/
def toValues (done : List Value) : List Json → List Value
  | [] => done
  | j :: rest => toValues (toValue j :: done) rest

def toEntries (done : List (Value × Value)) : List (String × Json) → List (Value × Value)
  | [] => done
  | (k, j) :: rest => toEntries ((.text k, toValue j) :: done) rest

end

theorem toValues_eq (done : List Value) (items : List Json) :
    toValues done items = (items.map toValue).reverse ++ done := by
  induction items generalizing done with
  | nil => simp [toValues]
  | cons j rest ih => simp [toValues, ih]

theorem toEntries_eq (done : List (Value × Value)) (members : List (String × Json)) :
    toEntries done members =
      (members.map fun m => (Value.text m.1, toValue m.2)).reverse ++ done := by
  induction members generalizing done with
  | nil => simp [toEntries]
  | cons m rest ih =>
    obtain ⟨k, j⟩ := m
    simp [toEntries, ih]

@[simp] theorem toValue_array (items : List Json) :
    toValue (.array items) = .array (items.map toValue) := by
  simp [toValue, toValues_eq]

@[simp] theorem toValue_object (members : List (String × Json)) :
    toValue (.object members) = .map (members.map fun m => (Value.text m.1, toValue m.2)) := by
  simp [toValue, toEntries_eq]

end Json

/-! ### Quoted text -/

namespace Json
namespace Quoted

def plainEscape? (letter : UInt8) : Option UInt8 :=
  if letter = Ascii.quote ∨ letter = Ascii.backslash ∨ letter = Ascii.slash then some letter
  else if letter = Ascii.lowerB then some 0x08
  else if letter = Ascii.lowerF then some 0x0c
  else if letter = Ascii.lowerN then some Ascii.lineFeed
  else if letter = Ascii.lowerR then some Ascii.carriageReturn
  else if letter = Ascii.lowerT then some Ascii.tab
  else none

def hexValue? (b : UInt8) : Option Nat :=
  if 48 ≤ b ∧ b < 58 then some (b.toNat - 48)
  else if 65 ≤ b ∧ b < 71 then some (b.toNat - 55)
  else if 97 ≤ b ∧ b < 103 then some (b.toNat - 87)
  else none

def hexNumber? : (high : Nat) → Bytes → Option Nat
  | high, [] => some high
  | high, b :: rest =>
    match hexValue? b with
    | none => none
    | some d => hexNumber? (16 * high + d) rest

def unit16 : Reader Nat :=
  Reader.filterMap (hexNumber? 0) (Reader.take 4)

/-- The UTF-8 bytes of a code point that is not a surrogate. -/
def scalarBytes? (n : Nat) : Option Bytes :=
  if n.isValidChar then some (String.utf8EncodeChar (Char.ofNat n)) else none

/-- What follows `\u`: one unit, or a leading surrogate and, escaped in turn, a trailing one. -/
def unicodeEscape : Reader Bytes := fun bs =>
  match unit16 bs with
  | none => none
  | some (high, rest) =>
    if 0xd800 ≤ high ∧ high < 0xdc00 then
      match Reader.exact [Ascii.backslash, Ascii.lowerU] rest with
      | none => none
      | some (_, rest) =>
        match unit16 rest with
        | none => none
        | some (low, rest) =>
          if 0xdc00 ≤ low ∧ low < 0xe000 then
            (scalarBytes? (0x10000 + (high - 0xd800) * 0x400 + (low - 0xdc00))).map
              fun b => (b, rest)
          else none
    else (scalarBytes? high).map fun b => (b, rest)

def escapeSequence : Reader Bytes
  | [] => none
  | letter :: rest =>
    if letter = Ascii.lowerU then unicodeEscape rest
    else (plainEscape? letter).map fun b => ([b], rest)

/-- The bytes up to the closing quote, of which `width` bounds the number of steps and `done` holds
those read so far, last one first. -/
def content (escape : Reader Bytes) : (width : Nat) → (done : Bytes) → Reader Bytes
  | 0, _, _ => none
  | _ + 1, _, [] => none
  | width + 1, done, b :: rest =>
    if b = Ascii.quote then some (done.reverse, rest)
    else if b = Ascii.backslash then
      match escape rest with
      | none => none
      | some (bytes, rest) => content escape width (bytes.reverse ++ done) rest
    else if b < Ascii.space then none
    else content escape width (b :: done) rest

def read (width : Nat) : Reader String :=
  Reader.filterMap Bytes.text? (content escapeSequence width [])

def writeByte (b : UInt8) : Bytes :=
  if b = Ascii.quote ∨ b = Ascii.backslash then [Ascii.backslash, b]
  else if b = 0x08 then [Ascii.backslash, Ascii.lowerB]
  else if b = 0x0c then [Ascii.backslash, Ascii.lowerF]
  else if b = Ascii.lineFeed then [Ascii.backslash, Ascii.lowerN]
  else if b = Ascii.carriageReturn then [Ascii.backslash, Ascii.lowerR]
  else if b = Ascii.tab then [Ascii.backslash, Ascii.lowerT]
  else if b < Ascii.space then
    [Ascii.backslash, Ascii.lowerU] ++ Bytes.hexPair 0 ++ Bytes.hexPair b
  else [b]

def write (s : String) : Bytes :=
  Ascii.quote :: (Bytes.ofText s).flatMap writeByte ++ [Ascii.quote]

end Quoted
end Json

/-! ### Reading -/

namespace Json

/-- The deepest nesting of arrays and objects. -/
def maxDepth : Nat := 127

def mark (b : UInt8) (bs : Bytes) : Option Bytes :=
  match Ascii.skipBlank bs with
  | [] => none
  | c :: rest => if c = b then some rest else none

/-- Items between commas up to `close`, the next item still to come. -/
def separated {α : Type} (item : Reader α) (close : UInt8) :
    (width : Nat) → (done : List α) → Reader (List α)
  | 0, _, _ => none
  | width + 1, done, bs =>
    match item bs with
    | none => none
    | some (a, rest) =>
      match Ascii.skipBlank rest with
      | [] => none
      | c :: rest =>
        if c = Ascii.comma then separated item close width (a :: done) rest
        else if c = close then some ((a :: done).reverse, rest)
        else none

def sequence {α : Type} (item : Reader α) (close : UInt8) (width : Nat) : Reader (List α) :=
  fun bs =>
    match mark close bs with
    | some rest => some ([], rest)
    | none => separated item close width [] bs

def member {α : Type} (key : Reader String) (value : Reader α) : Reader (String × α) := fun bs =>
  match mark Ascii.quote bs with
  | none => none
  | some rest =>
    match key rest with
    | none => none
    | some (k, rest) =>
      match mark Ascii.colon rest with
      | none => none
      | some rest => Reader.map (fun v => (k, v)) value rest

/-- The rest of `null`, `true` or `false`, by first letter. -/
def word (initial : UInt8) : Reader Json := fun bs =>
  if initial = Ascii.lowerN then
    Reader.map (fun _ => .null) (Reader.exact [0x75, 0x6c, 0x6c]) bs
  else if initial = Ascii.lowerT then
    Reader.map (fun _ => .bool true) (Reader.exact [0x72, 0x75, 0x65]) bs
  else if initial = Ascii.lowerF then
    Reader.map (fun _ => .bool false) (Reader.exact [0x61, 0x6c, 0x73, 0x65]) bs
  else none

/-- One document, `inner` reading what it holds; where there is no `inner`, nothing may nest. -/
def documentWith (width : Nat) (inner : Option (Reader Json)) : Reader Json := fun bs =>
  match Ascii.skipBlank bs with
  | [] => none
  | b :: rest =>
    if b = Ascii.quote then Reader.map .string (Quoted.read width) rest
    else if b = Ascii.openBracket then
      match inner with
      | none => none
      | some inner => Reader.map .array (sequence inner Ascii.closeBracket width) rest
    else if b = Ascii.openBrace then
      match inner with
      | none => none
      | some inner =>
        Reader.filterMap ofMembers?
          (sequence (member (Quoted.read width) inner) Ascii.closeBrace width) rest
    else if b = Ascii.minus ∨ isDigit b = true then Reader.map .number Number.read (b :: rest)
    else word b rest

def document (width : Nat) : (depth : Nat) → Reader Json
  | 0, bs => documentWith width none bs
  | depth + 1, bs => documentWith width (some fun bs => document width depth bs) bs

/-- What `read` makes of a byte string that holds one such thing and, but for blanks, nothing
else. -/
def whole? {α : Type} (read : Reader α) (bs : Bytes) : Option α :=
  match read bs with
  | none => none
  | some (a, rest) => if (Ascii.skipBlank rest).isEmpty then some a else none

def parse? (bs : Bytes) : Option Json :=
  whole? (document bs.length maxDepth) bs

end Json

/-! ### Writing -/

namespace Json

def commaSeparated (pieces : List Bytes) : Bytes :=
  (pieces.intersperse [Ascii.comma]).flatten

mutual

def write : Json → Bytes
  | .null => [0x6e, 0x75, 0x6c, 0x6c]
  | .bool true => [0x74, 0x72, 0x75, 0x65]
  | .bool false => [0x66, 0x61, 0x6c, 0x73, 0x65]
  | .number n => n.write
  | .string s => Quoted.write s
  | .array items =>
    Ascii.openBracket :: commaSeparated (writeItems [] items).reverse ++ [Ascii.closeBracket]
  | .object members =>
    Ascii.openBrace :: commaSeparated (writeMembers [] members).reverse ++ [Ascii.closeBrace]

/-- The written items, last one first, on top of those already done. -/
def writeItems (done : List Bytes) : List Json → List Bytes
  | [] => done
  | j :: rest => writeItems (write j :: done) rest

def writeMembers (done : List Bytes) : List (String × Json) → List Bytes
  | [] => done
  | (k, j) :: rest => writeMembers ((Quoted.write k ++ Ascii.colon :: write j) :: done) rest

end

theorem writeItems_eq (done : List Bytes) (items : List Json) :
    writeItems done items = (items.map write).reverse ++ done := by
  induction items generalizing done with
  | nil => simp [writeItems]
  | cons j rest ih => simp [writeItems, ih]

theorem writeMembers_eq (done : List Bytes) (members : List (String × Json)) :
    writeMembers done members =
      (members.map fun m => Quoted.write m.1 ++ Ascii.colon :: write m.2).reverse ++ done := by
  induction members generalizing done with
  | nil => simp [writeMembers]
  | cons m rest ih =>
    obtain ⟨k, j⟩ := m
    simp [writeMembers, ih]

end Json

end SeededTraits
