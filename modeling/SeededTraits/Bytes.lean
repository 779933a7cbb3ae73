/-! Byte strings: their hexadecimal text, big-endian numbers and UTF-8, the ASCII bytes that JSON
text is built from, and readers, which take something off the front of a byte string and hand back
what follows it. -/
namespace SeededTraits

abbrev Bytes := List UInt8

namespace Bytes

def hexDigit (n : UInt8) : UInt8 :=
  if n < 10 then 48 + n else 87 + n

/-- A byte as two hexadecimal digits, the high half first. -/
def hexPair (b : UInt8) : Bytes :=
  [hexDigit (b / 16), hexDigit (b % 16)]

def hex (bs : Bytes) : String :=
  String.ofList ((bs.flatMap hexPair).map fun digit => Char.ofNat digit.toNat)

/-- The low `width` bytes of `n`, most significant first. -/
def bigEndian : (width n : Nat) → Bytes
  | 0, _ => []
  | width + 1, n => UInt8.ofNat (n >>> (8 * width)) :: bigEndian width n

@[simp] theorem length_bigEndian (width n : Nat) : (bigEndian width n).length = width := by
  induction width with
  | zero => rfl
  | succ width ih => simp [bigEndian, ih]

/-- The number that the bytes write, most significant first. -/
def toNat (bs : Bytes) : Nat :=
  bs.foldl (fun n b => 256 * n + b.toNat) 0

@[simp] theorem toNat_nil : toNat [] = 0 := rfl

/-- The bytes of a number without leading zeros; zero has none. -/
def minimal (n : Nat) : Bytes :=
  if n = 0 then [] else bigEndian (n.log2 / 8 + 1) n

def ofText (s : String) : Bytes :=
  s.toByteArray.data.toList

def text? (bs : Bytes) : Option String :=
  String.fromUTF8? bs.toByteArray

theorem ofText_injective {s t : String} (h : ofText s = ofText t) : s = t := by
  apply String.toByteArray_inj.1
  exact ByteArray.ext (Array.toList_inj.1 h)

theorem text?_eq_some_iff {bs : Bytes} {s : String} : text? bs = some s ↔ ofText s = bs := by
  unfold text? String.fromUTF8?
  have hdata : bs.toByteArray.data.toList = bs := by rw [List.data_toByteArray]
  constructor
  · intro h
    split at h
    · rw [← Option.some.inj h]
      exact hdata
    · contradiction
  · intro h
    have hs : s.toByteArray = bs.toByteArray := by
      apply ByteArray.ext
      rw [List.data_toByteArray, ← h]
      rfl
    have valid := s.isValidUTF8
    rw [hs] at valid
    rw [dif_pos valid]
    exact congrArg some (String.toByteArray_inj.1 hs.symm)

@[simp] theorem text?_ofText (s : String) : text? (ofText s) = some s :=
  text?_eq_some_iff.2 rfl

end Bytes

/-! ### ASCII -/

namespace Ascii

def tab : UInt8 := 0x09
def lineFeed : UInt8 := 0x0a
def carriageReturn : UInt8 := 0x0d
def space : UInt8 := 0x20
def quote : UInt8 := 0x22
def plus : UInt8 := 0x2b
def comma : UInt8 := 0x2c
def minus : UInt8 := 0x2d
def point : UInt8 := 0x2e
def slash : UInt8 := 0x2f
def colon : UInt8 := 0x3a
def upperE : UInt8 := 0x45
def openBracket : UInt8 := 0x5b
def backslash : UInt8 := 0x5c
def closeBracket : UInt8 := 0x5d
def lowerB : UInt8 := 0x62
def lowerE : UInt8 := 0x65
def lowerF : UInt8 := 0x66
def lowerN : UInt8 := 0x6e
def lowerR : UInt8 := 0x72
def lowerT : UInt8 := 0x74
def lowerU : UInt8 := 0x75
def openBrace : UInt8 := 0x7b
def closeBrace : UInt8 := 0x7d

def isBlank (b : UInt8) : Bool :=
  b == space || b == tab || b == lineFeed || b == carriageReturn

def skipBlank (bs : List UInt8) : List UInt8 :=
  bs.dropWhile isBlank

end Ascii

/-! ### Readers -/

abbrev Reader (α : Type) := Bytes → Option (α × Bytes)

namespace Reader

def take (n : Nat) : Reader Bytes := fun bs =>
  let front := bs.take n
  if front.length = n then some (front, bs.drop n) else none

theorem take_eq_some_iff {n : Nat} {bs front rest : Bytes} :
    take n bs = some (front, rest) ↔ bs = front ++ rest ∧ front.length = n := by
  simp only [take]
  constructor
  · intro h
    split at h
    · rename_i hlen
      simp only [Option.some.injEq, Prod.mk.injEq] at h
      obtain ⟨rfl, rfl⟩ := h
      exact ⟨(List.take_append_drop n bs).symm, hlen⟩
    · contradiction
  · rintro ⟨rfl, rfl⟩
    simp

theorem take_append (front rest : Bytes) :
    take front.length (front ++ rest) = some (front, rest) :=
  take_eq_some_iff.2 ⟨rfl, rfl⟩

def exact (word : Bytes) : Reader Unit := fun bs =>
  if word.isPrefixOf bs then some ((), bs.drop word.length) else none

def map {α β : Type} (f : α → β) (read : Reader α) : Reader β := fun bs =>
  (read bs).map fun (a, rest) => (f a, rest)

def both {α β : Type} (first : Reader α) (second : Reader β) : Reader (α × β) := fun bs =>
  match first bs with
  | none => none
  | some (a, rest) =>
    match second rest with
    | none => none
    | some (b, rest) => some ((a, b), rest)

def repeated {α : Type} (item : Reader α) : (n : Nat) → (done : List α) → Reader (List α)
  | 0, done, bs => some (done.reverse, bs)
  | n + 1, done, bs =>
    match item bs with
    | none => none
    | some (a, rest) => repeated item n (a :: done) rest

/-- What is read must have an image under `f`. -/
def filterMap {α β : Type} (f : α → Option β) (read : Reader α) : Reader β := fun bs =>
  match read bs with
  | none => none
  | some (a, rest) =>
    match f a with
    | none => none
    | some b => some (b, rest)

end Reader

end SeededTraits
