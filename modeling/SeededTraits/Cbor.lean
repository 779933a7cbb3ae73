import SeededTraits.Bytes
import SeededTraits.FloatFormat
import SeededTraits.Value

/-! CBOR items. A head is an initial byte with a major type in its upper three bits, then the
argument. Any width is read; what is written is the preferred form: shortest heads, definite
lengths, and the shortest float that keeps the value. Arrays, maps and tags nest to a fixed depth.
`width` bounds the members of one indefinite item; every member takes a byte, so the length of the
input is always enough. -/
namespace SeededTraits

namespace Cbor

/-- The major types whose argument is a number or a length. -/
inductive Major
  | unsigned | negative | bytes | text | array | map | tag
  deriving DecidableEq

namespace Major

def code : Major → UInt8
  | unsigned => 0
  | negative => 1
  | bytes => 2
  | text => 3
  | array => 4
  | map => 5
  | tag => 6

def ofCode? (n : UInt8) : Option Major :=
  if n = 0 then some unsigned
  else if n = 1 then some negative
  else if n = 2 then some bytes
  else if n = 3 then some text
  else if n = 4 then some array
  else if n = 5 then some map
  else if n = 6 then some tag
  else none

@[simp] theorem ofCode?_code (m : Major) : ofCode? m.code = some m := by
  cases m <;> decide

def allowsIndefinite : Major → Bool
  | bytes | text | array | map => true
  | _ => false

end Major

inductive Head
  | definite (m : Major) (argument : UInt64)
  | indefinite (m : Major)
  | simple (n : UInt8)
  /-- A float of any width, widened to a double. -/
  | float (bits : UInt64)
  /-- The end of an indefinite item. -/
  | stop
  deriving DecidableEq

namespace Head

def number (width : Nat) : Reader Nat :=
  Reader.map Bytes.toNat (Reader.take width)

/-- The argument that the low five bits of an initial byte announce. -/
def argument (info : UInt8) : Reader UInt64 := fun bs =>
  if info < 24 then some (info.toUInt64, bs)
  else if info = 24 then Reader.map UInt64.ofNat (number 1) bs
  else if info = 25 then Reader.map UInt64.ofNat (number 2) bs
  else if info = 26 then Reader.map UInt64.ofNat (number 4) bs
  else if info = 27 then Reader.map UInt64.ofNat (number 8) bs
  else none

/-- Major type 7: simple values, floats and the stop. -/
def special (info : UInt8) : Reader Head := fun bs =>
  if info < 24 then some (.simple info, bs)
  else if info = 24 then Reader.map (fun n => .simple (UInt8.ofNat n)) (number 1) bs
  else if info = 25 then Reader.map (fun n => .float (FloatFormat.half.widen n)) (number 2) bs
  else if info = 26 then Reader.map (fun n => .float (FloatFormat.single.widen n)) (number 4) bs
  else if info = 27 then Reader.map (fun n => .float (UInt64.ofNat n)) (number 8) bs
  else if info = 31 then some (.stop, bs)
  else none

def read : Reader Head
  | [] => none
  | initial :: rest =>
    let info := initial % 32
    match Major.ofCode? (initial / 32) with
    | none => special info rest
    | some m =>
      if info = 31 then
        if m.allowsIndefinite then some (.indefinite m, rest) else none
      else Reader.map (.definite m) (argument info) rest

/-- The shortest head with a given argument. -/
def write (m : Major) (argument : UInt64) : Bytes :=
  let initial (info : UInt8) : UInt8 := m.code * 32 + info
  let n := argument.toNat
  if n < 24 then [initial argument.toUInt8]
  else if n < 0x100 then initial 24 :: Bytes.bigEndian 1 n
  else if n < 0x10000 then initial 25 :: Bytes.bigEndian 2 n
  else if n < 0x100000000 then initial 26 :: Bytes.bigEndian 4 n
  else initial 27 :: Bytes.bigEndian 8 n

end Head
end Cbor

/-! ### Reading -/

namespace Cbor

/-- The deepest nesting of arrays, maps and tags. -/
def maxDepth : Nat := 256

/-- The chunks of an indefinite string up to the stop that closes its outermost level; a chunk may
open a further level. -/
def chunks {α : Type} (m : Major) (chunk : Bytes → Option α) :
    (width levels : Nat) → (done : List α) → Reader (List α)
  | 0, _, _, _ => none
  | width + 1, levels, done, bs =>
    match Head.read bs with
    | some (.definite m' n, rest) =>
      if m' = m then
        match Reader.filterMap chunk (Reader.take n.toNat) rest with
        | some (a, rest) => chunks m chunk width levels (a :: done) rest
        | none => none
      else none
    | some (.indefinite m', rest) =>
      if m' = m then chunks m chunk width (levels + 1) done rest else none
    | some (.stop, rest) =>
      match levels with
      | 0 => some (done.reverse, rest)
      | levels + 1 => chunks m chunk width levels done rest
    | _ => none

def untilStop {α : Type} (item : Reader α) : (width : Nat) → (done : List α) → Reader (List α)
  | 0, _, _ => none
  | width + 1, done, bs =>
    match bs with
    | 0xff :: rest => some (done.reverse, rest)
    | bs =>
      match item bs with
      | none => none
      | some (a, rest) => untilStop item width (a :: done) rest

def maxBignumBytes : UInt64 := 16

/-- The length of a byte string that stands under a bignum tag and is short enough to be its
magnitude. -/
def bignumLength (t : UInt64) : Reader UInt64 := fun bs =>
  if t = Value.positiveBignum ∨ t = Value.negativeBignum then
    match Head.read bs with
    | some (.definite .bytes n, rest) => if n ≤ maxBignumBytes then some (n, rest) else none
    | _ => none
  else none

/-- The number under a bignum tag; a negative one has to fit 128 bits. -/
def bignum? (t : UInt64) (magnitude : Bytes) : Option Value :=
  let n := Bytes.toNat magnitude
  if t = Value.negativeBignum then
    if leastWide ≤ Int.negSucc n then some (Value.ofInt (Int.negSucc n)) else none
  else some (Value.ofInt (Int.ofNat n))

def simple? (n : UInt8) : Option Value :=
  if n = 20 then some (.bool false)
  else if n = 21 then some (.bool true)
  else if n = 22 ∨ n = 23 then some .null
  else none

/-- One item, `inner` reading what it holds; where there is no `inner`, nothing may nest. -/
def itemWith (width : Nat) (inner : Option (Reader Value)) : Reader Value := fun bs =>
  match Head.read bs with
  | none => none
  | some (head, rest) =>
    match head with
    | .definite .unsigned n => some (.unsigned n, rest)
    | .definite .negative n => some (.negative n, rest)
    | .definite .bytes n => Reader.map .bytes (Reader.take n.toNat) rest
    | .definite .text n =>
      Reader.map .text (Reader.filterMap Bytes.text? (Reader.take n.toNat)) rest
    | .indefinite .bytes =>
      Reader.map (fun parts => .bytes parts.flatten) (chunks .bytes some width 0 []) rest
    | .indefinite .text =>
      Reader.map (fun parts => .text (String.join parts))
        (chunks .text Bytes.text? width 0 []) rest
    | .definite .array n =>
      match inner with
      | none => none
      | some inner => Reader.map .array (Reader.repeated inner n.toNat []) rest
    | .indefinite .array =>
      match inner with
      | none => none
      | some inner => Reader.map .array (untilStop inner width []) rest
    | .definite .map n =>
      match inner with
      | none => none
      | some inner =>
        Reader.map .map (Reader.repeated (Reader.both inner inner) n.toNat []) rest
    | .indefinite .map =>
      match inner with
      | none => none
      | some inner => Reader.map .map (untilStop (Reader.both inner inner) width []) rest
    | .definite .tag t =>
      match bignumLength t rest with
      | some (n, rest) => Reader.filterMap (bignum? t) (Reader.take n.toNat) rest
      | none =>
        match inner with
        | none => none
        | some inner => Reader.map (.tag t) inner rest
    | .simple n => (simple? n).map fun v => (v, rest)
    | .float bits => some (.float bits, rest)
    | .indefinite _ => none
    | .stop => none

def item (width : Nat) : (depth : Nat) → Reader Value
  | 0, bs => itemWith width none bs
  | depth + 1, bs => itemWith width (some fun bs => item width depth bs) bs

def read : Reader Value := fun bs =>
  item bs.length maxDepth bs

end Cbor

/-! ### Writing -/

namespace Cbor

def floatBytes (bits : UInt64) : Bytes :=
  match FloatFormat.half.narrow? bits with
  | some short => 0xf9 :: Bytes.bigEndian 2 short
  | none =>
    match FloatFormat.single.narrow? bits with
    | some short => 0xfa :: Bytes.bigEndian 4 short
    | none => 0xfb :: Bytes.bigEndian 8 bits.toNat

def stringBytes (m : Major) (content : Bytes) : Bytes :=
  Head.write m (UInt64.ofNat content.length) ++ content

mutual

def write : Value → Bytes
  | .null => [0xf6]
  | .bool false => [0xf4]
  | .bool true => [0xf5]
  | .unsigned n => Head.write .unsigned n
  | .negative n => Head.write .negative n
  | .float bits => floatBytes bits
  | .text s => stringBytes .text (Bytes.ofText s)
  | .bytes b => stringBytes .bytes b
  | .tag t content => Head.write .tag t ++ write content
  | .array items =>
    Head.write .array (UInt64.ofNat items.length) ++ (writeItems [] items).reverse.flatten
  | .map entries =>
    Head.write .map (UInt64.ofNat entries.length) ++ (writeEntries [] entries).reverse.flatten

/-- The written items, last one first, on top of those already done. -/
def writeItems (done : List Bytes) : List Value → List Bytes
  | [] => done
  | v :: rest => writeItems (write v :: done) rest

def writeEntries (done : List Bytes) : List (Value × Value) → List Bytes
  | [] => done
  | (k, v) :: rest => writeEntries ((write k ++ write v) :: done) rest

end

theorem writeItems_eq (done : List Bytes) (items : List Value) :
    writeItems done items = (items.map write).reverse ++ done := by
  induction items generalizing done with
  | nil => simp [writeItems]
  | cons v rest ih => simp [writeItems, ih]

theorem writeEntries_eq (done : List Bytes) (entries : List (Value × Value)) :
    writeEntries done entries = (entries.map fun e => write e.1 ++ write e.2).reverse ++ done := by
  induction entries generalizing done with
  | nil => simp [writeEntries]
  | cons e rest ih =>
    obtain ⟨k, v⟩ := e
    simp [writeEntries, ih]

theorem write_array (items : List Value) :
    write (.array items) =
      Head.write .array (UInt64.ofNat items.length) ++ items.flatMap write := by
  simp [write, writeItems_eq, List.flatMap]

theorem write_map (entries : List (Value × Value)) :
    write (.map entries) = Head.write .map (UInt64.ofNat entries.length) ++
      entries.flatMap fun e => write e.1 ++ write e.2 := by
  simp [write, writeEntries_eq, List.flatMap]

end Cbor

end SeededTraits
