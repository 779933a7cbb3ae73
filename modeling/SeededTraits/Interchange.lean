import SeededTraits.Codec
import SeededTraits.Json.Document
import SeededTraits.Seed

/-! Digests, containers and chain contexts as JSON text of their own: a digest is a number, a
container the name of its variant, and a chain context a record. Members of a record that are of no
interest are passed over: their form is checked, but they may nest to any depth, and escaped
surrogates need not pair up. -/
namespace SeededTraits

namespace Json
namespace Skim

inductive Nest
  | array
  | object
  deriving DecidableEq

/-- What follows a backslash, any four hexadecimal digits making a unit. -/
def escapeSequence : Reader Bytes
  | [] => none
  | letter :: rest =>
    if letter = Ascii.lowerU then Reader.map (fun _ => []) Quoted.unit16 rest
    else (Quoted.plainEscape? letter).map fun b => ([b], rest)

def text (width : Nat) (bs : Bytes) : Option Bytes :=
  (Quoted.content escapeSequence width [] bs).map Prod.snd

def key (width : Nat) (bs : Bytes) : Option Bytes :=
  ((mark Ascii.quote bs).bind (text width)).bind (mark Ascii.colon)

def leaf (width : Nat) (bs : Bytes) : Option Bytes :=
  match bs with
  | [] => none
  | b :: rest =>
    if b = Ascii.quote then text width rest
    else if b = Ascii.minus ∨ isDigit b = true then (Number.read (b :: rest)).map Prod.snd
    else (word b rest).map Prod.snd

/-- Goes on inside `nests`, the innermost first: with an item if one is `due`, else with what
follows an item. `texts` bounds the length of a text, and each step takes a byte off the input. -/
def loop (texts : Nat) : (width : Nat) → (nests : List Nest) → (due : Bool) → Bytes → Option Bytes
  | 0, _, _, _ => none
  | width + 1, nests, true, bs =>
    match Ascii.skipBlank bs with
    | [] => none
    | b :: rest =>
      if b = Ascii.openBracket then
        match mark Ascii.closeBracket rest with
        | some rest => loop texts width nests false rest
        | none => loop texts width (.array :: nests) true rest
      else if b = Ascii.openBrace then
        match mark Ascii.closeBrace rest with
        | some rest => loop texts width nests false rest
        | none =>
          match key texts rest with
          | none => none
          | some rest => loop texts width (.object :: nests) true rest
      else
        match leaf texts (b :: rest) with
        | none => none
        | some rest => loop texts width nests false rest
  | _ + 1, [], false, bs => some bs
  | width + 1, nest :: outer, false, bs =>
    match Ascii.skipBlank bs with
    | [] => none
    | b :: rest =>
      if b = Ascii.comma then
        match nest with
        | .array => loop texts width (nest :: outer) true rest
        | .object =>
          match key texts rest with
          | none => none
          | some rest => loop texts width (nest :: outer) true rest
      else if (nest = .array ∧ b = Ascii.closeBracket) ∨
          (nest = .object ∧ b = Ascii.closeBrace) then
        loop texts width outer false rest
      else none

/-- One item; `width` must not be less than the length of the input. -/
def item (width : Nat) : Reader Unit := fun bs =>
  (loop width (width + 1) [] true bs).map fun rest => ((), rest)

end Skim
end Json

/-! ### Numbers, names and records -/

namespace Interchange

def uint32 : Reader UInt32 := fun bs =>
  Reader.filterMap Json.Number.uint32? Json.Number.read (Ascii.skipBlank bs)

def text (width : Nat) : Reader String := fun bs =>
  match Json.mark Ascii.quote bs with
  | none => none
  | some rest => Json.Quoted.read width rest

def null : Reader Unit := fun bs =>
  Reader.exact [0x6e, 0x75, 0x6c, 0x6c] (Ascii.skipBlank bs)

def containerName : Container → String
  | .binary => "Binary"
  | .text => "Text"

def containerNamed? (name : String) : Option Container :=
  if name = "Binary" then some .binary else if name = "Text" then some .text else none

/-- A variant's name, alone or as the one key of an object that holds null. -/
def container (width : Nat) : Reader Container := fun bs =>
  match Json.mark Ascii.openBrace bs with
  | none => Reader.filterMap containerNamed? (text width) bs
  | some rest =>
    match Json.member (Json.Quoted.read width) null rest with
    | none => none
    | some ((name, _), rest) =>
      match Json.mark Ascii.closeBrace rest with
      | none => none
      | some rest => (containerNamed? name).map fun c => (c, rest)

inductive ContextMember
  | blockNumber (n : UInt32)
  | blockHash (s : String)
  | transactionHash (s : String)
  | unknown
  deriving DecidableEq

namespace ContextMember

def read (width : Nat) : Reader ContextMember := fun bs =>
  match text width bs with
  | none => none
  | some (key, rest) =>
    match Json.mark Ascii.colon rest with
    | none => none
    | some rest =>
      if key = "block_number" then Reader.map blockNumber uint32 rest
      else if key = "block_hash" then Reader.map blockHash (text width) rest
      else if key = "transaction_hash" then Reader.map transactionHash (text width) rest
      else Reader.map (fun _ => unknown) (Json.Skim.item width) rest

def blockNumber? : ContextMember → Option UInt32
  | blockNumber n => some n
  | _ => none

def blockHash? : ContextMember → Option String
  | blockHash s => some s
  | _ => none

def transactionHash? : ContextMember → Option String
  | transactionHash s => some s
  | _ => none

/-- Each known member must be there once; unknown ones do not matter. -/
def assemble? (members : List ContextMember) : Option ChainContext :=
  match members.filterMap blockNumber?, members.filterMap blockHash?,
      members.filterMap transactionHash? with
  | [n], [block], [transaction] => some ⟨n, block, transaction⟩
  | _, _, _ => none

end ContextMember

/-- A record without its keys, behind the opening bracket. -/
def contextRow (width : Nat) : Reader ChainContext := fun bs =>
  match uint32 bs with
  | none => none
  | some (n, rest) =>
    match (Json.mark Ascii.comma rest).bind (text width) with
    | none => none
    | some (block, rest) =>
      match (Json.mark Ascii.comma rest).bind (text width) with
      | none => none
      | some (transaction, rest) =>
        (Json.mark Ascii.closeBracket rest).map fun rest => (⟨n, block, transaction⟩, rest)

def context (width : Nat) : Reader ChainContext := fun bs =>
  match Json.mark Ascii.openBrace bs with
  | some rest =>
    Reader.filterMap ContextMember.assemble?
      (Json.sequence (ContextMember.read width) Ascii.closeBrace width) rest
  | none =>
    match Json.mark Ascii.openBracket bs with
    | some rest => contextRow width rest
    | none => none

/-- One member of a record whose members keep their own order. -/
def writeMember (key : String) (j : Json) : Bytes :=
  Json.Quoted.write key ++ Ascii.colon :: j.write

end Interchange

namespace Digest

def ofJson? (bs : Bytes) : Option Digest :=
  (Json.whole? Interchange.uint32 bs).map Digest.mk

def toJson (d : Digest) : Bytes :=
  (Json.Number.ofNat d.value.toNat).write

end Digest

namespace Container

def ofJson? (bs : Bytes) : Option Container :=
  Json.whole? (Interchange.container bs.length) bs

def toJson (c : Container) : Bytes :=
  Json.Quoted.write (Interchange.containerName c)

end Container

namespace ChainContext

def ofJson? (bs : Bytes) : Option ChainContext :=
  Json.whole? (Interchange.context bs.length) bs

def toJson (c : ChainContext) : Bytes :=
  Ascii.openBrace :: Json.commaSeparated [
    Interchange.writeMember "block_number" (.number (.ofNat c.blockNumber.toNat)),
    Interchange.writeMember "block_hash" (.string c.blockHash),
    Interchange.writeMember "transaction_hash" (.string c.transactionHash)] ++ [Ascii.closeBrace]

end ChainContext

end SeededTraits
