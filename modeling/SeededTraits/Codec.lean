import SeededTraits.Cbor
import SeededTraits.Json.Document
import SeededTraits.Text

/-! The two containers that schemas arrive in and outputs are written in: one value from a byte
string, or why there is none, and one document to a byte string. -/
namespace SeededTraits

inductive Container
  /-- CBOR. -/
  | binary
  /-- JSON. -/
  | text
  deriving DecidableEq

def Container.display : Container → String
  | .binary => "cbor"
  | .text => "json"

/-- Why a byte string was refused. -/
inductive Malformation
  /-- Not one well-formed item of its container. -/
  | unreadable
  | trailingBytes (count : Nat)
  | expectedMap
  | nonTextKey
  | idNotText
  | duplicateId
  | notAnInteger (key : String)
  | outOfRange (key : String)
  | duplicateKey (key : String)
  | missingId
  /-- The first deploy argument that is not JSON. -/
  | deployArgument (index : Nat)
  deriving DecidableEq

namespace Malformation

def detail : Malformation → String
  | unreadable => "<decoder>"
  | trailingBytes count => toString count ++ " trailing bytes after cbor item"
  | expectedMap => "expected map"
  | nonTextKey => "non-text key"
  | idNotText => "id is not text"
  | duplicateId => "duplicate id"
  | notAnInteger key => "value of " ++ Text.quoted key ++ " is not an integer"
  | outOfRange key => "value of " ++ Text.quoted key ++ " out of range"
  | duplicateKey key => "duplicate key " ++ Text.quoted key
  | missingId => "missing id"
  | deployArgument index => "deploy argument " ++ toString index ++ ": <decoder>"

def message (m : Malformation) : String :=
  "malformed input: " ++ m.detail

end Malformation

namespace Container

/-- The one item that the bytes hold; after a CBOR item nothing may follow, after a JSON item only
blanks. -/
def decode : Container → Bytes → Except Malformation Value
  | .binary, bs =>
    match Cbor.read bs with
    | none => .error .unreadable
    | some (v, []) => .ok v
    | some (_, rest) => .error (.trailingBytes rest.length)
  | .text, bs =>
    match Json.parse? bs with
    | none => .error .unreadable
    | some j => .ok j.toValue

def encode : Container → Json → Bytes
  | .binary, j => Cbor.write j.toValue
  | .text, j => j.write

end Container

end SeededTraits
