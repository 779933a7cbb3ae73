import SeededTraits.Codec
import SeededTraits.Engine

/-! Schemas from deploy arguments, and a mint that issues outputs for them: one engine and one chain
context. Each argument is a JSON text, and all of them together are one list in the container that
the generator reads. -/
namespace SeededTraits

namespace Deploy

/-- The arguments from the one numbered `index` on, read on top of those already done. -/
def documentsFrom : (index : Nat) → (done : List Json) → List String →
    Except Malformation (List Json)
  | _, done, [] => .ok done.reverse
  | index, done, arg :: rest =>
    match Json.parse? (Bytes.ofText arg) with
    | none => .error (.deployArgument index)
    | some j => documentsFrom (index + 1) (j :: done) rest

def documents (args : List String) : Except Malformation (List Json) :=
  documentsFrom 0 [] args

def schemaBytes (args : List String) (c : Container) : Except EngineError Bytes :=
  match documents args with
  | .error cause => .error (.malformed cause)
  | .ok docs => .ok (c.encode (.array docs))

end Deploy

/-! ### Mints -/

structure Mint where
  engine : Engine := {}
  context : ChainContext

namespace Mint

/-- The context of the first block of the chain. -/
def genesisContext : ChainContext where
  blockNumber := 0
  blockHash := "000000000019d6689c085ae165831e934ff763ae46a2a6c172b3f1b60a8ce26f"
  transactionHash := "4a5e1e4baab89f3a32518a88c31bc87f618f76673e2cc77ab2127b7afdeda33b"

def genesis : Mint := { context := genesisContext }

def withConfig (m : Mint) (config : EngineConfig) : Mint :=
  { m with engine := ⟨config⟩ }

def seedSource (m : Mint) : SeedSource := .chain m.context

def schema (m : Mint) (args : List String) : Except EngineError Bytes :=
  Deploy.schemaBytes args m.engine.config.chainContainer

def issue (m : Mint) (user : String) (args : List String) : Except EngineError Bytes :=
  (m.schema args).bind fun schema =>
    Generator.inscribeGenerate m.engine m.seedSource user schema

def verifyIssue (m : Mint) (user : String) (args : List String) (expected : Bytes) :
    Except EngineError Bool :=
  (m.schema args).bind fun schema =>
    Generator.inscribeVerify m.engine m.seedSource user schema expected

/-- `count` user identifiers, no two alike. -/
def users (count : Nat) : List String :=
  (List.range count).map fun i => "user-" ++ toString i

end Mint

end SeededTraits
