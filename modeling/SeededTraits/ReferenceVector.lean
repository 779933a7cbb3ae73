import SeededTraits.Engine
import SeededTraits.Mint

/-! Reference vectors: inputs with the digest and the exact output that a default engine gives. -/
namespace SeededTraits

structure ReferenceVector where
  name : String
  seed : SeedSource
  user : String
  args : List String
  expectedDigest : UInt32
  /-- In lowercase hexadecimal. -/
  expectedOutput : String

namespace ReferenceVector

def material (v : ReferenceVector) : SeedMaterial := v.seed.material v.user

def output (v : ReferenceVector) : Except EngineError Bytes :=
  let engine : Engine := {}
  (Deploy.schemaBytes v.args (engine.config.containerFor v.seed)).bind fun schema =>
    Generator.inscribeGenerate engine v.seed v.user schema

/-- Whether digest and output are as expected, and the output. -/
def verify (v : ReferenceVector) : Except EngineError (Bool × String) :=
  v.output.map fun bs =>
    let hex := Bytes.hex bs
    (v.material.digest.value == v.expectedDigest && hex == v.expectedOutput, hex)

def all : List ReferenceVector := [
  { name := "Single range over short chain context"
    seed := .chain ⟨0, "abc", "xyz"⟩
    user := "token-1"
    args := [r#"{"power":{"type":"range","data":{"min":1,"max":10}}}"#]
    expectedDigest := 0xb2872e19
    expectedOutput := "a262696467746f6b656e2d3165706f7765720a" },
  { name := "Explicit seed with two groups"
    seed := .explicit "random-seed"
    user := "user-input"
    args := [
      r#"{"level1":{"type":"range","data":{"min":1,"max":1000}}}"#,
      r#"{"level2":{"type":"range","data":{"min":1,"max":1000}}}"#]
    expectedDigest := 0x46e6b622
    expectedOutput :=
      "7b226964223a22757365722d696e707574222c226c6576656c31223a32372c226c6576656c32223a32377d" },
  { name := "Empty schema"
    seed := .explicit ""
    user := ""
    args := []
    expectedDigest := 0x811c9dc5
    expectedOutput := "7b226964223a22227d" }]

def verifyAll : List (String × Except EngineError (Bool × String)) :=
  all.map fun v => (v.name, v.verify)

end ReferenceVector
end SeededTraits
