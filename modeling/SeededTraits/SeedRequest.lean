import SeededTraits.Engine
import SeededTraits.Schema

/-! Resolution straight from a seed and a schema document, with no engine and no limits. -/
namespace SeededTraits

structure SeedRequest where
  seed : String
  user : String
  schema : Json

namespace SeedRequest

def schemaBytes (r : SeedRequest) (c : Container) : Bytes :=
  c.encode r.schema

/-- The document is written as text and read back like any other schema. -/
def resolve (r : SeedRequest) : Except EngineError Resolved :=
  match Schema.parse .text (r.schemaBytes .text) with
  | .error cause => .error (.malformed cause)
  | .ok schema =>
    (schema.resolve (SeedMaterial.ofSeed r.seed r.user).digest r.user).mapError .invalidRange

end SeedRequest
end SeededTraits
