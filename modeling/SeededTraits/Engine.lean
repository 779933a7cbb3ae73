import SeededTraits.Codec
import SeededTraits.Resolved
import SeededTraits.Schema
import SeededTraits.Seed

/-! The engine: seed material and a schema in, an output out, and the check of a claimed output,
which is to generate it again. A digest picks one value from every range of the schema. The mode of
the seed fixes the container of schema and output. -/
namespace SeededTraits

/-- A definition whose bounds no value can be drawn from. -/
structure InvalidRange where
  key : String
  min : Int
  max : Int
  deriving DecidableEq

def InvalidRange.message (e : InvalidRange) : String :=
  "invalid range for attribute " ++ Text.quoted e.key ++ ": min " ++ toString e.min ++
    ", max " ++ toString e.max

inductive EngineError
  | malformed (cause : Malformation)
  | invalidRange (cause : InvalidRange)
  | contextUnavailable
  | contextAlreadyPublished
  | schemaTooLarge (length limit : Nat)
  | indexerUnsupported
  deriving DecidableEq

def EngineError.message : EngineError → String
  | malformed cause => "core error: " ++ cause.message
  | invalidRange cause => "core error: " ++ cause.message
  | contextUnavailable => "chain context has not been initialized"
  | contextAlreadyPublished => "chain context already initialized"
  | schemaTooLarge length limit =>
    "schema is " ++ toString length ++ " bytes, limit is " ++ toString limit
  | indexerUnsupported => "indexer generation is not supported by this generator"

/-! ### Resolution -/

/-- The digest reduced to the width of the range. Sixty-four bits hold the width of every range,
the full one included. -/
def Bounds.pick (b : Bounds) (d : Digest) : UInt32 :=
  let span := b.max.toUInt64 - b.min.toUInt64 + 1
  (b.min.toUInt64 + d.value.toUInt64 % span).toUInt32

namespace Schema

/-- Resolves one definition. Its bounds are checked even where its key cannot be added. -/
def resolveOne (d : Digest) (s : Resolved) (definition : String × Range) :
    Except InvalidRange Resolved :=
  match definition.2.bounds? with
  | none => .error ⟨definition.1, definition.2.min, definition.2.max⟩
  | some bounds => .ok (s.insert definition.1 (bounds.pick d))

def resolveAll (d : Digest) (s : Resolved) :
    List (String × Range) → Except InvalidRange Resolved
  | [] => .ok s
  | definition :: rest =>
    match resolveOne d s definition with
    | .error e => .error e
    | .ok s => resolveAll d s rest

/-- The first definition of a key decides its value. -/
def resolve (schema : Schema) (d : Digest) (user : String) : Except InvalidRange Resolved :=
  resolveAll d (.new user) schema.definitions

end Schema

/-! ### Engines -/

structure EngineConfig where
  /-- For outputs derived from a chain context. -/
  chainContainer : Container := .binary
  /-- For outputs derived from an explicit seed. -/
  seedContainer : Container := .text
  maxSchemaBytes : Nat := 65536
  deriving DecidableEq

def EngineConfig.containerFor (config : EngineConfig) : SeedSource → Container
  | .chain _ => config.chainContainer
  | .explicit _ => config.seedContainer

structure Engine where
  config : EngineConfig := {}
  deriving DecidableEq

namespace Engine

/-- A schema over the limit is refused unread. -/
def resolve (engine : Engine) (material : SeedMaterial) (user : String) (schema : Bytes)
    (c : Container) : Except EngineError Resolved :=
  if engine.config.maxSchemaBytes < schema.length then
    .error (.schemaTooLarge schema.length engine.config.maxSchemaBytes)
  else
    match Schema.parse c schema with
    | .error cause => .error (.malformed cause)
    | .ok parsed => (parsed.resolve material.digest user).mapError .invalidRange

def resolveWithContext (engine : Engine) (context : ChainContext) (user : String)
    (schema : Bytes) : Except EngineError Resolved :=
  engine.resolve (.ofContext context user) user schema engine.config.chainContainer

def resolveWithSeed (engine : Engine) (seed user : String) (schema : Bytes) :
    Except EngineError Resolved :=
  engine.resolve (.ofSeed seed user) user schema engine.config.seedContainer

def generateWithContext (engine : Engine) (context : ChainContext) (user : String)
    (schema : Bytes) : Except EngineError Bytes :=
  (engine.resolveWithContext context user schema).map (·.encode engine.config.chainContainer)

def generateWithSeed (engine : Engine) (seed user : String) (schema : Bytes) :
    Except EngineError Bytes :=
  (engine.resolveWithSeed seed user schema).map (·.encode engine.config.seedContainer)

/-- What an indexer derives later for an inscription: the same as for a user of that name. -/
def indexerGenerateWithContext (engine : Engine) (context : ChainContext) (inscription : String)
    (schema : Bytes) : Except EngineError Bytes :=
  engine.generateWithContext context inscription schema

def verifyWithContext (engine : Engine) (context : ChainContext) (user : String)
    (schema expected : Bytes) : Except EngineError Bool :=
  (engine.generateWithContext context user schema).map (· == expected)

def verifyWithSeed (engine : Engine) (seed user : String) (schema expected : Bytes) :
    Except EngineError Bool :=
  (engine.generateWithSeed seed user schema).map (· == expected)

end Engine

/-! ### Generators

What a host of inscriptions asks of a generator. Only the generation of an inscription must be
supplied: a check generates again and compares, and indexers get nothing. -/

class Generator (γ : Type) where
  inscribeGenerate : γ → SeedSource → (user : String) → (schema : Bytes) → Except EngineError Bytes
  inscribeVerify : γ → SeedSource → (user : String) → (schema expected : Bytes) →
      Except EngineError Bool :=
    fun g seed user schema expected =>
      (inscribeGenerate g seed user schema).map (· == expected)
  hasIndexerGenerate : γ → Bool := fun _ => false
  indexerGenerate : γ → ChainContext → (inscription : String) → (schema : Bytes) →
      Except EngineError Bytes :=
    fun _ _ _ _ => .error .indexerUnsupported

instance : Generator Engine where
  inscribeGenerate engine seed user schema :=
    match seed with
    | .chain context => engine.generateWithContext context user schema
    | .explicit seed => engine.generateWithSeed seed user schema
  hasIndexerGenerate _ := true
  indexerGenerate engine context inscription schema :=
    engine.indexerGenerateWithContext context inscription schema

/-- Gives the same outputs whatever it is asked. -/
structure FixedGenerator where
  inscribed : Bytes
  indexed : Option Bytes := none
  deriving DecidableEq

instance : Generator FixedGenerator where
  inscribeGenerate g _ _ _ := .ok g.inscribed
  inscribeVerify g _ _ _ expected := .ok (g.inscribed == expected)
  hasIndexerGenerate g := g.indexed.isSome
  indexerGenerate g _ _ _ :=
    match g.indexed with
    | some bs => .ok bs
    | none => .error .indexerUnsupported

/-- Inscribes as its engine does and offers nothing beyond. -/
structure InscribeOnly where
  engine : Engine := {}
  deriving DecidableEq

instance : Generator InscribeOnly where
  inscribeGenerate g seed user schema := Generator.inscribeGenerate g.engine seed user schema

end SeededTraits
