import SeededTraits.Engine

/-! Sessions: a chain context that is published at most once, and engine calls around it. -/
namespace SeededTraits

structure Session where
  context : Option ChainContext := none
  deriving DecidableEq

namespace Session

/-- Only the first context is taken. -/
def publish (s : Session) (context : ChainContext) : Except EngineError Session :=
  match s.context with
  | none => .ok ⟨some context⟩
  | some _ => .error .contextAlreadyPublished

def required (s : Session) : Except EngineError ChainContext :=
  match s.context with
  | none => .error .contextUnavailable
  | some context => .ok context

/-- A missing context is reported before anything else is looked at. -/
def generate (s : Session) (engine : Engine) (user : String) (schema : Bytes) :
    Except EngineError Bytes :=
  s.required.bind fun context => engine.generateWithContext context user schema

def indexerGenerate (s : Session) (engine : Engine) (inscription : String) (schema : Bytes) :
    Except EngineError Bytes :=
  s.generate engine inscription schema

def verify (s : Session) (engine : Engine) (user : String) (schema expected : Bytes) :
    Except EngineError Bool :=
  s.required.bind fun context => engine.verifyWithContext context user schema expected

inductive Step
  /-- Publishes a context given by its parts. -/
  | announce (blockNumber : UInt32) (blockHash transactionHash : String)
  | publish (context : ChainContext)
  | published
  | required
  | generate (engine : Engine) (user : String) (schema : Bytes)
  | indexerGenerate (engine : Engine) (inscription : String) (schema : Bytes)
  | verify (engine : Engine) (user : String) (schema expected : Bytes)
  | resolve (engine : Engine) (material : SeedMaterial) (user : String) (schema : Bytes)
      (container : Container)
  | resolveWithContext (engine : Engine) (context : ChainContext) (user : String) (schema : Bytes)
  | resolveWithSeed (engine : Engine) (seed user : String) (schema : Bytes)
  | generateWithContext (engine : Engine) (context : ChainContext) (user : String) (schema : Bytes)
  | generateWithSeed (engine : Engine) (seed user : String) (schema : Bytes)
  | indexerGenerateWithContext (engine : Engine) (context : ChainContext) (inscription : String)
      (schema : Bytes)
  | verifyWithContext (engine : Engine) (context : ChainContext) (user : String)
      (schema expected : Bytes)
  | verifyWithSeed (engine : Engine) (seed user : String) (schema expected : Bytes)

inductive Outcome
  | done
  | context (context : Option ChainContext)
  | resolved (s : Resolved)
  | output (bs : Bytes)
  | verified (agrees : Bool)
  | failed (e : EngineError)
  deriving DecidableEq

namespace Outcome

def ofExcept {α : Type} (f : α → Outcome) : Except EngineError α → Outcome
  | .ok a => f a
  | .error e => failed e

end Outcome

/-- Publication alone changes the session, and only where it succeeds. -/
def afterPublish (s : Session) (context : ChainContext) : Outcome × Session :=
  match s.publish context with
  | .ok s => (.done, s)
  | .error e => (.failed e, s)

def step (s : Session) : Step → Outcome × Session
  | .announce blockNumber blockHash transactionHash =>
    s.afterPublish ⟨blockNumber, blockHash, transactionHash⟩
  | .publish context => s.afterPublish context
  | .published => (.context s.context, s)
  | .required => (.ofExcept (fun context => .context (some context)) s.required, s)
  | .generate engine user schema => (.ofExcept .output (s.generate engine user schema), s)
  | .indexerGenerate engine inscription schema =>
    (.ofExcept .output (s.indexerGenerate engine inscription schema), s)
  | .verify engine user schema expected =>
    (.ofExcept .verified (s.verify engine user schema expected), s)
  | .resolve engine material user schema container =>
    (.ofExcept .resolved (engine.resolve material user schema container), s)
  | .resolveWithContext engine context user schema =>
    (.ofExcept .resolved (engine.resolveWithContext context user schema), s)
  | .resolveWithSeed engine seed user schema =>
    (.ofExcept .resolved (engine.resolveWithSeed seed user schema), s)
  | .generateWithContext engine context user schema =>
    (.ofExcept .output (engine.generateWithContext context user schema), s)
  | .generateWithSeed engine seed user schema =>
    (.ofExcept .output (engine.generateWithSeed seed user schema), s)
  | .indexerGenerateWithContext engine context inscription schema =>
    (.ofExcept .output (engine.indexerGenerateWithContext context inscription schema), s)
  | .verifyWithContext engine context user schema expected =>
    (.ofExcept .verified (engine.verifyWithContext context user schema expected), s)
  | .verifyWithSeed engine seed user schema expected =>
    (.ofExcept .verified (engine.verifyWithSeed seed user schema expected), s)

def run (s : Session) : List Step → List Outcome
  | [] => []
  | next :: rest => (s.step next).1 :: (s.step next).2.run rest

end Session
end SeededTraits
