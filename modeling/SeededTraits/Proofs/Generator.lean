import SeededTraits.Engine
import SeededTraits.Proofs.Engine
import SeededTraits.Proofs.Seed
import SeededTraits.Session

/-! The routes from a seed to an answer: the entry points of an engine for either kind of seed,
those that it has as a generator, and those that go by the published context. Whichever is taken, an
answer shows nothing of the seed but its material and the container of its kind. -/
namespace SeededTraits
namespace Engine

variable {engine : Engine} {seed seed' : SeedSource} {user : String}

def resolveBy (engine : Engine) : SeedSource → (user : String) → (schema : Bytes) →
    Except EngineError Resolved
  | .chain context => engine.resolveWithContext context
  | .explicit seed => engine.resolveWithSeed seed

/-! ### One route -/

theorem resolveBy_eq_resolveFrom (engine : Engine) (seed : SeedSource) (user : String)
    (schema : Bytes) : engine.resolveBy seed user schema = engine.resolveFrom seed user schema := by
  cases seed <;> rfl

theorem inscribeGenerate_eq_generateFrom (engine : Engine) (seed : SeedSource) (user : String)
    (schema : Bytes) :
    Generator.inscribeGenerate engine seed user schema = engine.generateFrom seed user schema := by
  cases seed <;> rfl

theorem inscribeVerify_eq_verifyFrom (engine : Engine) (seed : SeedSource) (user : String)
    (schema expected : Bytes) :
    Generator.inscribeVerify engine seed user schema expected =
      engine.verifyFrom seed user schema expected := by
  cases seed <;> rfl

/-! ### Two seeds -/

/-- No route tells the two seeds apart, whether it leads to an output or to a failure. -/
structure SameAnswers (engine : Engine) (user : String) (seed seed' : SeedSource) : Prop where
  resolve : ∀ schema, engine.resolveBy seed user schema = engine.resolveBy seed' user schema
  generate : ∀ schema, engine.generateFrom seed user schema = engine.generateFrom seed' user schema
  verify : ∀ schema expected,
    engine.verifyFrom seed user schema expected = engine.verifyFrom seed' user schema expected
  inscribeGenerate : ∀ schema,
    Generator.inscribeGenerate engine seed user schema =
      Generator.inscribeGenerate engine seed' user schema
  inscribeVerify : ∀ schema expected,
    Generator.inscribeVerify engine seed user schema expected =
      Generator.inscribeVerify engine seed' user schema expected

theorem resolveFrom_eq_of_material (material : seed.material user = seed'.material user)
    (container : engine.config.containerFor seed = engine.config.containerFor seed')
    (schema : Bytes) :
    engine.resolveFrom seed user schema = engine.resolveFrom seed' user schema := by
  rw [resolveFrom, resolveFrom, material, container]

theorem SameAnswers.of_material (material : seed.material user = seed'.material user)
    (container : engine.config.containerFor seed = engine.config.containerFor seed') :
    engine.SameAnswers user seed seed' := by
  have resolved := resolveFrom_eq_of_material material container
  have generated (schema : Bytes) :
      engine.generateFrom seed user schema = engine.generateFrom seed' user schema := by
    rw [generateFrom_eq, generateFrom_eq, resolved, container]
  have verified (schema expected : Bytes) :
      engine.verifyFrom seed user schema expected =
        engine.verifyFrom seed' user schema expected := by
    rw [verifyFrom_eq_generateFrom, verifyFrom_eq_generateFrom, generated]
  refine ⟨fun schema => ?_, generated, verified, fun schema => ?_, fun schema expected => ?_⟩
  · rw [resolveBy_eq_resolveFrom, resolveBy_eq_resolveFrom, resolved]
  · rw [inscribeGenerate_eq_generateFrom, inscribeGenerate_eq_generateFrom, generated]
  · rw [inscribeVerify_eq_verifyFrom, inscribeVerify_eq_verifyFrom, verified]

/-- Two seeds get the same answers for a user if their material is the same and so is the container
of their kinds; the material is the same wherever the text is. A generator's check is the check of
the engine. An indexer is given what a user of that name is, and a published context does for what
it would do as a seed. -/
theorem answers_through_material (engine : Engine) (user : String) :
    (∀ seed seed' : SeedSource, seed.material user = seed'.material user →
      engine.config.containerFor seed = engine.config.containerFor seed' →
        engine.SameAnswers user seed seed') ∧
      (∀ seed seed' : SeedSource,
        seed.material user = seed'.material user ↔ seed.text = seed'.text) ∧
      (∀ seed schema expected,
        Generator.inscribeVerify engine seed user schema expected =
          engine.verifyFrom seed user schema expected) ∧
      ∀ context schema,
        let session : Session := ⟨some context⟩
        let inscribed := Generator.inscribeGenerate engine (.chain context) user schema
        Generator.indexerGenerate engine context user schema = inscribed ∧
          engine.indexerGenerateWithContext context user schema = inscribed ∧
          session.indexerGenerate engine user schema = inscribed ∧
          session.generate engine user schema = inscribed ∧
          ∀ expected, session.verify engine user schema expected =
            Generator.inscribeVerify engine (.chain context) user schema expected := by
  refine ⟨fun seed seed' material container => .of_material material container,
    fun seed seed' => SeedSource.material_eq_iff,
    fun seed schema expected => inscribeVerify_eq_verifyFrom engine seed user schema expected, ?_⟩
  intro context schema session inscribed
  exact ⟨rfl, rfl, rfl, rfl, fun expected => rfl⟩

/-- Another block, another place where its hash ends, and no block at all. -/
theorem answers_through_material_recut :
    let engine : Engine := { config := { chainContainer := .text } }
    let seed : SeedSource := .chain ⟨7, "abc", "xyz"⟩
    let schema := Bytes.ofText
      r#"[{"power":{"type":"range","data":{"min":1,"max":10}}}]"#
    let output := Bytes.ofText r#"{"id":"token-1","power":10}"#
    Generator.inscribeGenerate engine seed "token-1" schema = .ok output ∧
      ∀ seed' ∈ [.chain ⟨8, "ab", "cxyz"⟩, SeedSource.explicit "abcxyz"],
        seed.material "token-1" = seed'.material "token-1" ∧
          engine.config.containerFor seed = engine.config.containerFor seed' ∧
          engine.SameAnswers "token-1" seed seed' ∧
          Generator.inscribeGenerate engine seed' "token-1" schema = .ok output := by
  intro engine seed schema output
  have first : Generator.inscribeGenerate engine seed "token-1" schema = .ok output := by
    decide +kernel
  refine ⟨first, fun seed' hseed' => ?_⟩
  have material : seed.material "token-1" = seed'.material "token-1" := by
    revert seed'
    decide
  have container : engine.config.containerFor seed = engine.config.containerFor seed' := by
    revert seed'
    decide
  have same := (answers_through_material engine "token-1").1 seed seed' material container
  exact ⟨material, container, same, (same.inscribeGenerate schema).symm.trans first⟩

end Engine
end SeededTraits
