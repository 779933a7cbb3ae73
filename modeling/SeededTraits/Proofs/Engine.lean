import SeededTraits.Engine
import SeededTraits.Proofs.Bytes
import SeededTraits.Proofs.Resolution
import SeededTraits.Proofs.Resolved.RoundTrip

/-! What an engine answers and what a check says of an output. A schema is refused for its length,
for its form or for its ranges, in this order; seed and user decide what is generated and never
whether. An output that passes its check can be read, and it fits user and schema. -/
namespace SeededTraits

namespace Engine

variable {engine : Engine} {material : SeedMaterial} {seed : SeedSource} {user : String}
  {schema expected : Bytes} {c : Container} {s : Resolved}

theorem resolve_eq_ok (h : engine.resolve material user schema c = .ok s) :
    ∃ parsed, Schema.parse c schema = .ok parsed ∧ parsed.resolve material.digest user = .ok s := by
  unfold resolve at h
  split at h
  · contradiction
  split at h
  · contradiction
  rename_i parsed hparse
  exact ⟨parsed, hparse, Except.mapError_eq_ok.1 h⟩

def resolveFrom (engine : Engine) (seed : SeedSource) (user : String) (schema : Bytes) :
    Except EngineError Resolved :=
  engine.resolve (seed.material user) user schema (engine.config.containerFor seed)

def verifyFrom (engine : Engine) : SeedSource → (user : String) → (schema expected : Bytes) →
    Except EngineError Bool
  | .chain context => engine.verifyWithContext context
  | .explicit seed => engine.verifyWithSeed seed

theorem verifyFrom_eq (engine : Engine) (seed : SeedSource) (user : String)
    (schema expected : Bytes) :
    engine.verifyFrom seed user schema expected =
      ((engine.resolveFrom seed user schema).map (·.encode (engine.config.containerFor seed))).map
        (· == expected) := by
  cases seed <;> rfl

theorem resolveFrom_of_verifyFrom (h : engine.verifyFrom seed user schema expected = .ok true) :
    ∃ s, engine.resolveFrom seed user schema = .ok s ∧
      s.encode (engine.config.containerFor seed) = expected := by
  rw [verifyFrom_eq] at h
  obtain ⟨bs, hbs, hequal⟩ := Except.map_eq_ok.1 h
  obtain ⟨s, hs, rfl⟩ := Except.map_eq_ok.1 hbs
  exact ⟨s, hs, by simpa using hequal⟩

/-- An output that passes the check is read back as the user's own: under every key of the schema,
and under no other, it has a value between the bounds that the key has where it is first defined. In
a text the number key must not be one of them. The bound on the length holds of all byte strings in
memory. -/
theorem decode_of_verifyFrom (hlength : expected.length < UInt64.size)
    (ordinary : engine.config.containerFor seed = .text → ∀ parsed,
      Schema.parse .text schema = .ok parsed → Json.numberKey ∉ parsed.definitions.map Prod.fst)
    (h : engine.verifyFrom seed user schema expected = .ok true) :
    ∃ s parsed, Resolved.decode (engine.config.containerFor seed) expected = .ok s ∧
      Schema.parse (engine.config.containerFor seed) schema = .ok parsed ∧ s.id = user ∧
      (∀ key, (s.get? key).isSome ↔ key ≠ idKey ∧ key ∈ parsed.definitions.map Prod.fst) ∧
      ∀ key n, s.get? key = some n →
        ∃ r b, parsed.definitions.lookup key = some r ∧ r.bounds? = some b ∧
          b.min ≤ n ∧ n ≤ b.max := by
  obtain ⟨s, hs, rfl⟩ := resolveFrom_of_verifyFrom h
  obtain ⟨parsed, hparse, hresolve⟩ := resolve_eq_ok hs
  have keys := Schema.isSome_get?_of_resolve hresolve
  have kept : (engine.config.containerFor seed).keeps s.toJson = true := by
    cases hc : engine.config.containerFor seed with
    | binary => rfl
    | text =>
      rw [hc] at hparse
      refine Resolved.keeps_toJson ?_ .text
      rw [← Option.not_isSome_iff_eq_none, keys]
      exact fun ⟨_, key⟩ => ordinary hc parsed hparse key
  have addressable : s.Addressable := .of_length_encode hlength
  have read := Resolved.decode_output addressable (engine.config.containerFor seed)
  rw [if_pos kept] at read
  exact ⟨s, parsed, read, hparse, (Schema.resolve_eq_ok hresolve).2.1, keys,
    fun key n hn => Schema.bounds_of_resolve hresolve hn⟩

theorem decode_of_verifyFrom_level :
    let engine : Engine := {}
    let seed : SeedSource := .explicit "random-seed"
    let schema := Bytes.ofText (r#"[{"level":{"type":"range","data":{"min":1,"max":1000}},"# ++
      r#""id":{"type":"range","data":{"min":0,"max":1}}},"# ++
      r#"{"level":{"type":"range","data":{"min":5,"max":6}}}]"#)
    let expected := Bytes.ofText r#"{"id":"user-input","level":27}"#
    let parsed : Schema := ⟨[⟨[("id", .range ⟨0, 1⟩), ("level", .range ⟨1, 1000⟩)]⟩,
      ⟨[("level", .range ⟨5, 6⟩)]⟩]⟩
    expected.length < UInt64.size ∧ Schema.parse .text schema = .ok parsed ∧
      Json.numberKey ∉ parsed.definitions.map Prod.fst ∧
      engine.verifyFrom seed "user-input" schema expected = .ok true ∧
      ∃ s parsed, Resolved.decode (engine.config.containerFor seed) expected = .ok s ∧
        Schema.parse (engine.config.containerFor seed) schema = .ok parsed ∧
        s.id = "user-input" ∧
        (∀ key, (s.get? key).isSome ↔ key ≠ idKey ∧ key ∈ parsed.definitions.map Prod.fst) ∧
        ∀ key n, s.get? key = some n →
          ∃ r b, parsed.definitions.lookup key = some r ∧ r.bounds? = some b ∧
            b.min ≤ n ∧ n ≤ b.max := by
  intro engine seed schema expected parsed
  have hlength : expected.length < UInt64.size := by decide
  have hparse : Schema.parse .text schema = .ok parsed := by decide +kernel
  have ordinary : Json.numberKey ∉ parsed.definitions.map Prod.fst := by decide
  have passes : engine.verifyFrom seed "user-input" schema expected = .ok true := by
    decide +kernel
  refine ⟨hlength, hparse, ordinary, passes,
    decode_of_verifyFrom hlength (fun _ found h => ?_) passes⟩
  obtain rfl : found = parsed := Except.ok.inj (h.symm.trans hparse)
  exact ordinary

end Engine

/-! ### Whether an engine answers -/

namespace EngineConfig

/-- Why a schema is refused; a reason counts only where those above it do not apply. -/
inductive Refuses (config : EngineConfig) (c : Container) (schema : Bytes) : EngineError → Prop
  | tooLarge (long : config.maxSchemaBytes < schema.length) :
    Refuses config c schema (.schemaTooLarge schema.length config.maxSchemaBytes)
  | malformed {cause : Malformation} (fits : schema.length ≤ config.maxSchemaBytes)
      (unread : c.decode schema = .error cause) : Refuses config c schema (.malformed cause)
  /-- The first range without bounds is the one that is reported. -/
  | invalidRange {v : Value} {key : String} {r : Range}
      (fits : schema.length ≤ config.maxSchemaBytes) (read : c.decode schema = .ok v)
      (first : (Schema.ofValue v).firstUnbounded? = some (key, r)) :
    Refuses config c schema (.invalidRange ⟨key, r.min, r.max⟩)

/-- A schema that can be resolved: short enough, well formed, and with bounds to every range. -/
def Admits (config : EngineConfig) (c : Container) (schema : Bytes) : Prop :=
  schema.length ≤ config.maxSchemaBytes ∧
    ∃ v, c.decode schema = .ok v ∧ ∀ e ∈ (Schema.ofValue v).definitions, e.2.bounds?.isSome

end EngineConfig

namespace Engine

variable {engine : Engine} {material : SeedMaterial} {seed : SeedSource} {user : String}
  {schema : Bytes} {c : Container}

/-! ### Resolution -/

theorem resolve_of_parse {parsed : Schema} (fits : schema.length ≤ engine.config.maxSchemaBytes)
    (hparse : Schema.parse c schema = .ok parsed) (material : SeedMaterial) (user : String) :
    engine.resolve material user schema c =
      (parsed.resolve material.digest user).mapError .invalidRange := by
  rw [resolve, if_neg (Nat.not_lt.2 fits), hparse]

theorem resolve_of_refuses {e : EngineError} (h : engine.config.Refuses c schema e)
    (material : SeedMaterial) (user : String) :
    engine.resolve material user schema c = .error e := by
  cases h with
  | tooLarge long => rw [resolve, if_pos long]
  | malformed fits unread =>
    rw [resolve, if_neg (Nat.not_lt.2 fits), Schema.parse, unread, Except.map]
  | invalidRange fits read first =>
    rw [resolve_of_parse fits (Schema.parse_of_decode read),
      Schema.resolve_of_firstUnbounded? first]
    rfl

theorem resolve_of_admits (h : engine.config.Admits c schema) (material : SeedMaterial)
    (user : String) : ∃ s, engine.resolve material user schema c = .ok s := by
  obtain ⟨fits, v, read, bounded⟩ := h
  obtain ⟨s, hs, -⟩ := Schema.resolve_of_bounded (Schema.firstUnbounded?_eq_none_iff.2 bounded)
    material.digest user
  refine ⟨s, ?_⟩
  rw [resolve_of_parse fits (Schema.parse_of_decode read), hs]
  rfl

theorem admits_or_refuses (config : EngineConfig) (c : Container) (schema : Bytes) :
    config.Admits c schema ∨ ∃ e, config.Refuses c schema e := by
  by_cases long : config.maxSchemaBytes < schema.length
  · exact .inr ⟨_, .tooLarge long⟩
  have fits : schema.length ≤ config.maxSchemaBytes := Nat.not_lt.1 long
  cases hdecode : c.decode schema with
  | error cause => exact .inr ⟨_, .malformed fits hdecode⟩
  | ok v =>
    cases hfirst : (Schema.ofValue v).firstUnbounded? with
    | none => exact .inl ⟨fits, v, hdecode, Schema.firstUnbounded?_eq_none_iff.1 hfirst⟩
    | some e => exact .inr ⟨_, .invalidRange fits hdecode hfirst⟩

theorem resolve_eq_error_iff {e : EngineError} :
    engine.resolve material user schema c = .error e ↔ engine.config.Refuses c schema e := by
  refine ⟨fun h => ?_, fun h => resolve_of_refuses h material user⟩
  rcases admits_or_refuses engine.config c schema with admitted | ⟨e', refused⟩
  · obtain ⟨s, hs⟩ := resolve_of_admits admitted material user
    rw [hs] at h
    contradiction
  · rw [resolve_of_refuses refused] at h
    rwa [← Except.error.inj h]

theorem exists_resolve_iff (material : SeedMaterial) (user : String) :
    (∃ s, engine.resolve material user schema c = .ok s) ↔ engine.config.Admits c schema := by
  refine ⟨fun ⟨s, hs⟩ => ?_, fun h => resolve_of_admits h material user⟩
  rcases admits_or_refuses engine.config c schema with admitted | ⟨e, refused⟩
  · exact admitted
  · rw [resolve_of_refuses refused] at hs
    contradiction

/-- A limit that is not exceeded has no part in the result. -/
theorem resolve_of_larger {limit : Nat} (fits : schema.length ≤ engine.config.maxSchemaBytes)
    (larger : engine.config.maxSchemaBytes ≤ limit) :
    (Engine.mk { engine.config with maxSchemaBytes := limit }).resolve material user schema c =
      engine.resolve material user schema c := by
  rw [resolve, resolve, if_neg (Nat.not_lt.2 (Nat.le_trans fits larger)),
    if_neg (Nat.not_lt.2 fits)]

/-! ### Generation -/

/-- The generation that belongs to the kind of the seed. -/
def generateFrom (engine : Engine) : SeedSource → (user : String) → (schema : Bytes) →
    Except EngineError Bytes
  | .chain context => engine.generateWithContext context
  | .explicit seed => engine.generateWithSeed seed

theorem generateFrom_eq (engine : Engine) (seed : SeedSource) (user : String) (schema : Bytes) :
    engine.generateFrom seed user schema =
      (engine.resolveFrom seed user schema).map (·.encode (engine.config.containerFor seed)) := by
  cases seed <;> rfl

theorem generateFrom_eq_error_iff {e : EngineError} :
    engine.generateFrom seed user schema = .error e ↔
      engine.config.Refuses (engine.config.containerFor seed) schema e := by
  rw [generateFrom_eq, Except.map_eq_error, resolveFrom, resolve_eq_error_iff]

theorem exists_generateFrom_iff (user : String) :
    (∃ output, engine.generateFrom seed user schema = .ok output) ↔
      engine.config.Admits (engine.config.containerFor seed) schema := by
  rw [generateFrom_eq, ← exists_resolve_iff (seed.material user) user]
  simp only [Except.map_eq_ok, resolveFrom]
  constructor
  · rintro ⟨_, s, hs, -⟩
    exact ⟨s, hs⟩
  · rintro ⟨s, hs⟩
    exact ⟨_, s, hs, rfl⟩

theorem containerFor_limit (config : EngineConfig) (limit : Nat) (seed : SeedSource) :
    { config with maxSchemaBytes := limit }.containerFor seed = config.containerFor seed := by
  cases seed <;> rfl

theorem generateFrom_of_larger {limit : Nat} (fits : schema.length ≤ engine.config.maxSchemaBytes)
    (larger : engine.config.maxSchemaBytes ≤ limit) :
    (Engine.mk { engine.config with maxSchemaBytes := limit }).generateFrom seed user schema =
      engine.generateFrom seed user schema := by
  simp only [generateFrom_eq, resolveFrom, containerFor_limit, resolve_of_larger fits larger]

theorem verifyFrom_eq_generateFrom (engine : Engine) (seed : SeedSource) (user : String)
    (schema expected : Bytes) :
    engine.verifyFrom seed user schema expected =
      (engine.generateFrom seed user schema).map (· == expected) := by
  rw [verifyFrom_eq, generateFrom_eq]

/-- Generation fails on a schema that the configuration refuses, with the reason of the refusal, and
succeeds on every other. So no other seed of that container and no other user changes whether it
fails, or how; a larger limit changes nothing but that a schema is too large; and a check fails in
the same way or compares the output. -/
theorem generateFrom_outcome (engine : Engine) (seed : SeedSource) (user : String)
    (schema : Bytes) :
    let config := engine.config
    let c := config.containerFor seed
    let outcome := engine.generateFrom seed user schema
    (∀ e, outcome = .error e ↔ config.Refuses c schema e) ∧
      ((∃ output, outcome = .ok output) ↔
        schema.length ≤ config.maxSchemaBytes ∧ ∃ v, c.decode schema = .ok v ∧
          ∀ definition ∈ (Schema.ofValue v).definitions, definition.2.bounds?.isSome) ∧
      (∀ seed' user', config.containerFor seed' = c → ∀ e,
        engine.generateFrom seed' user' schema = .error e ↔ outcome = .error e) ∧
      (∀ limit, config.maxSchemaBytes ≤ limit →
        (∀ length, outcome ≠ .error (.schemaTooLarge length config.maxSchemaBytes)) →
          (Engine.mk { config with maxSchemaBytes := limit }).generateFrom seed user schema =
            outcome) ∧
      ∀ expected, engine.verifyFrom seed user schema expected =
        match outcome with
        | .error e => .error e
        | .ok output => .ok (output == expected) := by
  refine ⟨fun e => generateFrom_eq_error_iff, exists_generateFrom_iff user,
    fun seed' user' same e => ?_, fun limit larger small => ?_, fun expected => ?_⟩
  · rw [generateFrom_eq_error_iff, generateFrom_eq_error_iff, same]
  · refine generateFrom_of_larger (Nat.not_lt.1 fun long => ?_) larger
    exact small _ (generateFrom_eq_error_iff.2 (.tooLarge long))
  · rw [verifyFrom_eq_generateFrom]
    cases engine.generateFrom seed user schema <;> rfl

theorem generateFrom_outcome_level :
    let config : EngineConfig := { maxSchemaBytes := 64 }
    let schema := Bytes.ofText
      r#"[{"level":{"type":"range","data":{"min":9,"max":3}}}]"#
    let outcome := (Engine.mk config).generateFrom (.explicit "a") "u" schema
    let failure := EngineError.invalidRange ⟨"level", 9, 3⟩
    outcome = .error failure ∧
      config.containerFor (.explicit "b") = config.containerFor (.explicit "a") ∧
      config.maxSchemaBytes ≤ 65 ∧
      (∀ length, outcome ≠ .error (.schemaTooLarge length config.maxSchemaBytes)) ∧
      (Engine.mk config).generateFrom (.explicit "b") "v" schema = .error failure ∧
      (Engine.mk { config with maxSchemaBytes := 65 }).generateFrom (.explicit "a") "u" schema =
        outcome := by
  intro config schema outcome failure
  have failed : outcome = .error failure := by decide +kernel
  have short : ∀ length, outcome ≠ .error (.schemaTooLarge length config.maxSchemaBytes) := by
    intro length
    rw [failed]
    simp [failure]
  obtain ⟨-, -, others, larger, -⟩ :=
    generateFrom_outcome (Engine.mk config) (.explicit "a") "u" schema
  have same := (others (.explicit "b") "v" rfl failure).2 failed
  exact ⟨failed, rfl, by decide, short, same, larger 65 (by decide) short⟩

end Engine

end SeededTraits
