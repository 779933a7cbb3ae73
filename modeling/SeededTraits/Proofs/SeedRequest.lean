import SeededTraits.Proofs.Engine
import SeededTraits.Proofs.Seed
import SeededTraits.SeedRequest

/-! A request straight from its seed goes by way of a text, and is answered as an engine for texts
answers it. An engine for the other container agrees with both as long as the text of the document
can be read, which the number key may prevent. -/
namespace SeededTraits

namespace SeedRequest

variable {r : SeedRequest} {text : Bytes}

def parsed (r : SeedRequest) : Schema :=
  Schema.ofValue r.schema.toValue

def answer (r : SeedRequest) : Except EngineError Resolved :=
  (r.parsed.resolve (SeedMaterial.ofSeed r.seed r.user).digest r.user).mapError .invalidRange

theorem answer_ne_malformed (r : SeedRequest) (cause : Malformation) :
    r.answer ≠ .error (.malformed cause) := by
  intro h
  cases hresolve : r.parsed.resolve (SeedMaterial.ofSeed r.seed r.user).digest r.user with
  | ok s => simp [answer, hresolve, Except.mapError] at h
  | error e => simp [answer, hresolve, Except.mapError] at h

theorem answer_eq (r : SeedRequest) :
    match r.parsed.firstUnbounded? with
    | none => ∃ s, r.answer = .ok s ∧ s.id = r.user
    | some e => r.answer = .error (.invalidRange ⟨e.1, e.2.min, e.2.max⟩) := by
  split
  · rename_i bounded
    obtain ⟨s, hs, hid, -⟩ := Schema.resolve_of_bounded bounded
      (SeedMaterial.ofSeed r.seed r.user).digest r.user
    exact ⟨s, Except.mapError_eq_ok.2 hs, hid⟩
  · rename_i e first
    have refused (d : Digest) : r.parsed.resolve d r.user = .error ⟨e.1, e.2.min, e.2.max⟩ :=
      Schema.resolve_of_firstUnbounded? first
    exact congrArg (Except.mapError EngineError.invalidRange) (refused _)

theorem parse_schemaBytes_of_parse? (hlength : text.length < UInt64.size)
    (hparse : Json.parse? text = some r.schema) (c : Container) :
    Schema.parse c (r.schemaBytes c) =
      if c.keeps r.schema then .ok r.parsed else .error .unreadable := by
  have decoded := Container.decode_encode_of_readable (Json.Readable.of_parse? hparse) hlength c
  rw [schemaBytes, Schema.parse, decoded]
  split <;> rfl

theorem resolve_eq (hlength : text.length < UInt64.size)
    (hparse : Json.parse? text = some r.schema) :
    r.resolve = if r.schema.isPlain then r.answer else .error (.malformed .unreadable) := by
  rw [resolve, parse_schemaBytes_of_parse? hlength hparse, Container.keeps]
  cases r.schema.isPlain <;> rfl

/-- Where the schema is not too large, the material and what the container keeps decide. -/
theorem engine_resolve_eq (hlength : text.length < UInt64.size)
    (hparse : Json.parse? text = some r.schema) {engine : Engine} {c : Container}
    (fits : (r.schemaBytes c).length ≤ engine.config.maxSchemaBytes) {material : SeedMaterial}
    (hmaterial : material = .ofSeed r.seed r.user) :
    engine.resolve material r.user (r.schemaBytes c) c =
      if c.keeps r.schema then r.answer else .error (.malformed .unreadable) := by
  rw [Engine.resolve, if_neg (Nat.not_lt.2 fits), parse_schemaBytes_of_parse? hlength hparse,
    hmaterial]
  cases c.keeps r.schema <;> rfl

/-- The document fails to be read from its text only where the number key stands first in it. -/
theorem engine_resolve_eq_iff (hlength : text.length < UInt64.size)
    (hparse : Json.parse? text = some r.schema) {engine : Engine} {c : Container}
    (fits : (r.schemaBytes c).length ≤ engine.config.maxSchemaBytes) {material : SeedMaterial}
    (hmaterial : material = .ofSeed r.seed r.user) :
    engine.resolve material r.user (r.schemaBytes c) c = r.resolve ↔
      c = .text ∨ r.schema.isPlain = true := by
  rw [engine_resolve_eq hlength hparse fits hmaterial, resolve_eq hlength hparse]
  cases c with
  | text => exact iff_of_true rfl (.inl rfl)
  | binary =>
    cases plain : r.schema.isPlain with
    | true => simp [Container.keeps]
    | false => simpa [Container.keeps] using r.answer_ne_malformed .unreadable

/-- An engine of either kind of seed answers a request as the request itself does, unless the engine
reads CBOR and the number key stands first in some object of the document: then the request cannot
read its own schema. Otherwise there is one output, or the first range that has no bounds. The bound
on the length holds of all texts in memory. -/
theorem resolveWith_eq_resolve (hlength : text.length < UInt64.size)
    (hparse : Json.parse? text = some r.schema) :
    (∀ engine : Engine,
      (r.schemaBytes engine.config.seedContainer).length ≤ engine.config.maxSchemaBytes →
        (engine.resolveWithSeed r.seed r.user (r.schemaBytes engine.config.seedContainer) =
          r.resolve ↔ engine.config.seedContainer = .text ∨ r.schema.isPlain = true)) ∧
      (∀ (engine : Engine) (context : ChainContext),
        context.blockHash ++ context.transactionHash = r.seed →
          (r.schemaBytes engine.config.chainContainer).length ≤ engine.config.maxSchemaBytes →
            (engine.resolveWithContext context r.user
              (r.schemaBytes engine.config.chainContainer) = r.resolve ↔
                engine.config.chainContainer = .text ∨ r.schema.isPlain = true)) ∧
      (r.schema.isPlain = true → match r.parsed.firstUnbounded? with
        | none => ∃ s, r.resolve = .ok s ∧ s.id = r.user
        | some e => r.resolve = .error (.invalidRange ⟨e.1, e.2.min, e.2.max⟩)) ∧
      (r.schema.isPlain = false → r.resolve = .error (.malformed .unreadable)) := by
  refine ⟨fun engine fits => engine_resolve_eq_iff hlength hparse fits rfl,
    fun engine context whole fits => ?_, fun plain => ?_, fun marked => ?_⟩
  · have material : (SeedSource.chain context).material r.user =
        (SeedSource.explicit r.seed).material r.user := SeedSource.material_eq_iff.2 whole
    exact engine_resolve_eq_iff hlength hparse fits material
  · rw [resolve_eq hlength hparse, if_pos plain]
    exact r.answer_eq
  · rw [resolve_eq hlength hparse, marked]
    rfl

theorem resolveWith_eq_resolve_level :
    let text := Bytes.ofText r#"[{"level":{"type":"range","data":{"min":3,"max":9}}}]"#
    let bound (d : Json.Digit) : Json := .number ⟨false, [d], [], none⟩
    let range : Json := .object [("max", bound 9), ("min", bound 3)]
    let d : Json := .array [.object [("level", .object
      [("data", range), ("type", .string "range")])]]
    let r : SeedRequest := ⟨"abcxyz", "token-1", d⟩
    let engine : Engine := {}
    let context : ChainContext := ⟨7, "abc", "xyz"⟩
    text.length < UInt64.size ∧ Json.parse? text = some r.schema ∧ r.schema.isPlain = true ∧
      (r.schemaBytes .text).length ≤ engine.config.maxSchemaBytes ∧
      engine.resolveWithSeed r.seed r.user (r.schemaBytes .text) = r.resolve ∧
      context.blockHash ++ context.transactionHash = r.seed ∧
      (r.schemaBytes .binary).length ≤ engine.config.maxSchemaBytes ∧
      engine.resolveWithContext context r.user (r.schemaBytes .binary) = r.resolve ∧
      ∃ s, r.resolve = .ok s ∧ s.id = r.user := by
  intro text bound range d r engine context
  have hlength : text.length < UInt64.size := by decide
  have hparse : Json.parse? text = some r.schema := rfl
  have plain : r.schema.isPlain = true := by decide
  have inText : (r.schemaBytes .text).length ≤ engine.config.maxSchemaBytes := by decide
  have inBinary : (r.schemaBytes .binary).length ≤ engine.config.maxSchemaBytes := by decide
  have whole : context.blockHash ++ context.transactionHash = r.seed := by decide
  obtain ⟨seeded, chained, answer, -⟩ := resolveWith_eq_resolve hlength hparse
  exact ⟨hlength, hparse, plain, inText, (seeded engine inText).2 (.inr plain), whole, inBinary,
    (chained engine context whole inBinary).2 (.inr plain), answer plain⟩

/-- The number key is the last one in this text and the first one in the text that is made of its
document, where it calls for a number. -/
theorem resolveWith_ne_resolve_number :
    let text := Bytes.ofText (r#"[{"power":{"type":"range","data":{"min":1,"max":10}},"# ++
      r#""$serde_json::private::Number":"x"}]"#)
    let bound (ds : List Json.Digit) : Json := .number ⟨false, ds, [], none⟩
    let range : Json := .object [("max", bound [1, 0]), ("min", bound [1])]
    let d : Json := .array [.object [(Json.numberKey, .string "x"),
      ("power", .object [("data", range), ("type", .string "range")])]]
    let r : SeedRequest := ⟨"abcxyz", "token-1", d⟩
    let engine : Engine := ⟨{ seedContainer := .binary }⟩
    Json.parse? text = some r.schema ∧
      (r.schemaBytes .binary).length ≤ engine.config.maxSchemaBytes ∧
      engine.resolveWithSeed r.seed r.user (r.schemaBytes .binary) =
        .ok ((Resolved.mk "token-1" .empty).insert "power" 10) ∧
      r.resolve = .error (.malformed .unreadable) := by
  intro text bound range d r engine
  exact ⟨rfl, by decide +kernel, by decide +kernel, by decide +kernel⟩

end SeedRequest
end SeededTraits
