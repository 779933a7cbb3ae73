import Mathlib.Data.List.Basic
import SeededTraits.Session

/-! The context of a session is set once. Of all publications in a run only the first is taken, and
what a step answers hangs on nothing in the run but that one. -/
namespace SeededTraits
namespace Session

/-- What a step has to do with the published context. -/
inductive Role
  | publishes (context : ChainContext)
  | shows
  /-- There is an answer only for a context. -/
  | needs (answer : ChainContext → Outcome)
  /-- Whatever the answer takes comes with the step. -/
  | carries

namespace Step

def role : Step → Role
  | announce blockNumber blockHash transactionHash =>
    .publishes ⟨blockNumber, blockHash, transactionHash⟩
  | publish context => .publishes context
  | published => .shows
  | required => .needs fun context => .context (some context)
  | generate engine user schema => .needs fun context =>
    .ofExcept .output (engine.generateWithContext context user schema)
  | indexerGenerate engine inscription schema => .needs fun context =>
    .ofExcept .output (engine.indexerGenerateWithContext context inscription schema)
  | verify engine user schema expected => .needs fun context =>
    .ofExcept .verified (engine.verifyWithContext context user schema expected)
  | resolve .. | resolveWithContext .. | resolveWithSeed .. => .carries
  | generateWithContext .. | generateWithSeed .. | indexerGenerateWithContext .. => .carries
  | verifyWithContext .. | verifyWithSeed .. => .carries

def publishes? (next : Step) : Option ChainContext :=
  match next.role with
  | .publishes context => some context
  | _ => none

end Step

/-- The context that the steps try to publish before any other. -/
def firstPublished? (steps : List Step) : Option ChainContext :=
  steps.findSome? Step.publishes?

def withoutPublications (steps : List Step) : List Step :=
  steps.filter fun next => next.publishes?.isNone

def final (s : Session) (steps : List Step) : Session :=
  steps.foldl (fun s next => (s.step next).2) s

/-! ### One step -/

theorem step_context (s : Session) (next : Step) :
    (s.step next).2 = ⟨s.context.or next.publishes?⟩ := by
  obtain ⟨published⟩ := s
  cases published <;> cases next <;> rfl

theorem step_outcome (s : Session) (next : Step) :
    (s.step next).1 =
      match next.role, s.context with
      | .publishes _, none => .done
      | .publishes _, some _ => .failed .contextAlreadyPublished
      | .shows, published => .context published
      | .needs _, none => .failed .contextUnavailable
      | .needs answer, some context => answer context
      | .carries, _ => (step {} next).1 := by
  obtain ⟨published⟩ := s
  cases published <;> cases next <;> rfl

/-! ### Steps in a row -/

/-- Whatever the steps are, the first context that is offered is there and stays. -/
theorem final_eq (s : Session) (steps : List Step) :
    s.final steps = ⟨s.context.or (firstPublished? steps)⟩ := by
  induction steps generalizing s with
  | nil => simp [final, firstPublished?]
  | cons next rest ih =>
    have tail := ih (s.step next).2
    rw [step_context] at tail
    simp only [final, List.foldl_cons, step_context] at tail ⊢
    rw [tail, firstPublished?, firstPublished?, List.findSome?_cons, Option.or_assoc]
    cases next.publishes? <;> rfl

theorem run_append (s : Session) (a b : List Step) :
    s.run (a ++ b) = s.run a ++ (s.final a).run b := by
  induction a generalizing s with
  | nil => rfl
  | cons next a ih => simp [run, final, ih]

theorem length_run (s : Session) (steps : List Step) : (s.run steps).length = steps.length := by
  induction steps generalizing s with
  | nil => rfl
  | cons next rest ih => simp [run, ih]

theorem getElem?_run (s : Session) (before : List Step) (next : Step) (after : List Step) :
    (s.run (before ++ next :: after))[before.length]? = some ((s.final before).step next).1 := by
  rw [run_append, List.getElem?_append_right (by simp [length_run])]
  simp [length_run, run]

theorem final_fresh (steps : List Step) : final {} steps = ⟨firstPublished? steps⟩ := by
  rw [final_eq, Option.none_or]

theorem firstPublished?_concat (before : List Step) (next : Step) :
    firstPublished? (before ++ [next]) = (firstPublished? before).or next.publishes? := by
  simp [firstPublished?, List.findSome?_append]

theorem withoutPublications_append_cons {next : Step} (h : next.publishes? = none)
    (before after : List Step) :
    withoutPublications (before ++ next :: after) =
      withoutPublications before ++ next :: withoutPublications after := by
  simp [withoutPublications, h]

/-- In a run of a fresh session, the first attempt to publish succeeds and sets the context, and
later ones fail and leave the session as it is. Before that attempt, steps that need a context find
none; after it they answer for that context. All other steps answer as they do in the run that is
left when the publications are taken out. -/
theorem run_publishes_once (before : List Step) (next : Step) (after : List Step) :
    ∃ outcome, (run {} (before ++ next :: after))[before.length]? = some outcome ∧
      match next.role, firstPublished? before with
      | .publishes context, none =>
        outcome = .done ∧ final {} (before ++ [next]) = ⟨some context⟩
      | .publishes _, some _ =>
        outcome = .failed .contextAlreadyPublished ∧
          final {} (before ++ [next]) = final {} before
      | .shows, published => outcome = .context published
      | .needs _, none => outcome = .failed .contextUnavailable
      | .needs answer, some context => outcome = answer context
      | .carries, _ =>
        (run {} (withoutPublications (before ++ next :: after)))[
          (withoutPublications before).length]? = some outcome := by
  have outcome := step_outcome (final {} before) next
  refine ⟨_, getElem?_run {} before next after, ?_⟩
  rw [final_fresh] at outcome
  simp only [final_fresh, firstPublished?_concat]
  cases hrole : next.role with
  | publishes context =>
    have offered : next.publishes? = some context := by simp [Step.publishes?, hrole]
    cases hfirst : firstPublished? before with
    | none => simpa [hrole, hfirst, offered] using outcome
    | some first => simpa [hrole, hfirst] using outcome
  | shows => simpa [hrole] using outcome
  | needs answer =>
    cases hfirst : firstPublished? before with
    | none => simpa [hrole, hfirst] using outcome
    | some first => simpa [hrole, hfirst] using outcome
  | carries =>
    have offered : next.publishes? = none := by simp [Step.publishes?, hrole]
    have alone := step_outcome (final {} (withoutPublications before)) next
    rw [hrole] at outcome alone
    simp only at outcome alone ⊢
    rw [withoutPublications_append_cons offered, getElem?_run, outcome, alone]

end Session
end SeededTraits
