import Mathlib.Data.List.Nodup
import Mathlib.Tactic.Choose
import SeededTraits.Mint
import SeededTraits.Proofs.Generator
import SeededTraits.Proofs.Resolved.RoundTrip
import SeededTraits.ReferenceVector

/-! Whose an output is. It passes the check for its own user and, whatever mint checks it against
whatever arguments, for no other; and so it is with the outputs that reference vectors record. -/
namespace SeededTraits

/-- An output carries its user, so two checks that it passes are for the same user. -/
theorem Engine.user_eq_of_verifyFrom {engine engine' : Engine} {seed seed' : SeedSource}
    {user user' : String} {schema schema' output : Bytes} (hlength : output.length < UInt64.size)
    (h : engine.verifyFrom seed user schema output = .ok true)
    (h' : engine'.verifyFrom seed' user' schema' output = .ok true) : user = user' := by
  obtain ⟨s, hs, rfl⟩ := resolveFrom_of_verifyFrom h
  obtain ⟨t, ht, hbytes⟩ := resolveFrom_of_verifyFrom h'
  obtain ⟨_, -, hresolve⟩ := resolve_eq_ok hs
  obtain ⟨_, -, hresolve'⟩ := resolve_eq_ok ht
  have hlength' := hlength
  rw [← hbytes] at hlength'
  have same : s = t :=
    Resolved.eq_of_encode_eq (.of_length_encode hlength) (.of_length_encode hlength') hbytes.symm
  rw [← (Schema.resolve_eq_ok hresolve).2.1, same, (Schema.resolve_eq_ok hresolve').2.1]

namespace Mint

variable {m m' : Mint} {user user' : String} {args args' : List String} {output : Bytes}

theorem issue_eq_ok_iff : m.issue user args = .ok output ↔
    ∃ schema, m.schema args = .ok schema ∧
      m.engine.generateFrom m.seedSource user schema = .ok output :=
  Except.bind_eq_ok

theorem verifyIssue_eq_ok_iff {agrees : Bool} : m.verifyIssue user args output = .ok agrees ↔
    ∃ schema, m.schema args = .ok schema ∧
      m.engine.verifyFrom m.seedSource user schema output = .ok agrees :=
  Except.bind_eq_ok

theorem verifyIssue_of_issue (h : m.issue user args = .ok output) :
    m.verifyIssue user args output = .ok true := by
  obtain ⟨schema, hschema, hgenerate⟩ := issue_eq_ok_iff.1 h
  refine verifyIssue_eq_ok_iff.2 ⟨schema, hschema, ?_⟩
  rw [Engine.verifyFrom_eq_generateFrom, hgenerate]
  simp [Except.map]

theorem user_eq_of_verifyIssue (hlength : output.length < UInt64.size)
    (h : m.verifyIssue user args output = .ok true)
    (h' : m'.verifyIssue user' args' output = .ok true) : user = user' := by
  obtain ⟨_, -, hverify⟩ := verifyIssue_eq_ok_iff.1 h
  obtain ⟨_, -, hverify'⟩ := verifyIssue_eq_ok_iff.1 h'
  exact Engine.user_eq_of_verifyFrom hlength hverify hverify'

/-- What one user can be issued, every user can. -/
theorem exists_issue (h : m.issue user args = .ok output) (user' : String) :
    ∃ output', m.issue user' args = .ok output' := by
  obtain ⟨schema, hschema, hgenerate⟩ := issue_eq_ok_iff.1 h
  have admitted := (Engine.exists_generateFrom_iff user).1 ⟨output, hgenerate⟩
  obtain ⟨output', hgenerate'⟩ := (Engine.exists_generateFrom_iff user').2 admitted
  exact ⟨output', issue_eq_ok_iff.2 ⟨schema, hschema, hgenerate'⟩⟩

@[simp] theorem length_users (n : Nat) : (users n).length = n := by
  simp [users]

theorem nodup_users (n : Nat) : (users n).Nodup := by
  refine List.nodup_range.map fun i j h => ?_
  -- The digits of a number tell the number.
  have same : i.repr = j.repr := (String.append_right_inj "user-").1 h
  rw [Nat.repr_eq_ofList_toDigits, Nat.repr_eq_ofList_toDigits, String.ofList_inj] at same
  rw [← Nat.ofDigitChars_ten_toDigits (n := i), same, Nat.ofDigitChars_ten_toDigits]

/-- An output that has been issued is the user's for whom it was issued, and nobody else's in any
other mint. Users of one list get outputs no two of which are alike, and each output is one user's
only. The bounds on lengths hold of all byte strings in memory. -/
theorem issue_for_one_user :
    (∀ n, (users n).length = n ∧ (users n).Nodup) ∧
      ∀ (m : Mint) (user : String) (args : List String) (output : Bytes),
        output.length < UInt64.size → m.issue user args = .ok output →
          m.verifyIssue user args output = .ok true ∧
            (∀ (m' : Mint) (user' : String) (args' : List String),
              m'.verifyIssue user' args' output = .ok true → user = user') ∧
            ∃ issued : String → Bytes, (∀ u, m.issue u args = .ok (issued u)) ∧
              ∀ n, (∀ u ∈ users n, (issued u).length < UInt64.size) →
                ((users n).map issued).Nodup ∧
                  ∀ u ∈ users n, ∀ u', m.verifyIssue u' args (issued u) = .ok true ↔ u' = u := by
  refine ⟨fun n => ⟨length_users n, nodup_users n⟩, fun m user args output hlength h => ?_⟩
  have own := verifyIssue_of_issue h
  refine ⟨own, fun m' user' args' h' => user_eq_of_verifyIssue hlength own h', ?_⟩
  choose issued hissued using exists_issue h
  have verified (u : String) := verifyIssue_of_issue (hissued u)
  refine ⟨issued, hissued, fun n short => ⟨?_, fun u hu u' => ⟨fun h' => ?_, ?_⟩⟩⟩
  · refine (nodup_users n).map_on fun u hu u' _ same => ?_
    have shared := verified u'
    rw [← same] at shared
    exact user_eq_of_verifyIssue (short u hu) (verified u) shared
  · exact user_eq_of_verifyIssue (short u hu) h' (verified u)
  · rintro rfl
    exact verified u'

theorem issue_for_one_user_genesis :
    let args := [r#"{"height":{"type":"range","data":{"min":1,"max":1000}}}"#]
    let output (user : String) (height : UInt32) : Bytes :=
      ((Resolved.mk user .empty).insert "height" height).encode .binary
    (output "user-0" 543).length < UInt64.size ∧
      genesis.issue "user-0" args = .ok (output "user-0" 543) ∧
      genesis.verifyIssue "user-0" args (output "user-0" 543) = .ok true ∧
      (∀ (m' : Mint) (user' : String) (args' : List String),
        m'.verifyIssue user' args' (output "user-0" 543) = .ok true → "user-0" = user') ∧
      ∃ issued : String → Bytes, (∀ u, genesis.issue u args = .ok (issued u)) ∧
        (∀ u ∈ users 2, (issued u).length < UInt64.size) ∧ ((users 2).map issued).Nodup ∧
          ∀ u ∈ users 2, ∀ u', genesis.verifyIssue u' args (issued u) = .ok true ↔ u' = u := by
  intro args output
  have hlength : (output "user-0" 543).length < UInt64.size := by decide
  have first : genesis.issue "user-0" args = .ok (output "user-0" 543) := by decide +kernel
  have second : genesis.issue "user-1" args = .ok (output "user-1" 162) := by decide +kernel
  obtain ⟨own, others, issued, hissued, apart⟩ :=
    issue_for_one_user.2 genesis "user-0" args _ hlength first
  have short : ∀ u ∈ users 2, (issued u).length < UInt64.size := by
    have outputs : issued "user-0" = output "user-0" 543 ∧ issued "user-1" = output "user-1" 162 :=
      ⟨Except.ok.inj ((hissued _).symm.trans first), Except.ok.inj ((hissued _).symm.trans second)⟩
    have both : users 2 = ["user-0", "user-1"] := by decide
    simp only [both, List.forall_mem_cons, outputs]
    exact ⟨hlength, by decide, by simp⟩
  exact ⟨hlength, first, own, others, issued, hissued, short, apart 2 short⟩

end Mint

/-! ### Reference vectors -/

namespace ReferenceVector

variable {v v' : ReferenceVector} {hex : String}

theorem verifyFrom_of_verify (h : v.verify = .ok (true, hex)) :
    ∃ schema output, Bytes.hex output = hex ∧
      ({} : Engine).verifyFrom v.seed v.user schema output = .ok true := by
  obtain ⟨output, houtput, hagrees⟩ := Except.map_eq_ok.1 h
  obtain ⟨schema, -, hgenerate⟩ := Except.bind_eq_ok.1 houtput
  rw [Engine.inscribeGenerate_eq_generateFrom] at hgenerate
  refine ⟨schema, output, congrArg Prod.snd hagrees, ?_⟩
  rw [Engine.verifyFrom_eq_generateFrom, hgenerate]
  simp [Except.map]

/-- Vectors that agree on one output are for one user. -/
theorem user_eq_of_verify (hlength : hex.length < UInt64.size) (h : v.verify = .ok (true, hex))
    (h' : v'.verify = .ok (true, hex)) : v.user = v'.user := by
  obtain ⟨_, output, hhex, passes⟩ := verifyFrom_of_verify h
  obtain ⟨_, output', hhex', passes'⟩ := verifyFrom_of_verify h'
  obtain rfl : output = output' := Bytes.hex_injective (hhex.trans hhex'.symm)
  have length := Bytes.length_hex output
  rw [hhex] at length
  exact Engine.user_eq_of_verifyFrom (by omega) passes passes'

example :
    verifyAll.map (fun r => r.2.toOption.map Prod.fst) = [some true, some true, some true] := by
  decide +kernel

end ReferenceVector
end SeededTraits
