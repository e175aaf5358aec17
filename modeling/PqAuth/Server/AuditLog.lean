import PqAuth.Server.Honest
import PqAuth.Totp.Acceptance

/-! The audit log as a function of what requests were answered. Nothing else a
request carried reaches it. -/
namespace PqAuth

/-- The operations that leave a record, by the word it carries. -/
def Request.action : Request → String
  | .enrollBegin _ => "enroll_begin"
  | .enrollComplete _ => "enroll_complete"
  | .issueChallenge _ => "challenge_issued"
  | .verify ⟨_,.totp _⟩ => "verify_totp"
  | .verify ⟨_,.challenge ..⟩ => "verify_challenge"

/-- The flag of a verification reply. -/
def Response.valid : Response → Option Bool
  | .verify resp => some resp.valid
  | _ => none

/-- What is seen of a request from outside: when, who, which operation and how it ended. -/
structure Observation where
  auditNow : UInt64
  userId : String
  action : String
  ok : Bool
  valid : Option Bool
  challengeError : Option ChallengeError
  deriving DecidableEq, Repr

/-- An answered request leaves one record, of success unless a verification failed. -/
def Observation.entry (o : Observation) : Option AuditEntry :=
  if o.ok then some ⟨o.auditNow,o.userId,o.action,o.valid.getD true,o.challengeError.map ChallengeError.toString⟩
  else none

namespace PqAuthServer
variable {crates : Crates} {serverId : String} {calls : List Call}

/-- Why the verifier rejects the response of a request, from the state before it. -/
def challengeError (crates : Crates) (s : ServerInner) (env : Env) : Request → Option ChallengeError
  | .verify ⟨u,.challenge nonce ct sig⟩ =>
    match s.users u, s.pendingChallenges u with
    | some user, some challenge =>
      match (ChallengeVerifier.verify crates.dilithium3 s.verifier challenge (decodeResponse crates nonce ct sig)
          user.dilithiumPublicKey env.ts).1 with
      | .error e => some e
      | .ok () => none
    | _, _ => none
  | _ => none

def observe (crates : Crates) (e : Event) : Observation where
  auditNow := e.input.env.auditNow
  userId := e.input.userId
  action := e.input.request.action
  ok := e.output.isOk
  valid := e.output.toOption.bind Response.valid
  challengeError := if e.output.isOk then challengeError crates e.before e.input.env e.input.request else none

/-- Each step writes the record of what is observed of it. -/
theorem Transition.auditLog_eq {s s' : ServerInner} {env : Env} {request : Request} {reply : Reply}
    (ht : Transition crates s env request reply s') :
    s'.auditLog = s.auditLog ++ (observe crates ⟨s,⟨env,request⟩,reply,s'⟩).entry.toList := by
  cases ht
  case begun => rfl
  case enrolled => rfl
  case issued => rfl
  case totp => rfl
  case answered u nonce ct sig record challenge outcome hu hl hp ho =>
    have herror : challengeError crates s env (.verify ⟨u,.challenge nonce ct sig⟩) =
        match outcome.1 with | .error e => some e | .ok () => none := by
      simp only [challengeError, hu, hp, ho]
    rw [observe, herror]
    obtain ⟨result,verifier⟩ := outcome
    cases result <;> rfl
  all_goals exact (List.append_nil _).symm

/-- The log of a run, from what was observed of it. -/
theorem auditLog_eq (crates : Crates) (serverId : String) (calls : List Call) :
    (final crates serverId calls).auditLog =
      ((history crates serverId calls).map (observe crates)).filterMap Observation.entry := by
  apply Machine.history_invariant
    (J := fun past s => s.auditLog = (past.map (observe crates)).filterMap Observation.entry)
  · rfl
  · intro past s c hlog
    rw [(transition crates s c).auditLog_eq, hlog, List.map_append, List.filterMap_append]
    rfl

theorem auditLog_grows (crates : Crates) (serverId : String) (calls : List Call) (k : ℕ) :
    (final crates serverId (calls.take k)).auditLog <+: (final crates serverId calls).auditLog := by
  rw [auditLog_eq, auditLog_eq, history, ← Machine.history_take]
  exact ((List.take_prefix k _).map _).filterMap _

/-- The log only grows, holds one record for each answered request and none for
any other, and is the same for all runs of which the same is observed. -/
theorem audit_log_exact (crates : Crates) (serverId : String) (calls : List Call) :
    (∀ k, (final crates serverId (calls.take k)).auditLog <+: (final crates serverId calls).auditLog) ∧
    (final crates serverId calls).auditLog =
      ((history crates serverId calls).map (observe crates)).filterMap Observation.entry ∧
    (∀ serverId' calls',
      (history crates serverId' calls').map (observe crates) =
          (history crates serverId calls).map (observe crates) →
        (final crates serverId' calls').auditLog = (final crates serverId calls).auditLog) := by
  refine ⟨auditLog_grows crates serverId calls,auditLog_eq crates serverId calls,?_⟩
  intro serverId' calls' hsame
  rw [auditLog_eq, auditLog_eq, hsame]

section
open Transparent

/-- A guess that has too many digits. -/
def guessCall (code : UInt32) : Call := ⟨sampleEnv 1010 [] (sampleNonce 0),.verify ⟨"alice",.totp code⟩⟩

def guessed (code : UInt32) : List Call := [beginCall 1000 [1] "alice",completeCall 1001 "alice",guessCall code]

private theorem observe_guess {code : UInt32} (h : 10 ^ 8 ≤ code.toNat) :
    observe Transparent.crates
        (Machine.event (step Transparent.crates) (sampleEnrolled 1001 "alice") (guessCall code)) =
      ⟨1010,"alice","verify_totp",true,some false,none⟩ := by
  have hwrong : PqTotp.verify Transparent.shake256 sampleRecord.totpSeed code 1010 1 = false := by
    rw [Bool.eq_false_iff]
    exact fun hv => Nat.not_le.mpr (PqTotp.accepted_lt hv) h
  have hstep : step Transparent.crates (sampleEnrolled 1001 "alice") (guessCall code) = _ :=
    Transition.step_eq (.totp (sampleEnrolled_users ..) (passes_first rfl rfl _) hwrong)
  rw [Machine.event, hstep]
  rfl

private theorem observe_guessed {code : UInt32} (h : 10 ^ 8 ≤ code.toNat) :
    (history Transparent.crates "example.org" (guessed code)).map (observe Transparent.crates) =
      [⟨1000,"alice","enroll_begin",true,none,none⟩,⟨1001,"alice","enroll_complete",true,none,none⟩,
        ⟨1010,"alice","verify_totp",true,some false,none⟩] := by
  simp only [history, guessed, Machine.history_cons, Machine.history_nil, step_sampleBegin, step_sampleComplete,
    List.map_cons, List.map_nil, observe_guess h]
  rw [Machine.event, step_sampleBegin, Machine.event, step_sampleComplete]
  rfl

/-- Two wrong guesses leave one log. -/
theorem audit_log_exact_guesses : (final Transparent.crates "example.org" (guessed 100000000)).auditLog =
    (final Transparent.crates "example.org" (guessed 100000001)).auditLog := by
  apply (audit_log_exact Transparent.crates "example.org" (guessed 100000001)).2.2
  rw [observe_guessed (by decide), observe_guessed (by decide)]

end
end PqAuthServer
end PqAuth
