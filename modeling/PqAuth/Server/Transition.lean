import PqAuth.Source.Server

/-! What one request can do. Every path through the four handlers is one
transition with its guards, its reply and the complete next state. -/
namespace PqAuth.PqAuthServer
variable (crates : Crates)

/-- The effect of one rate-limited call on the entry of its user. -/
def attempt (maxAttempts : UInt32) (rateWindow : UInt64) (entry : Option (UInt32 × UInt64)) (now : UInt64) :
    Bool × UInt32 × UInt64 :=
  let entry := entry.getD (0,now)
  if now - entry.2 > rateWindow then (true,1,now)
  else (entry.1 + 1 ≤ maxAttempts,entry.1 + 1,entry.2)

def passes (s : ServerInner) (env : Env) (u : String) : Bool :=
  (attempt s.maxAttempts s.rateWindow (s.rateLimits u) env.limitNow).1

/-- The state once the limiter counted the call. -/
def counted (s : ServerInner) (env : Env) (u : String) : ServerInner :=
  { s with rateLimits :=
      s.rateLimits.insert u (attempt s.maxAttempts s.rateWindow (s.rateLimits u) env.limitNow).2 }

def logged (s : ServerInner) (env : Env) (u action : String) (success : Bool) (detail : Option String) :
    ServerInner :=
  { s with auditLog := s.auditLog ++ [⟨env.auditNow,u,action,success,detail⟩] }

def afterBegin (s : ServerInner) (env : Env) (u : String) : ServerInner :=
  logged { s with pendingEnrollments :=
      s.pendingEnrollments.insert u (Enrollment.new crates s.serverId env.kyberSeed) }
    env u "enroll_begin" true none

def afterComplete (s : ServerInner) (env : Env) (u : String) (record : EnrollmentRecord) : ServerInner :=
  logged { s with
      pendingEnrollments := s.pendingEnrollments.remove u
      users := s.users.insert u record }
    env u "enroll_complete" true none

def afterIssue (s : ServerInner) (env : Env) (u : String) : ServerInner :=
  logged { counted s env u with
      pendingChallenges := s.pendingChallenges.insert u ⟨env.nonce,env.ts⟩ }
    env u "challenge_issued" true none

def afterAnswer (s : ServerInner) (env : Env) (u : String)
    (outcome : Except ChallengeError Unit × ChallengeVerifier) : ServerInner :=
  logged { counted s env u with
      pendingChallenges := s.pendingChallenges.remove u
      verifier := outcome.2 }
    env u "verify_challenge" outcome.1.isOk
    (match outcome.1 with | .ok () => none | .error e => some e.toString)

@[simp] theorem afterBegin_pendingEnrollments (s : ServerInner) (env : Env) (u : String) :
    (afterBegin crates s env u).pendingEnrollments u = some (Enrollment.new crates s.serverId env.kyberSeed) :=
  PartialMap.insert_self ..

@[simp] theorem afterComplete_users (s : ServerInner) (env : Env) (u : String) (record : EnrollmentRecord) :
    (afterComplete s env u record).users u = some record := PartialMap.insert_self ..

@[simp] theorem afterComplete_pendingEnrollments (s : ServerInner) (env : Env) (u : String)
    (record : EnrollmentRecord) : (afterComplete s env u record).pendingEnrollments u = none :=
  PartialMap.remove_self ..

@[simp] theorem afterIssue_users (s : ServerInner) (env : Env) (u : String) :
    (afterIssue s env u).users = s.users := rfl

@[simp] theorem afterAnswer_users (s : ServerInner) (env : Env) (u : String)
    (outcome : Except ChallengeError Unit × ChallengeVerifier) :
    (afterAnswer s env u outcome).users = s.users := rfl

@[simp] theorem afterIssue_limits (s : ServerInner) (env : Env) (u : String) :
    (afterIssue s env u).maxAttempts = s.maxAttempts ∧ (afterIssue s env u).rateWindow = s.rateWindow := ⟨rfl,rfl⟩

@[simp] theorem afterAnswer_limits (s : ServerInner) (env : Env) (u : String)
    (outcome : Except ChallengeError Unit × ChallengeVerifier) :
    (afterAnswer s env u outcome).maxAttempts = s.maxAttempts ∧
      (afterAnswer s env u outcome).rateWindow = s.rateWindow := ⟨rfl,rfl⟩

@[simp] theorem afterIssue_pendingChallenges (s : ServerInner) (env : Env) (u : String) :
    (afterIssue s env u).pendingChallenges u = some ⟨env.nonce,env.ts⟩ := PartialMap.insert_self ..

@[simp] theorem afterAnswer_pendingChallenges (s : ServerInner) (env : Env) (u : String)
    (outcome : Except ChallengeError Unit × ChallengeVerifier) :
    (afterAnswer s env u outcome).pendingChallenges u = none := PartialMap.remove_self ..

/-- The fields of a completion request as the server reads them. -/
def decodeCompletion (req : EnrollCompleteRequest) : EnrollmentResponse :=
  ⟨(crates.hex.decode req.ciphertext).getD [],(crates.hex.decode req.dilithiumPublicKey).getD []⟩

def totpResponse (valid : Bool) : VerifyResponse :=
  ⟨valid,if valid then "TOTP verified" else "Invalid TOTP code"⟩

def challengeResponse (valid : Bool) : VerifyResponse :=
  ⟨valid,if valid then "Challenge-response verified" else "Challenge verification failed"⟩

inductive Transition (s : ServerInner) (env : Env) : Request → Reply → ServerInner → Prop
  | alreadyEnrolled {u record} (hu : s.users u = some record) :
      Transition s env (.enrollBegin u) (.error (.userAlreadyEnrolled u)) s
  | begun {u} (hu : s.users u = none) :
      Transition s env (.enrollBegin u)
        (.ok (.enrollBegin ⟨crates.hex.encode (Enrollment.new crates s.serverId env.kyberSeed).kyberPublicKey,
          s.serverId⟩)) (afterBegin crates s env u)
  | noPendingEnrollment {req} (hp : s.pendingEnrollments req.userId = none) :
      Transition s env (.enrollComplete req) (.error (.noPendingEnrollment req.userId)) s
  | enrollmentFailed {req enrollment e} (hp : s.pendingEnrollments req.userId = some enrollment)
      (hc : Enrollment.complete crates enrollment (decodeCompletion crates req) = .error e) :
      Transition s env (.enrollComplete req) (.error (.enrollmentFailed e))
        { s with pendingEnrollments := s.pendingEnrollments.remove req.userId }
  | enrolled {req enrollment record} (hp : s.pendingEnrollments req.userId = some enrollment)
      (hc : Enrollment.complete crates enrollment (decodeCompletion crates req) = .ok record) :
      Transition s env (.enrollComplete req) (.ok (.enrollComplete ⟨true,"Enrollment successful"⟩))
        (afterComplete s env req.userId record)
  | issueUnknown {u} (hu : s.users u = none) :
      Transition s env (.issueChallenge u) (.error (.userNotFound u)) s
  | issueLimited {u record} (hu : s.users u = some record) (hl : passes s env u = false) :
      Transition s env (.issueChallenge u) (.error .rateLimited) (counted s env u)
  | issued {u record} (hu : s.users u = some record) (hl : passes s env u = true) :
      Transition s env (.issueChallenge u)
        (.ok (.challengeIssued ⟨crates.hex.encode env.nonce.val,env.ts⟩)) (afterIssue s env u)
  | verifyUnknown {u method} (hu : s.users u = none) :
      Transition s env (.verify ⟨u,method⟩) (.error (.userNotFound u)) s
  | verifyLimited {u method record} (hu : s.users u = some record) (hl : passes s env u = false) :
      Transition s env (.verify ⟨u,method⟩) (.error .rateLimited) (counted s env u)
  | totp {u code record valid} (hu : s.users u = some record) (hl : passes s env u = true)
      (hv : PqTotp.verify crates.shake256 record.totpSeed code env.ts 1 = valid) :
      Transition s env (.verify ⟨u,.totp code⟩) (.ok (.verify (totpResponse valid)))
        (logged (counted s env u) env u "verify_totp" valid none)
  | noPendingChallenge {u nonce ct sig record} (hu : s.users u = some record)
      (hl : passes s env u = true) (hp : s.pendingChallenges u = none) :
      Transition s env (.verify ⟨u,.challenge nonce ct sig⟩) (.error (.noPendingChallenge u))
        (counted s env u)
  | answered {u nonce ct sig record challenge outcome} (hu : s.users u = some record)
      (hl : passes s env u = true) (hp : s.pendingChallenges u = some challenge)
      (ho : ChallengeVerifier.verify crates.dilithium3 s.verifier challenge
        (decodeResponse crates nonce ct sig) record.dilithiumPublicKey env.ts = outcome) :
      Transition s env (.verify ⟨u,.challenge nonce ct sig⟩) (.ok (.verify (challengeResponse outcome.1.isOk)))
        (afterAnswer s env u outcome)

private theorem exec_audit (env : Env) (u action : String) (success : Bool) (detail : Option String)
    (s : ServerInner) :
    (audit env u action success detail).exec s = (.ok (),logged s env u action success detail) := rfl

theorem exec_checkRateLimit_eq (s : ServerInner) (env : Env) (u : String) {entry : UInt32 × UInt64}
    (he : (s.rateLimits u).getD (0,env.limitNow) = entry) : (checkRateLimit env u).exec s =
      if env.limitNow - entry.2 > s.rateWindow then
        (.ok (),{ s with rateLimits := s.rateLimits.insert u (1,env.limitNow) })
      else (if entry.1 + 1 > s.maxAttempts then .error .rateLimited else .ok (),
        { s with rateLimits := s.rateLimits.insert u (entry.1 + 1,entry.2) }) := by
  subst he
  unfold checkRateLimit
  simp only [Handler.exec_bind, Handler.exec_get]
  split
  · simp
  · simp only [Handler.exec_bind, Handler.exec_set, Handler.exec_ite, Handler.exec_throw, Handler.exec_pure]
    split <;> rfl

theorem exec_checkRateLimit (env : Env) (u : String) (s : ServerInner) :
    (checkRateLimit env u).exec s =
      (if passes s env u then .ok () else .error .rateLimited,counted s env u) := by
  rw [exec_checkRateLimit_eq s env u rfl, passes, counted, attempt]
  split
  · rfl
  · rename_i hx
    have hverdict (n : UInt32) :
        (if n > s.maxAttempts then .error .rateLimited else .ok () : Except ServerError Unit) =
          if decide (n ≤ s.maxAttempts) then .ok () else .error .rateLimited := by
      simp only [gt_iff_lt, decide_eq_true_eq, ← UInt32.not_le, ite_not]
    rw [hverdict]

private theorem exec_enrollBegin (env : Env) (u : String) (s : ServerInner) :
    Transition crates s env (.enrollBegin u) (((enrollBegin crates env u).exec s).1.map .enrollBegin)
      ((enrollBegin crates env u).exec s).2 := by
  cases hu : s.users u with
  | some record =>
    have he : (enrollBegin crates env u).exec s = (.error (.userAlreadyEnrolled u),s) := by
      simp [enrollBegin, PartialMap.containsKey, hu]
    rw [he]
    exact .alreadyEnrolled hu
  | none =>
    have he : (enrollBegin crates env u).exec s =
        (.ok ⟨crates.hex.encode (Enrollment.new crates s.serverId env.kyberSeed).kyberPublicKey,s.serverId⟩,
          afterBegin crates s env u) := by
      simp [enrollBegin, PartialMap.containsKey, hu, exec_audit, afterBegin, Enrollment.challenge, Enrollment.new,
        Except.map]
    rw [he]
    exact .begun hu

private theorem exec_enrollComplete (env : Env) (req : EnrollCompleteRequest) (s : ServerInner) :
    Transition crates s env (.enrollComplete req)
      (((enrollComplete crates env req).exec s).1.map .enrollComplete)
      ((enrollComplete crates env req).exec s).2 := by
  cases hp : s.pendingEnrollments req.userId with
  | none =>
    have he : (enrollComplete crates env req).exec s = (.error (.noPendingEnrollment req.userId),s) := by
      simp [enrollComplete, hp]
    rw [he]
    exact .noPendingEnrollment hp
  | some enrollment =>
    cases hc : Enrollment.complete crates enrollment (decodeCompletion crates req) with
    | error e =>
      have he : (enrollComplete crates env req).exec s = (.error (.enrollmentFailed e),
          { s with pendingEnrollments := s.pendingEnrollments.remove req.userId }) := by
        unfold decodeCompletion at hc
        simp [enrollComplete, hp, hc]
      rw [he]
      exact .enrollmentFailed hp hc
    | ok record =>
      have he : (enrollComplete crates env req).exec s =
          (.ok ⟨true,"Enrollment successful"⟩,afterComplete s env req.userId record) := by
        unfold decodeCompletion at hc
        simp [enrollComplete, hp, hc, exec_audit, afterComplete, Except.map]
      rw [he]
      exact .enrolled hp hc

private theorem exec_issueChallenge (env : Env) (u : String) (s : ServerInner) :
    Transition crates s env (.issueChallenge u)
      (((issueChallenge crates env u).exec s).1.map .challengeIssued)
      ((issueChallenge crates env u).exec s).2 := by
  cases hu : s.users u with
  | none =>
    have he : (issueChallenge crates env u).exec s = (.error (.userNotFound u),s) := by
      simp [issueChallenge, PartialMap.containsKey, hu]
    rw [he]
    exact .issueUnknown hu
  | some record =>
    cases hl : passes s env u with
    | false =>
      have he : (issueChallenge crates env u).exec s = (.error .rateLimited,counted s env u) := by
        simp [issueChallenge, PartialMap.containsKey, hu, exec_checkRateLimit, hl]
      rw [he]
      exact .issueLimited hu hl
    | true =>
      have he : (issueChallenge crates env u).exec s =
          (.ok ⟨crates.hex.encode env.nonce.val,env.ts⟩,afterIssue s env u) := by
        simp [issueChallenge, PartialMap.containsKey, hu, exec_checkRateLimit, hl, exec_audit, afterIssue,
          counted, Except.map]
      rw [he]
      exact .issued hu hl

private theorem exec_verify (env : Env) (req : VerifyRequest) (s : ServerInner) :
    Transition crates s env (.verify req) (((verify crates env req).exec s).1.map .verify)
      ((verify crates env req).exec s).2 := by
  obtain ⟨u,method⟩ := req
  cases hu : s.users u with
  | none =>
    have he : (verify crates env ⟨u,method⟩).exec s = (.error (.userNotFound u),s) := by
      simp [verify, hu]
    rw [he]
    exact .verifyUnknown hu
  | some record =>
    cases hl : passes s env u with
    | false =>
      have he : (verify crates env ⟨u,method⟩).exec s = (.error .rateLimited,counted s env u) := by
        simp [verify, hu, exec_checkRateLimit, hl]
      rw [he]
      exact .verifyLimited hu hl
    | true =>
      cases method with
      | totp code =>
        have he : (verify crates env ⟨u,.totp code⟩).exec s =
            (.ok (totpResponse (PqTotp.verify crates.shake256 record.totpSeed code env.ts 1)),
              logged (counted s env u) env u "verify_totp"
                (PqTotp.verify crates.shake256 record.totpSeed code env.ts 1) none) := by
          simp [verify, hu, exec_checkRateLimit, hl, exec_audit, totpResponse, Except.map]
        rw [he]
        exact .totp hu hl rfl
      | challenge nonce ct sig =>
        cases hp : s.pendingChallenges u with
        | none =>
          have hp' : (counted s env u).pendingChallenges u = none := hp
          have he : (verify crates env ⟨u,.challenge nonce ct sig⟩).exec s =
              (.error (.noPendingChallenge u),counted s env u) := by
            simp [verify, hu, exec_checkRateLimit, hl, hp']
          rw [he]
          exact .noPendingChallenge hu hl hp
        | some challenge =>
          have hp' : (counted s env u).pendingChallenges u = some challenge := hp
          have he : (verify crates env ⟨u,.challenge nonce ct sig⟩).exec s =
              (.ok (challengeResponse (ChallengeVerifier.verify crates.dilithium3 s.verifier challenge
                  (decodeResponse crates nonce ct sig) record.dilithiumPublicKey env.ts).1.isOk),
                afterAnswer s env u (ChallengeVerifier.verify crates.dilithium3 s.verifier challenge
                  (decodeResponse crates nonce ct sig) record.dilithiumPublicKey env.ts)) := by
            simp only [verify, Handler.exec_bind, Handler.exec_get, Handler.exec_set, Handler.exec_modify,
              Handler.exec_pure, exec_checkRateLimit, exec_audit, hu, hl, hp', if_true]
            rfl
          rw [he]
          exact .answered hu hl hp rfl

/-- Every step of the server is one of the listed transitions. -/
theorem transition (s : ServerInner) (c : Call) :
    Transition crates s c.env c.request (step crates s c).1 (step crates s c).2 := by
  obtain ⟨env,request⟩ := c
  cases request with
  | enrollBegin u => simpa [step, serve] using exec_enrollBegin crates env u s
  | enrollComplete req => simpa [step, serve] using exec_enrollComplete crates env req s
  | issueChallenge u => simpa [step, serve] using exec_issueChallenge crates env u s
  | verify req => simpa [step, serve] using exec_verify crates env req s

/-- The guards of the transitions exclude each other. -/
theorem Transition.deterministic {crates : Crates} {s s₁ s₂ : ServerInner} {env : Env} {request : Request}
    {reply₁ reply₂ : Reply} (h₁ : Transition crates s env request reply₁ s₁)
    (h₂ : Transition crates s env request reply₂ s₂) : reply₁ = reply₂ ∧ s₁ = s₂ := by
  cases h₁ <;> cases h₂ <;> simp_all

/-- A transition whose guards hold is the step. -/
theorem Transition.step_eq {crates : Crates} {s s' : ServerInner} {env : Env} {request : Request} {reply : Reply}
    (h : Transition crates s env request reply s') : step crates s ⟨env,request⟩ = (reply,s') := by
  obtain ⟨hr,hs⟩ := (transition crates s ⟨env,request⟩).deterministic h
  exact Prod.ext hr hs

end PqAuth.PqAuthServer
