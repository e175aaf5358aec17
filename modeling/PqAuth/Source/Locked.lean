import PqAuth.Foundation.CriticalSection
import PqAuth.Source.Server

/-! The request handlers of `server.rs` one access at a time, as the threads of
the service run them between locking the mutex and dropping its guard. -/
namespace PqAuth

/-- What a handler draws from the random generator. -/
inductive Draw where
  | kyberSeed
  | nonce
  deriving DecidableEq, Repr

def Draw.Value : Draw → Type
  | .kyberSeed => Bytes
  | .nonce => Nonce

/-- Whether arithmetic panics on overflow. -/
inductive Build where
  | release
  | checked
  deriving DecidableEq, Repr

/-- What `duration_since` makes of a reading of the clock: the seconds since 1970,
or its error for a clock that is before. -/
abbrev SystemTime := Option UInt64

abbrev LockedM := Critical.Handler ServerError ServerInner SystemTime Draw.Value

namespace PqAuthServer.Locked
open Critical.Handler
variable (crates : Crates) (build : Build)

/-- `expect` panics on the error. -/
def nowUnix : LockedM UInt64 := do
  let some secs ← now | panic
  return secs

def drawSeed : LockedM Bytes := draw Draw.kyberSeed

def drawNonce : LockedM Nonce := draw Draw.nonce

def subtract (a b : UInt64) : LockedM UInt64 :=
  match build with
  | .release => pure (a - b)
  | .checked =>
    match Words.checkedSub a b with
    | some r => pure r
    | none => panic

def add (a b : UInt32) : LockedM UInt32 :=
  match build with
  | .release => pure (a + b)
  | .checked =>
    match Words.checkedAdd32 a b with
    | some r => pure r
    | none => panic

def audit (userId action : String) (success : Bool) (detail : Option String) : LockedM Unit := do
  let timestamp ← nowUnix
  modify fun inner => { inner with auditLog := inner.auditLog ++ [⟨timestamp,userId,action,success,detail⟩] }

def checkRateLimit (userId : String) : LockedM Unit := do
  let now ← nowUnix
  let inner ← get
  let entry := (inner.rateLimits userId).getD (0,now)
  -- `or_insert` writes a fresh entry before the arithmetic
  set { inner with rateLimits := inner.rateLimits.insert userId entry }
  let elapsed ← subtract build now entry.2
  if elapsed > inner.rateWindow then
    modify fun inner => { inner with rateLimits := inner.rateLimits.insert userId (1,now) }
  else
    let attempts ← add build entry.1 1
    modify fun inner => { inner with rateLimits := inner.rateLimits.insert userId (attempts,entry.2) }
    if attempts > inner.maxAttempts then throw .rateLimited

def enrollBegin (userId : String) : LockedM EnrollBeginResponse := do
  let inner ← get
  if inner.users.containsKey userId then throw (.userAlreadyEnrolled userId)
  let seed ← drawSeed
  let enrollment := Enrollment.new crates inner.serverId seed
  let challenge := Enrollment.challenge enrollment
  let resp : EnrollBeginResponse := ⟨crates.hex.encode challenge.kyberPublicKey,challenge.serverId⟩
  modify fun inner => { inner with pendingEnrollments := inner.pendingEnrollments.insert userId enrollment }
  audit userId "enroll_begin" true none
  return resp

def enrollComplete (req : EnrollCompleteRequest) : LockedM EnrollCompleteResponse := do
  let inner ← get
  let some enrollment := inner.pendingEnrollments req.userId | throw (.noPendingEnrollment req.userId)
  set { inner with pendingEnrollments := inner.pendingEnrollments.remove req.userId }
  let response : EnrollmentResponse :=
    ⟨(crates.hex.decode req.ciphertext).getD [],(crates.hex.decode req.dilithiumPublicKey).getD []⟩
  match Enrollment.complete crates enrollment response with
  | .error e => throw (.enrollmentFailed e)
  | .ok record =>
    modify fun inner => { inner with users := inner.users.insert req.userId record }
    audit req.userId "enroll_complete" true none
    return ⟨true,"Enrollment successful"⟩

def issueChallenge (userId : String) : LockedM ChallengeIssued := do
  let inner ← get
  unless inner.users.containsKey userId do throw (.userNotFound userId)
  checkRateLimit build userId
  let ts ← nowUnix
  let nonce ← drawNonce
  let challenge : Challenge := ⟨nonce,ts⟩
  let resp : ChallengeIssued := ⟨crates.hex.encode challenge.nonce.val,challenge.issuedAt⟩
  modify fun inner => { inner with pendingChallenges := inner.pendingChallenges.insert userId challenge }
  audit userId "challenge_issued" true none
  return resp

def verify (req : VerifyRequest) : LockedM VerifyResponse := do
  let inner ← get
  let some user := inner.users req.userId | throw (.userNotFound req.userId)
  checkRateLimit build req.userId
  match req.method with
  | .totp totpCode =>
    let ts ← nowUnix
    let valid := PqTotp.verify crates.shake256 user.totpSeed totpCode ts 1
    audit req.userId "verify_totp" valid none
    return ⟨valid,if valid then "TOTP verified" else "Invalid TOTP code"⟩
  | .challenge nonce clientTimestamp signature =>
    let inner ← get
    let some challenge := inner.pendingChallenges req.userId | throw (.noPendingChallenge req.userId)
    set { inner with pendingChallenges := inner.pendingChallenges.remove req.userId }
    let cr := decodeResponse crates nonce clientTimestamp signature
    let ts ← nowUnix
    let inner ← get
    let (result,verifier) :=
      ChallengeVerifier.verify crates.dilithium3 inner.verifier challenge cr user.dilithiumPublicKey ts
    set { inner with verifier := verifier }
    let valid := result.isOk
    let detail : Option String := match result with
      | .ok () => none
      | .error e => some e.toString
    audit req.userId "verify_challenge" valid detail
    return ⟨valid,if valid then "Challenge-response verified" else "Challenge verification failed"⟩

def serve : Request → LockedM Response
  | .enrollBegin userId => .enrollBegin <$> enrollBegin crates userId
  | .enrollComplete req => .enrollComplete <$> enrollComplete crates req
  | .issueChallenge userId => .challengeIssued <$> issueChallenge crates build userId
  | .verify req => .verify <$> verify crates build req

/-- What a thread runs under the mutex to answer a request. -/
def handler (request : Request) : Critical ServerInner SystemTime Draw.Value Reply := (serve crates build request).run

end PqAuthServer.Locked
end PqAuth
