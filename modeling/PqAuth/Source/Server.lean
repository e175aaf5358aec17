import PqAuth.Foundation.Handler
import PqAuth.Foundation.Unwinding
import PqAuth.Source.Challenge
import PqAuth.Source.Enrollment
import PqAuth.Source.PqTotp

/-! `server.rs`: the in-memory authentication server. Each request holds the
mutex from start to end, so a run of the server is a sequence of requests. -/
namespace PqAuth

inductive ServerError where
  | userNotFound (userId : String)
  | userAlreadyEnrolled (userId : String)
  | noPendingEnrollment (userId : String)
  | noPendingChallenge (userId : String)
  | enrollmentFailed (e : EnrollmentError)
  | challengeFailed (e : ChallengeError)
  | rateLimited
  deriving DecidableEq, Repr

def ServerError.toString : ServerError → String
  | .userNotFound userId => "user not found: " ++ userId
  | .userAlreadyEnrolled userId => "user already enrolled: " ++ userId
  | .noPendingEnrollment userId => "no pending enrollment for user: " ++ userId
  | .noPendingChallenge userId => "no pending challenge for user: " ++ userId
  | .enrollmentFailed e => "enrollment failed: " ++ e.toString
  | .challengeFailed e => "challenge verification failed: " ++ e.toString
  | .rateLimited => "rate limited"

structure AuditEntry where
  timestamp : UInt64
  userId : String
  action : String
  success : Bool
  detail : Option String
  deriving DecidableEq, Repr

structure ServerInner where
  serverId : String
  users : PartialMap String EnrollmentRecord
  pendingEnrollments : PartialMap String ServerEnrollment
  pendingChallenges : PartialMap String Challenge
  verifier : ChallengeVerifier
  auditLog : List AuditEntry
  /-- Attempt count and window start. -/
  rateLimits : PartialMap String (UInt32 × UInt64)
  maxAttempts : UInt32
  rateWindow : UInt64

structure EnrollBeginRequest where
  userId : String
  deriving DecidableEq, Repr

structure EnrollBeginResponse where
  kyberPublicKey : String
  serverId : String
  deriving DecidableEq, Repr

structure EnrollCompleteRequest where
  userId : String
  ciphertext : String
  dilithiumPublicKey : String
  deriving DecidableEq, Repr

structure EnrollCompleteResponse where
  success : Bool
  message : String
  deriving DecidableEq, Repr

structure ChallengeRequest where
  userId : String
  deriving DecidableEq, Repr

structure ChallengeIssued where
  nonce : String
  issuedAt : UInt64
  deriving DecidableEq, Repr

inductive VerifyMethod where
  | totp (totpCode : UInt32)
  | challenge (nonce : String) (clientTimestamp : UInt64) (signature : String)
  deriving DecidableEq, Repr

structure VerifyRequest where
  userId : String
  method : VerifyMethod
  deriving DecidableEq, Repr

structure VerifyResponse where
  valid : Bool
  message : String
  deriving DecidableEq, Repr

/-- What one request takes from its environment: the readings of `now_unix` in
the order they are made, and the values drawn from the random generator. -/
structure Env where
  limitNow : UInt64
  ts : UInt64
  auditNow : UInt64
  kyberSeed : Bytes
  nonce : Nonce
  deriving DecidableEq, Repr

/-- A request handler: mutations made before an error stay. -/
abbrev ServerM := Handler ServerError ServerInner

namespace PqAuthServer
variable (crates : Crates)

def new (serverId : String) : ServerInner where
  serverId := serverId
  users := PartialMap.empty
  pendingEnrollments := PartialMap.empty
  pendingChallenges := PartialMap.empty
  verifier := ChallengeVerifier.new 60
  auditLog := []
  rateLimits := PartialMap.empty
  maxAttempts := 5
  rateWindow := 300

def audit (env : Env) (userId action : String) (success : Bool) (detail : Option String) : ServerM Unit :=
  modify fun inner =>
    { inner with auditLog := inner.auditLog ++ [⟨env.auditNow,userId,action,success,detail⟩] }

/-- Word arithmetic wraps, as in a release build. -/
def checkRateLimit (env : Env) (userId : String) : ServerM Unit := do
  let now := env.limitNow
  let inner ← get
  let entry := (inner.rateLimits userId).getD (0,now)
  if now - entry.2 > inner.rateWindow then
    set { inner with rateLimits := inner.rateLimits.insert userId (1,now) }
  else
    let entry := (entry.1 + 1,entry.2)
    set { inner with rateLimits := inner.rateLimits.insert userId entry }
    if entry.1 > inner.maxAttempts then throw .rateLimited

/-- The same in a build with overflow checks; `none` is a panic. -/
def checkRateLimitChecked (env : Env) (userId : String) (inner : ServerInner) :
    Option (Except ServerError Unit × ServerInner) := do
  let now := env.limitNow
  let entry := (inner.rateLimits userId).getD (0,now)
  let elapsed ← Words.checkedSub now entry.2
  if elapsed > inner.rateWindow then
    return (.ok (),{ inner with rateLimits := inner.rateLimits.insert userId (1,now) })
  else
    let attempts ← Words.checkedAdd32 entry.1 1
    let inner := { inner with rateLimits := inner.rateLimits.insert userId (attempts,entry.2) }
    return (if attempts > inner.maxAttempts then .error .rateLimited else .ok (),inner)

/-- Begin enrollment for a user. -/
def enrollBegin (env : Env) (userId : String) : ServerM EnrollBeginResponse := do
  let inner ← get
  if inner.users.containsKey userId then throw (.userAlreadyEnrolled userId)
  let enrollment := Enrollment.new crates inner.serverId env.kyberSeed
  let challenge := Enrollment.challenge enrollment
  let resp : EnrollBeginResponse := ⟨crates.hex.encode challenge.kyberPublicKey,challenge.serverId⟩
  set { inner with pendingEnrollments := inner.pendingEnrollments.insert userId enrollment }
  audit env userId "enroll_begin" true none
  return resp

/-- Complete enrollment for a user. -/
def enrollComplete (env : Env) (req : EnrollCompleteRequest) : ServerM EnrollCompleteResponse := do
  let inner ← get
  let some enrollment := inner.pendingEnrollments req.userId | throw (.noPendingEnrollment req.userId)
  set { inner with pendingEnrollments := inner.pendingEnrollments.remove req.userId }
  let response : EnrollmentResponse :=
    ⟨(crates.hex.decode req.ciphertext).getD [],(crates.hex.decode req.dilithiumPublicKey).getD []⟩
  match Enrollment.complete crates enrollment response with
  | .error e => throw (.enrollmentFailed e)
  | .ok record =>
    modify fun inner => { inner with users := inner.users.insert req.userId record }
    audit env req.userId "enroll_complete" true none
    return ⟨true,"Enrollment successful"⟩

/-- Issue a challenge for authentication. -/
def issueChallenge (env : Env) (userId : String) : ServerM ChallengeIssued := do
  let inner ← get
  unless inner.users.containsKey userId do throw (.userNotFound userId)
  checkRateLimit env userId
  let challenge : Challenge := ⟨env.nonce,env.ts⟩
  let resp : ChallengeIssued := ⟨crates.hex.encode challenge.nonce.val,challenge.issuedAt⟩
  modify fun inner => { inner with pendingChallenges := inner.pendingChallenges.insert userId challenge }
  audit env userId "challenge_issued" true none
  return resp

/-- The response a wire request stands for, malformed fields replaced by defaults. -/
def decodeResponse (nonce : String) (clientTimestamp : UInt64) (signature : String) : ChallengeResponse :=
  ⟨Nonce.ofBytes ((crates.hex.decode nonce).getD []),clientTimestamp,(crates.hex.decode signature).getD []⟩

/-- Verify authentication, by one-time code or by challenge response. -/
def verify (env : Env) (req : VerifyRequest) : ServerM VerifyResponse := do
  let inner ← get
  let some user := inner.users req.userId | throw (.userNotFound req.userId)
  checkRateLimit env req.userId
  match req.method with
  | .totp totpCode =>
    let valid := PqTotp.verify crates.shake256 user.totpSeed totpCode env.ts 1
    audit env req.userId "verify_totp" valid none
    return ⟨valid,if valid then "TOTP verified" else "Invalid TOTP code"⟩
  | .challenge nonce clientTimestamp signature =>
    let inner ← get
    let some challenge := inner.pendingChallenges req.userId | throw (.noPendingChallenge req.userId)
    set { inner with pendingChallenges := inner.pendingChallenges.remove req.userId }
    let cr := decodeResponse crates nonce clientTimestamp signature
    let (result,verifier) :=
      ChallengeVerifier.verify crates.dilithium3 inner.verifier challenge cr user.dilithiumPublicKey env.ts
    modify fun inner => { inner with verifier := verifier }
    let valid := result.isOk
    let detail : Option String := match result with
      | .ok () => none
      | .error e => some e.toString
    audit env req.userId "verify_challenge" valid detail
    return ⟨valid,if valid then "Challenge-response verified" else "Challenge verification failed"⟩

end PqAuthServer

inductive Request where
  | enrollBegin (userId : String)
  | enrollComplete (req : EnrollCompleteRequest)
  | issueChallenge (userId : String)
  | verify (req : VerifyRequest)
  deriving DecidableEq, Repr

inductive Response where
  | enrollBegin (resp : EnrollBeginResponse)
  | enrollComplete (resp : EnrollCompleteResponse)
  | challengeIssued (resp : ChallengeIssued)
  | verify (resp : VerifyResponse)
  deriving DecidableEq, Repr

def Request.userId : Request → String
  | .enrollBegin userId => userId
  | .enrollComplete req => req.userId
  | .issueChallenge userId => userId
  | .verify req => req.userId

/-- A request together with the environment it runs in. -/
structure Call where
  env : Env
  request : Request
  deriving DecidableEq, Repr

abbrev Call.userId (c : Call) : String := c.request.userId

abbrev Reply := Except ServerError Response

namespace PqAuthServer
variable (crates : Crates)

def auditLog (inner : ServerInner) : List AuditEntry := inner.auditLog

def isEnrolled (inner : ServerInner) (userId : String) : Bool := inner.users.containsKey userId

/-- The four endpoints behind one interface. -/
def serve (c : Call) : ServerM Response :=
  match c.request with
  | .enrollBegin userId => .enrollBegin <$> enrollBegin crates c.env userId
  | .enrollComplete req => .enrollComplete <$> enrollComplete crates c.env req
  | .issueChallenge userId => .challengeIssued <$> issueChallenge crates c.env userId
  | .verify req => .verify <$> verify crates c.env req

def step (inner : ServerInner) (c : Call) : Reply × ServerInner := (serve crates c).exec inner

abbrev Event := Machine.Event ServerInner Call Reply

/-- All events of a run from a fresh server. -/
def history (serverId : String) (calls : List Call) : List Event :=
  Machine.history (step crates) (new serverId) calls

def final (serverId : String) (calls : List Call) : ServerInner :=
  Machine.final (step crates) (new serverId) calls

end PqAuthServer

/-- The clock never steps back, within a request or between two. -/
def Chronological (calls : List Call) : Prop :=
  (calls.flatMap (fun c => [c.env.limitNow,c.env.ts,c.env.auditNow])).Pairwise (· ≤ ·)

instance (calls : List Call) : Decidable (Chronological calls) :=
  inferInstanceAs (Decidable (List.Pairwise _ _))

end PqAuth
