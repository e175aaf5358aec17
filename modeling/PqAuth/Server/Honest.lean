import PqAuth.Server.History
import PqAuth.Source.Transparent

/-! Honest clients: the requests they derive from the server's replies, and the
steps such requests lead to when nobody interferes. -/
namespace PqAuth

/-- An honest client's completion request for a begin reply, and what it keeps. -/
def honestCompletion (crates : Crates) (u : String) (resp : EnrollBeginResponse) (dilithiumPublicKey coins : Bytes) :
    Except EnrollmentError (EnrollCompleteRequest × ClientEnrollment) :=
  match Enrollment.clientEnroll crates ⟨(crates.hex.decode resp.kyberPublicKey).getD [],resp.serverId⟩
      dilithiumPublicKey coins with
  | .error e => .error e
  | .ok (response,client) =>
    .ok (⟨u,crates.hex.encode response.ciphertext,crates.hex.encode response.dilithiumPublicKey⟩,client)

/-- The holder's verification request for a challenge. -/
def honestAnswer (crates : Crates) (u : String) (r : ChallengeResponse) : Request :=
  .verify ⟨u,.challenge (crates.hex.encode r.nonce.val) r.clientTimestamp (crates.hex.encode r.signature)⟩

section
variable {crates : Crates} {serverId u : String} {seed dilithiumPublicKey coins : Bytes}

theorem honestCompletion_ok {resp : EnrollBeginResponse} {req : EnrollCompleteRequest} {client : ClientEnrollment}
    (hx : crates.hex.RoundTrip)
    (h : honestCompletion crates u resp dilithiumPublicKey coins = .ok (req,client)) :
    req.userId = u ∧ Enrollment.clientEnroll crates
      ⟨(crates.hex.decode resp.kyberPublicKey).getD [],resp.serverId⟩ dilithiumPublicKey coins =
        .ok (PqAuthServer.decodeCompletion crates req,client) := by
  unfold honestCompletion at h
  split at h
  · cases h
  · rename_i response client' hc
    obtain ⟨rfl,rfl⟩ := Prod.mk.inj (Except.ok.inj h)
    exact ⟨rfl,by simpa [PqAuthServer.decodeCompletion, hx _] using hc⟩

theorem decodeResponse_encode (hx : crates.hex.RoundTrip) (r : ChallengeResponse) :
    PqAuthServer.decodeResponse crates (crates.hex.encode r.nonce.val) r.clientTimestamp
      (crates.hex.encode r.signature) = r := by
  simp [PqAuthServer.decodeResponse, hx _]

/-- The request of a client that met no error. -/
def honestRequest (crates : Crates) (u : String) (seed dilithiumPublicKey coins : Bytes) : EnrollCompleteRequest :=
  let (_,ct) := crates.kyber768.encapsulate (crates.kyber768.keypair seed).1 coins
  ⟨u,crates.hex.encode (crates.kyber768.ciphertext.asBytes ct),crates.hex.encode dilithiumPublicKey⟩

/-- The seed it derives. -/
def honestClient (crates : Crates) (serverId : String) (seed coins : Bytes) : ClientEnrollment :=
  let (ss,_) := crates.kyber768.encapsulate (crates.kyber768.keypair seed).1 coins
  ⟨Enrollment.deriveTotpSeed crates (crates.kyber768.sharedSecret ss) serverId,serverId⟩

theorem honestCompletion_eq (hx : crates.hex.RoundTrip) (hs : crates.kyber768.Sizes) (hid : serverId ≠ "") :
    honestCompletion crates u ⟨crates.hex.encode (Enrollment.new crates serverId seed).kyberPublicKey,serverId⟩
      dilithiumPublicKey coins =
        .ok (honestRequest crates u seed dilithiumPublicKey coins,honestClient crates serverId seed coins) := by
  have henc := Kyber.encapsulate_generate hs seed coins
  unfold honestCompletion Enrollment.clientEnroll
  simp only [hx _, Option.getD_some, String.isEmpty_iff, hid, if_false, Enrollment.new, henc]
  rfl

/-- Completion of a pending key succeeds on any well-sized answer, whichever key
the client encapsulated to. -/
theorem complete_honestRequest (hx : crates.hex.RoundTrip) (hs : crates.kyber768.Sizes)
    (hpk : dilithiumPublicKey.length = Dilithium.publicKeySize) (pending : Bytes) :
    Enrollment.complete crates (Enrollment.new crates serverId pending)
      (PqAuthServer.decodeCompletion crates (honestRequest crates u seed dilithiumPublicKey coins)) =
        .ok ⟨dilithiumPublicKey,Enrollment.deriveTotpSeed crates (crates.kyber768.sharedSecret
          (crates.kyber768.decapsulate (crates.kyber768.encapsulate (crates.kyber768.keypair seed).1 coins).2
            (crates.kyber768.keypair pending).2)) serverId,serverId⟩ := by
  have hct := hs.ciphertext.length_asBytes (crates.kyber768.encapsulate (crates.kyber768.keypair seed).1 coins).2
  simp [Enrollment.complete, PqAuthServer.decodeCompletion, honestRequest, hx _, hpk, hct, Kyber.ciphertextSize,
    Kyber.decapsulate, Enrollment.new, Kyber.generate, hs.secretKey.fromBytes_asBytes,
    hs.ciphertext.fromBytes_asBytes]

namespace PqAuthServer
variable {s : ServerInner} {env : Env}

theorem step_begin (hu : s.users u = none) :
    step crates s ⟨env,.enrollBegin u⟩ =
      (.ok (.enrollBegin ⟨crates.hex.encode (Enrollment.new crates s.serverId env.kyberSeed).kyberPublicKey,
        s.serverId⟩),afterBegin crates s env u) :=
  Transition.step_eq (.begun hu)

/-- The record stored when the client answered one key and another is pending. -/
def completedRecord (crates : Crates) (serverId : String) (pending seed dilithiumPublicKey coins : Bytes) :
    EnrollmentRecord :=
  let (_,ct) := crates.kyber768.encapsulate (crates.kyber768.keypair seed).1 coins
  let ss := crates.kyber768.decapsulate ct (crates.kyber768.keypair pending).2
  ⟨dilithiumPublicKey,Enrollment.deriveTotpSeed crates (crates.kyber768.sharedSecret ss) serverId,serverId⟩

theorem step_complete (hx : crates.hex.RoundTrip) (hs : crates.kyber768.Sizes)
    (hpk : dilithiumPublicKey.length = Dilithium.publicKeySize) {pending : Bytes}
    (hp : s.pendingEnrollments u = some (Enrollment.new crates s.serverId pending)) :
    step crates s ⟨env,.enrollComplete (honestRequest crates u seed dilithiumPublicKey coins)⟩ =
      (.ok (.enrollComplete ⟨true,"Enrollment successful"⟩),
        afterComplete s env u (completedRecord crates s.serverId pending seed dilithiumPublicKey coins)) :=
  Transition.step_eq (.enrolled hp (complete_honestRequest hx hs hpk pending))

theorem step_issue {record : EnrollmentRecord} (hu : s.users u = some record) (hl : passes s env u = true) :
    step crates s ⟨env,.issueChallenge u⟩ =
      (.ok (.challengeIssued ⟨crates.hex.encode env.nonce.val,env.ts⟩),afterIssue s env u) :=
  Transition.step_eq (.issued hu hl)

theorem step_answer {record : EnrollmentRecord} {challenge : Challenge} (hx : crates.hex.RoundTrip)
    (hu : s.users u = some record) (hl : passes s env u = true) (hp : s.pendingChallenges u = some challenge)
    (r : ChallengeResponse) :
    step crates s ⟨env,honestAnswer crates u r⟩ =
      (.ok (.verify (challengeResponse (ChallengeVerifier.verify crates.dilithium3 s.verifier challenge r
        record.dilithiumPublicKey env.ts).1.isOk)),
      afterAnswer s env u (ChallengeVerifier.verify crates.dilithium3 s.verifier challenge r
        record.dilithiumPublicKey env.ts)) :=
  Transition.step_eq (.answered hu hl hp (by rw [decodeResponse_encode hx]))

end PqAuthServer
end

section
open Transparent

/-- All clock readings of a request at one time. -/
def sampleEnv (now : UInt64) (seed : Bytes) (nonce : Nonce) : Env := ⟨now,now,now,seed,nonce⟩

def sampleNonce (b : UInt8) : Nonce := ⟨List.replicate 32 b,List.length_replicate⟩

/-- The reply to a begin that drew `[1]`, and what its client answers. -/
def sampleBegin : EnrollBeginResponse :=
  ⟨hex.encode (Enrollment.new Transparent.crates "example.org" [1]).kyberPublicKey,"example.org"⟩

def sampleRequest (u : String) : EnrollCompleteRequest :=
  honestRequest Transparent.crates u [1] keypair.publicKey [9]

def sampleClient : ClientEnrollment := honestClient Transparent.crates "example.org" [1] [9]

theorem sampleCompletion (u : String) : honestCompletion Transparent.crates u sampleBegin keypair.publicKey [9] =
    .ok (sampleRequest u,sampleClient) :=
  honestCompletion_eq hex_roundTrip kyber768_sizes (by decide)

namespace PqAuthServer

def beginCall (now : UInt64) (seed : Bytes) (u : String) : Call :=
  ⟨sampleEnv now seed (sampleNonce 0),.enrollBegin u⟩

def completeCall (now : UInt64) (u : String) : Call :=
  ⟨sampleEnv now [] (sampleNonce 0),.enrollComplete (sampleRequest u)⟩

def issueCall (nonce : Nonce) (u : String) (now : UInt64) : Call := ⟨sampleEnv now [] nonce,.issueChallenge u⟩

/-- The key holder's answer, with a nonce field of the sender's choice. -/
def answerCall (challenge : Challenge) (nonce : Nonce) (u : String) (now : UInt64) : Call :=
  ⟨sampleEnv now [] (sampleNonce 0),honestAnswer Transparent.crates u (respond challenge nonce now)⟩

/-- The state in which the client's answer to `sampleBegin` is awaited. -/
def sampleBegun (u : String) : ServerInner :=
  afterBegin Transparent.crates (new "example.org") (sampleEnv 1000 [1] (sampleNonce 0)) u

theorem step_sampleBegin (u : String) : step Transparent.crates (new "example.org") (beginCall 1000 [1] u) =
    (.ok (.enrollBegin sampleBegin),sampleBegun u) := step_begin rfl

def sampleRecord : EnrollmentRecord :=
  completedRecord Transparent.crates "example.org" [1] [1] keypair.publicKey [9]

theorem sampleRecord_key : sampleRecord.dilithiumPublicKey = keypair.publicKey := rfl

def sampleEnrolled (now : UInt64) (u : String) : ServerInner :=
  afterComplete (sampleBegun u) (sampleEnv now [] (sampleNonce 0)) u sampleRecord

theorem step_sampleComplete (now : UInt64) (u : String) :
    step Transparent.crates (sampleBegun u) (completeCall now u) =
      (.ok (.enrollComplete ⟨true,"Enrollment successful"⟩),sampleEnrolled now u) :=
  step_complete hex_roundTrip kyber768_sizes keypair_publicKey_length (afterBegin_pendingEnrollments ..)

theorem final_sampleEnrolled (now : UInt64) (u : String) :
    Machine.final (step Transparent.crates) (new "example.org") [beginCall 1000 [1] u,completeCall now u] =
      sampleEnrolled now u := by
  rw [Machine.final_cons, Machine.final_cons, Machine.final_nil, step_sampleBegin, step_sampleComplete]

theorem sampleEnrolled_users (now : UInt64) (u : String) : (sampleEnrolled now u).users u = some sampleRecord :=
  afterComplete_users ..

/-- The same enrollment after other users'. -/
theorem final_sampleEnroll {s : ServerInner} {u : String} (hid : s.serverId = "example.org") (hu : s.users u = none)
    (now later : UInt64) :
    Machine.final (step Transparent.crates) s [beginCall now [1] u,completeCall later u] =
      afterComplete (afterBegin Transparent.crates s (sampleEnv now [1] (sampleNonce 0)) u)
        (sampleEnv later [] (sampleNonce 0)) u sampleRecord := by
  have hbegin : step Transparent.crates s (beginCall now [1] u) =
      (_,afterBegin Transparent.crates s (sampleEnv now [1] (sampleNonce 0)) u) := step_begin hu
  have hcomplete : step Transparent.crates (afterBegin Transparent.crates s (sampleEnv now [1] (sampleNonce 0)) u)
      (completeCall later u) = (_,afterComplete (afterBegin Transparent.crates s (sampleEnv now [1] (sampleNonce 0)) u)
        (sampleEnv later [] (sampleNonce 0)) u (completedRecord Transparent.crates s.serverId [1] [1]
          keypair.publicKey [9])) :=
    step_complete hex_roundTrip kyber768_sizes keypair_publicKey_length (afterBegin_pendingEnrollments ..)
  rw [Machine.final_cons, hbegin, Machine.final_cons, hcomplete, Machine.final_nil, hid]
  rfl

theorem step_answerCall {s : ServerInner} {u : String} {challenge : Challenge} {nonce : Nonce} {now : UInt64}
    (hu : s.users u = some sampleRecord) (hl : passes s (sampleEnv now [] (sampleNonce 0)) u = true)
    (hp : s.pendingChallenges u = some challenge) :
    step Transparent.crates s (answerCall challenge nonce u now) =
      (.ok (.verify (challengeResponse (ChallengeVerifier.verify dilithium3 s.verifier challenge
        (respond challenge nonce now) keypair.publicKey now).1.isOk)),
      afterAnswer s (sampleEnv now [] (sampleNonce 0)) u (ChallengeVerifier.verify dilithium3 s.verifier challenge
        (respond challenge nonce now) keypair.publicKey now)) :=
  step_answer hex_roundTrip hu hl hp (respond challenge nonce now)

theorem passes_first {s : ServerInner} {u : String} (hm : s.maxAttempts = 5) (hl : s.rateLimits u = none)
    (env : Env) : passes s env u = true := by
  simp [passes, attempt, hl, hm]

theorem sample_begun (u : String) :
    Begun u sampleBegin (Machine.event (step Transparent.crates) (new "example.org") (beginCall 1000 [1] u)) :=
  ⟨rfl,congrArg Prod.fst (step_sampleBegin u)⟩

theorem sample_completed (now : UInt64) (u : String) :
    Completed (sampleRequest u) (Machine.event (step Transparent.crates) (sampleBegun u) (completeCall now u)) := by
  refine ⟨rfl,?_⟩
  rw [Machine.event, step_sampleComplete]
  rfl

end PqAuthServer
end
end PqAuth
