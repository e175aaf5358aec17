import PqAuth.Foundation.Unwinding
import PqAuth.Server.AuditLog

/-! What the server's secrets show in. The shared secrets of enrollments and the
seeds derived from them reach no reply but the verdicts on codes. -/
namespace PqAuth

def ServerEnrollment.disclosed (enrollment : ServerEnrollment) : Bytes × String :=
  (enrollment.kyberPublicKey,enrollment.serverId)

def EnrollmentRecord.disclosed (record : EnrollmentRecord) : Bytes × String :=
  (record.dilithiumPublicKey,record.serverId)

def Request.withoutCode : Request → Request
  | .verify ⟨u,.totp _⟩ => .verify ⟨u,.totp 0⟩
  | request => request

namespace PqAuthServer

/-- Calls that differ at most in the submitted code and in the secret half of the drawn key. -/
structure Alike (kyber kyber' : Kyber768) (c c' : Call) : Prop where
  limitNow : c.env.limitNow = c'.env.limitNow
  ts : c.env.ts = c'.env.ts
  auditNow : c.env.auditNow = c'.env.auditNow
  nonce : c.env.nonce = c'.env.nonce
  publicKey : (Kyber.generate kyber c.env.kyberSeed).publicKey = (Kyber.generate kyber' c'.env.kyberSeed).publicKey
  request : c.request.withoutCode = c'.request.withoutCode

def judgesCode (c : Call) : Bool := c.request matches .verify ⟨_,.totp _⟩

/-- States that differ at most in secret keys and seeds. -/
structure Veiled (s t : ServerInner) : Prop where
  serverId : s.serverId = t.serverId
  users : s.users.map EnrollmentRecord.disclosed = t.users.map EnrollmentRecord.disclosed
  enrollments : s.pendingEnrollments.map ServerEnrollment.disclosed =
    t.pendingEnrollments.map ServerEnrollment.disclosed
  challenges : s.pendingChallenges = t.pendingChallenges
  verifier : s.verifier = t.verifier
  auditLog : s.auditLog = t.auditLog
  rateLimits : s.rateLimits = t.rateLimits
  limits : s.maxAttempts = t.maxAttempts ∧ s.rateWindow = t.rateWindow

variable {hex : Hex} {dilithium : Dilithium3} {xof xof' : Xof} {kyber kyber' : Kyber768} {s t : ServerInner}
  {env env' : Env} {u : String}

theorem map_some {α β : Type} {f : α → β} {m m' : PartialMap String α} (h : m.map f = m'.map f) {a : α}
    (ha : m u = some a) : ∃ a', m' u = some a' ∧ f a' = f a := by
  have hu := congrFun h u
  rw [PartialMap.map, PartialMap.map, ha] at hu
  obtain ⟨a',ha',hf⟩ := Option.map_eq_some_iff.mp hu.symm
  exact ⟨a',ha',hf⟩

theorem map_none {α β : Type} {f : α → β} {m m' : PartialMap String α} (h : m.map f = m'.map f)
    (hn : m u = none) : m' u = none := by
  have hu := congrFun h u
  rw [PartialMap.map, PartialMap.map, hn] at hu
  exact Option.map_eq_none_iff.mp hu.symm

/-- What is seen of a completed record comes from the response and the server's name. -/
theorem complete_disclosed {crates : Crates} (hk : crates.kyber768.Sizes) {enrollment : ServerEnrollment}
    (hkey : enrollment.kyberSecretKey.length = Kyber.secretKeySize) {response : EnrollmentResponse}
    (hct : response.ciphertext.length = Kyber.ciphertextSize)
    (hpk : response.dilithiumPublicKey.length = Dilithium.publicKeySize) :
    ∃ record, Enrollment.complete crates enrollment response = .ok record ∧
      record.disclosed = (response.dilithiumPublicKey,enrollment.serverId) := by
  cases hr : Enrollment.complete crates enrollment response with
  | error e => exact absurd ⟨hct,hpk⟩ ((Enrollment.complete_error_iff hk hkey response).mp ⟨e,hr⟩)
  | ok record =>
    obtain ⟨_,_,ss,_,rfl⟩ := Enrollment.complete_ok hr
    exact ⟨_,rfl,rfl⟩

/-- Completion goes the same way whatever the secret key and what is derived from it. -/
theorem complete_veiled (hk : kyber.Sizes) (hk' : kyber'.Sizes) {enrollment enrollment' : ServerEnrollment}
    (hkey : enrollment.kyberSecretKey.length = Kyber.secretKeySize)
    (hkey' : enrollment'.kyberSecretKey.length = Kyber.secretKeySize)
    (hid : enrollment'.serverId = enrollment.serverId) (response : EnrollmentResponse) :
    (∃ e, Enrollment.complete ⟨hex,xof,kyber,dilithium⟩ enrollment response = .error e ∧
        Enrollment.complete ⟨hex,xof',kyber',dilithium⟩ enrollment' response = .error e) ∨
      ∃ record record', Enrollment.complete ⟨hex,xof,kyber,dilithium⟩ enrollment response = .ok record ∧
        Enrollment.complete ⟨hex,xof',kyber',dilithium⟩ enrollment' response = .ok record' ∧
        record'.disclosed = record.disclosed := by
  by_cases hct : response.ciphertext.length = Kyber.ciphertextSize
  · by_cases hpk : response.dilithiumPublicKey.length = Dilithium.publicKeySize
    · obtain ⟨record,hr,hd⟩ := @complete_disclosed ⟨hex,xof,kyber,dilithium⟩ hk _ hkey _ hct hpk
      obtain ⟨record',hr',hd'⟩ := @complete_disclosed ⟨hex,xof',kyber',dilithium⟩ hk' _ hkey' _ hct hpk
      exact Or.inr ⟨record,record',hr,hr',by rw [hd, hd', hid]⟩
    · left
      refine ⟨.invalidPublicKeyLength Dilithium.publicKeySize response.dilithiumPublicKey.length,?_,?_⟩ <;>
        simp [Enrollment.complete, hct, hpk]
  · left
    refine ⟨.invalidCiphertextLength Kyber.ciphertextSize response.ciphertext.length,?_,?_⟩ <;>
      simp [Enrollment.complete, hct]

theorem Veiled.passes_eq (h : Veiled s t) (henv : env.limitNow = env'.limitNow) (u : String) :
    passes t env' u = passes s env u := by
  rw [passes, passes, h.limits.1, h.limits.2, h.rateLimits, henv]

theorem Veiled.counted (h : Veiled s t) (henv : env.limitNow = env'.limitNow) (u : String) :
    Veiled (counted s env u) (counted t env' u) :=
  { h with
    rateLimits := by rw [PqAuthServer.counted, PqAuthServer.counted, h.rateLimits, h.limits.1, h.limits.2, henv] }

theorem Veiled.logged (h : Veiled s t) (henv : env.auditNow = env'.auditNow) (u action : String) (success : Bool)
    (detail : Option String) : Veiled (logged s env u action success detail) (logged t env' u action success detail) :=
  { h with auditLog := by rw [PqAuthServer.logged, PqAuthServer.logged, h.auditLog, henv] }

theorem Veiled.begin (h : Veiled s t) (henv : env.auditNow = env'.auditNow)
    (hkey : (Kyber.generate kyber env.kyberSeed).publicKey = (Kyber.generate kyber' env'.kyberSeed).publicKey)
    (u : String) : Veiled (afterBegin ⟨hex,xof,kyber,dilithium⟩ s env u)
      (afterBegin ⟨hex,xof',kyber',dilithium⟩ t env' u) := by
  refine Veiled.logged ?_ henv u "enroll_begin" true none
  refine { h with enrollments := ?_ }
  rw [PartialMap.map_insert, PartialMap.map_insert, h.enrollments]
  simp only [ServerEnrollment.disclosed, Enrollment.new, hkey, h.serverId]

theorem Veiled.remove (h : Veiled s t) (u : String) :
    Veiled { s with pendingEnrollments := s.pendingEnrollments.remove u }
      { t with pendingEnrollments := t.pendingEnrollments.remove u } :=
  { h with enrollments := by rw [PartialMap.map_remove, PartialMap.map_remove, h.enrollments] }

theorem Veiled.complete (h : Veiled s t) (henv : env.auditNow = env'.auditNow) (u : String)
    {record record' : EnrollmentRecord} (hrecord : record'.disclosed = record.disclosed) :
    Veiled (afterComplete s env u record) (afterComplete t env' u record') := by
  refine Veiled.logged ?_ henv u "enroll_complete" true none
  refine { h.remove u with users := ?_ }
  rw [PartialMap.map_insert, PartialMap.map_insert, h.users, hrecord]

theorem Veiled.issue (h : Veiled s t) {c c' : Call} (hc : Alike kyber kyber' c c') (u : String) :
    Veiled (afterIssue s c.env u) (afterIssue t c'.env u) := by
  refine Veiled.logged ?_ hc.auditNow u "challenge_issued" true none
  refine { h.counted hc.limitNow u with challenges := ?_ }
  rw [h.challenges, hc.nonce, hc.ts]

theorem Veiled.answer (h : Veiled s t) {c c' : Call} (hc : Alike kyber kyber' c c') (u : String)
    (outcome : Except ChallengeError Unit × ChallengeVerifier) :
    Veiled (afterAnswer s c.env u outcome) (afterAnswer t c'.env u outcome) := by
  refine Veiled.logged ?_ hc.auditNow u "verify_challenge" _ _
  refine { h.counted hc.limitNow u with challenges := ?_, verifier := rfl }
  rw [h.challenges]

theorem secretKey_length {crates : Crates} (hk : crates.kyber768.Sizes) (hs : StoreInvariant crates s)
    {enrollment : ServerEnrollment} (hp : s.pendingEnrollments u = some enrollment) :
    enrollment.kyberSecretKey.length = Kyber.secretKeySize := by
  obtain ⟨seed,rfl⟩ := hs.drawn u enrollment hp
  exact Kyber.generate_secretKey_length hk seed

/-- The same completion, of two sessions that may hold different secrets. -/
theorem Veiled.completes (h : Veiled s t) (hk : kyber.Sizes) (hk' : kyber'.Sizes)
    (hs : StoreInvariant ⟨hex,xof,kyber,dilithium⟩ s) (hs' : StoreInvariant ⟨hex,xof',kyber',dilithium⟩ t)
    (req : EnrollCompleteRequest) {enrollment : ServerEnrollment}
    (hp : s.pendingEnrollments req.userId = some enrollment) :
    ∃ enrollment', t.pendingEnrollments req.userId = some enrollment' ∧
      ((∃ e, Enrollment.complete ⟨hex,xof,kyber,dilithium⟩ enrollment
            (decodeCompletion ⟨hex,xof,kyber,dilithium⟩ req) = .error e ∧
          Enrollment.complete ⟨hex,xof',kyber',dilithium⟩ enrollment'
            (decodeCompletion ⟨hex,xof',kyber',dilithium⟩ req) = .error e) ∨
        ∃ record record', Enrollment.complete ⟨hex,xof,kyber,dilithium⟩ enrollment
            (decodeCompletion ⟨hex,xof,kyber,dilithium⟩ req) = .ok record ∧
          Enrollment.complete ⟨hex,xof',kyber',dilithium⟩ enrollment'
            (decodeCompletion ⟨hex,xof',kyber',dilithium⟩ req) = .ok record' ∧
            record'.disclosed = record.disclosed) := by
  obtain ⟨enrollment',hp',hdisclosed⟩ := map_some h.enrollments hp
  exact ⟨enrollment',hp',complete_veiled hk hk' (secretKey_length hk hs hp) (secretKey_length hk' hs' hp')
    (congrArg Prod.snd hdisclosed) _⟩

/-- A verdict on a code is all that the two sides may differ in. -/
theorem Transition.veiled_code {s' : ServerInner} {code : UInt32} {reply : Reply}
    (ht : Transition ⟨hex,xof,kyber,dilithium⟩ s env (.verify ⟨u,.totp code⟩) reply s') (h : Veiled s t)
    (hlimit : env.limitNow = env'.limitNow) (haudit : env.auditNow = env'.auditNow) (code' : UInt32) :
    ∃ reply' t', Transition ⟨hex,xof',kyber',dilithium⟩ t env' (.verify ⟨u,.totp code'⟩) reply' t' ∧
      (reply = reply' → Veiled s' t') := by
  have hpasses := h.passes_eq hlimit u
  cases ht
  case verifyUnknown hu => exact ⟨_,_,.verifyUnknown (map_none h.users hu),fun _ => h⟩
  case verifyLimited record hu hl =>
    obtain ⟨record',hu',-⟩ := map_some h.users hu
    exact ⟨_,_,.verifyLimited hu' (hpasses.trans hl),fun _ => h.counted hlimit u⟩
  case totp record valid hu hl hv =>
    obtain ⟨record',hu',-⟩ := map_some h.users hu
    refine ⟨_,_,.totp hu' (hpasses.trans hl) rfl,?_⟩
    intro hreply
    have hvalid := congrArg VerifyResponse.valid (Response.verify.inj (Except.ok.inj hreply))
    dsimp only [totpResponse] at hvalid
    rw [← hvalid]
    exact (h.counted hlimit u).logged haudit u "verify_totp" valid none

/-- Any other step is the same on both sides, with the same reply. -/
theorem Transition.veiled (hk : kyber.Sizes) (hk' : kyber'.Sizes) {s' : ServerInner} {c c' : Call} {reply : Reply}
    (ht : Transition ⟨hex,xof,kyber,dilithium⟩ s c.env c.request reply s') (h : Veiled s t)
    (hs : StoreInvariant ⟨hex,xof,kyber,dilithium⟩ s) (hs' : StoreInvariant ⟨hex,xof',kyber',dilithium⟩ t)
    (hc : Alike kyber kyber' c c') (hcode : judgesCode c = false) :
    ∃ t', Transition ⟨hex,xof',kyber',dilithium⟩ t c'.env c.request reply t' ∧ Veiled s' t' := by
  obtain ⟨env,request⟩ := c
  have hpasses := h.passes_eq hc.limitNow
  dsimp only at ht ⊢
  cases ht
  case alreadyEnrolled u record hu =>
    obtain ⟨record',hu',-⟩ := map_some h.users hu
    exact ⟨_,.alreadyEnrolled hu',h⟩
  case begun u hu =>
    have hbegun := @Transition.begun ⟨hex,xof',kyber',dilithium⟩ t c'.env u (map_none h.users hu)
    rw [Enrollment.new, ← hc.publicKey, ← h.serverId] at hbegun
    exact ⟨_,hbegun,h.begin hc.auditNow hc.publicKey u⟩
  case noPendingEnrollment req hp => exact ⟨_,.noPendingEnrollment (map_none h.enrollments hp),h⟩
  case enrollmentFailed req enrollment e hp he =>
    obtain ⟨enrollment',hp',hboth⟩ := h.completes hk hk' hs hs' req hp
    rcases hboth with ⟨e',he',hfailed⟩ | ⟨record,_,hr,_⟩
    · obtain rfl := Except.error.inj (he.symm.trans he')
      exact ⟨_,.enrollmentFailed hp' hfailed,h.remove req.userId⟩
    · cases he.symm.trans hr
  case enrolled req enrollment record hp hr =>
    obtain ⟨enrollment',hp',hboth⟩ := h.completes hk hk' hs hs' req hp
    rcases hboth with ⟨e,he,_⟩ | ⟨_,record',hr',henrolled,hrecord⟩
    · cases hr.symm.trans he
    · obtain rfl := Except.ok.inj (hr.symm.trans hr')
      exact ⟨_,.enrolled hp' henrolled,h.complete hc.auditNow req.userId hrecord⟩
  case issueUnknown u hu => exact ⟨_,.issueUnknown (map_none h.users hu),h⟩
  case issueLimited u record hu hl =>
    obtain ⟨record',hu',-⟩ := map_some h.users hu
    exact ⟨_,.issueLimited hu' ((hpasses u).trans hl),h.counted hc.limitNow u⟩
  case issued u record hu hl =>
    obtain ⟨record',hu',-⟩ := map_some h.users hu
    have hissued := @Transition.issued ⟨hex,xof',kyber',dilithium⟩ t c'.env u record' hu' ((hpasses u).trans hl)
    rw [← hc.nonce, ← hc.ts] at hissued
    exact ⟨_,hissued,h.issue hc u⟩
  case verifyUnknown u method hu => exact ⟨_,.verifyUnknown (map_none h.users hu),h⟩
  case verifyLimited u method record hu hl =>
    obtain ⟨record',hu',-⟩ := map_some h.users hu
    exact ⟨_,.verifyLimited hu' ((hpasses u).trans hl),h.counted hc.limitNow u⟩
  case totp => cases hcode
  case noPendingChallenge u nonce ct sig record hu hl hp =>
    obtain ⟨record',hu',-⟩ := map_some h.users hu
    exact ⟨_,.noPendingChallenge hu' ((hpasses u).trans hl) (h.challenges ▸ hp),h.counted hc.limitNow u⟩
  case answered u nonce ct sig record challenge outcome hu hl hp ho =>
    obtain ⟨record',hu',hrecord⟩ := map_some h.users hu
    have hkey : record'.dilithiumPublicKey = record.dilithiumPublicKey := congrArg Prod.fst hrecord
    refine ⟨_,.answered hu' ((hpasses u).trans hl) (h.challenges ▸ hp) ?_,h.answer hc u outcome⟩
    rw [← h.verifier, ← hc.ts, hkey]
    exact ho

/-- Calls that look alike are the same request, or two guesses for one user. -/
theorem Alike.request_cases {c c' : Call} (hc : Alike kyber kyber' c c') :
    (judgesCode c = false ∧ c'.request = c.request) ∨
      ∃ u code code', judgesCode c = true ∧ c.request = .verify ⟨u,.totp code⟩ ∧
        c'.request = .verify ⟨u,.totp code'⟩ := by
  obtain ⟨env,request⟩ := c
  obtain ⟨env',request'⟩ := c'
  have hrequest := hc.request
  rcases request with u | req | u | ⟨u,code | ⟨nonce,ct,sig⟩⟩ <;>
    rcases request' with u' | req' | u' | ⟨u',code' | ⟨nonce',ct',sig'⟩⟩ <;>
    simp_all [Request.withoutCode, judgesCode]

theorem Veiled.step (hk : kyber.Sizes) (hk' : kyber'.Sizes) (h : Veiled s t)
    (hs : StoreInvariant ⟨hex,xof,kyber,dilithium⟩ s) (hs' : StoreInvariant ⟨hex,xof',kyber',dilithium⟩ t)
    {c c' : Call} (hc : Alike kyber kyber' c c')
    (htold : judgesCode c = true → (PqAuthServer.step ⟨hex,xof,kyber,dilithium⟩ s c).1 =
      (PqAuthServer.step ⟨hex,xof',kyber',dilithium⟩ t c').1) :
    (PqAuthServer.step ⟨hex,xof,kyber,dilithium⟩ s c).1 = (PqAuthServer.step ⟨hex,xof',kyber',dilithium⟩ t c').1 ∧
      Veiled (PqAuthServer.step ⟨hex,xof,kyber,dilithium⟩ s c).2
        (PqAuthServer.step ⟨hex,xof',kyber',dilithium⟩ t c').2 := by
  have ht := transition ⟨hex,xof,kyber,dilithium⟩ s c
  rcases hc.request_cases with ⟨hcode,hsame⟩ | ⟨u,code,code',hcode,hreq,hreq'⟩
  · obtain ⟨t',ht',hveiled⟩ := ht.veiled hk hk' h hs hs' hc hcode
    rw [← hsame] at ht'
    have hstep : PqAuthServer.step ⟨hex,xof',kyber',dilithium⟩ t c' = (_,t') := ht'.step_eq
    rw [hstep]
    exact ⟨rfl,hveiled⟩
  · rw [hreq] at ht
    obtain ⟨reply',t',ht',hveiled⟩ := ht.veiled_code h hc.limitNow hc.auditNow code'
    rw [← hreq'] at ht'
    have hstep : PqAuthServer.step ⟨hex,xof',kyber',dilithium⟩ t c' = (reply',t') := ht'.step_eq
    have hreply := htold hcode
    rw [hstep] at hreply ⊢
    exact ⟨hreply,hveiled hreply⟩

/-- The secret keys, what is derived from them and the submitted codes show in
nothing but the verdicts on codes. Two services whose verdicts agree, and whose
public keys do, answer alike and write the same log. -/
theorem secrets_unseen (hk : kyber.Sizes) (hk' : kyber'.Sizes) (serverId : String) {calls calls' : List Call}
    (halike : List.Forall₂ (Alike kyber kyber') calls calls')
    (htold : List.Forall₂ (fun e f => judgesCode e.input = true → e.output = f.output)
      (history ⟨hex,xof,kyber,dilithium⟩ serverId calls) (history ⟨hex,xof',kyber',dilithium⟩ serverId calls')) :
    (history ⟨hex,xof,kyber,dilithium⟩ serverId calls).map Machine.Event.output =
        (history ⟨hex,xof',kyber',dilithium⟩ serverId calls').map Machine.Event.output ∧
      (final ⟨hex,xof,kyber,dilithium⟩ serverId calls).auditLog =
        (final ⟨hex,xof',kyber',dilithium⟩ serverId calls').auditLog := by
  have hstep : ∀ s t c c', (Veiled s t ∧ StoreInvariant ⟨hex,xof,kyber,dilithium⟩ s ∧
      StoreInvariant ⟨hex,xof',kyber',dilithium⟩ t) → Alike kyber kyber' c c' →
      (judgesCode c = true →
        (step ⟨hex,xof,kyber,dilithium⟩ s c).1 = (step ⟨hex,xof',kyber',dilithium⟩ t c').1) →
      (step ⟨hex,xof,kyber,dilithium⟩ s c).1 = (step ⟨hex,xof',kyber',dilithium⟩ t c').1 ∧
        Veiled (step ⟨hex,xof,kyber,dilithium⟩ s c).2 (step ⟨hex,xof',kyber',dilithium⟩ t c').2 ∧
        StoreInvariant ⟨hex,xof,kyber,dilithium⟩ (step ⟨hex,xof,kyber,dilithium⟩ s c).2 ∧
        StoreInvariant ⟨hex,xof',kyber',dilithium⟩ (step ⟨hex,xof',kyber',dilithium⟩ t c').2 := by
    rintro s t c c' ⟨hveiled,hs,hs'⟩ hc htold
    obtain ⟨hreply,hnext⟩ := hveiled.step hk hk' hs hs' hc htold
    exact ⟨hreply,hnext,(transition _ s c).storeInvariant hs,(transition _ t c').storeInvariant hs'⟩
  have hstart : Veiled (new serverId) (new serverId) := ⟨rfl,rfl,rfl,rfl,rfl,rfl,rfl,rfl,rfl⟩
  obtain ⟨houtputs,hveiled,-⟩ := Machine.lockstep hstep halike
    ⟨hstart,storeInvariant_new serverId,storeInvariant_new serverId⟩ htold
  exact ⟨houtputs,hveiled.auditLog⟩

section
open Transparent

/-- A guess with too many digits is wrong whatever the hash. -/
private theorem guess_reply (xof : Xof) {s : ServerInner} {record : EnrollmentRecord}
    (hu : s.users "alice" = some record) (hmax : s.maxAttempts = 5) (hl : s.rateLimits "alice" = none) {code : UInt32}
    (h : 10 ^ 8 ≤ code.toNat) : (step ⟨Transparent.hex,xof,kyber768,dilithium3⟩ s (guessCall code)).1 =
      .ok (.verify (totpResponse false)) := by
  have hwrong : PqTotp.verify xof record.totpSeed code 1010 1 = false := by
    rw [Bool.eq_false_iff]
    exact fun hv => Nat.not_le.mpr (PqTotp.accepted_lt hv) h
  have hstep : step ⟨Transparent.hex,xof,kyber768,dilithium3⟩ s (guessCall code) = _ :=
    Transition.step_eq (.totp hu (passes_first hmax hl _) hwrong)
  rw [hstep]

private theorem guess_rejected (xof : Xof) {code : UInt32} (h : 10 ^ 8 ≤ code.toNat) :
    (step ⟨Transparent.hex,xof,kyber768,dilithium3⟩ (final ⟨Transparent.hex,xof,kyber768,dilithium3⟩ "example.org"
      [beginCall 1000 [1] "alice",completeCall 1001 "alice"]) (guessCall code)).1 =
        .ok (.verify (totpResponse false)) := by
  have hbegin : step ⟨Transparent.hex,xof,kyber768,dilithium3⟩ (new "example.org") (beginCall 1000 [1] "alice") =
      (_,afterBegin ⟨Transparent.hex,xof,kyber768,dilithium3⟩ (new "example.org") (sampleEnv 1000 [1] (sampleNonce 0))
        "alice") := step_begin rfl
  have hcomplete : step ⟨Transparent.hex,xof,kyber768,dilithium3⟩ (afterBegin ⟨Transparent.hex,xof,kyber768,dilithium3⟩
      (new "example.org") (sampleEnv 1000 [1] (sampleNonce 0)) "alice") (completeCall 1001 "alice") = (_,_) :=
    step_complete hex_roundTrip kyber768_sizes keypair_publicKey_length (afterBegin_pendingEnrollments ..)
  rw [final, Machine.final_cons, hbegin, Machine.final_cons, hcomplete, Machine.final_nil]
  exact guess_reply xof (afterComplete_users ..) rfl rfl h

private theorem history_guessed (crates : Crates) (code : UInt32) : history crates "example.org" (guessed code) =
    [Machine.event (step crates) (new "example.org") (beginCall 1000 [1] "alice"),
      Machine.event (step crates) (final crates "example.org" [beginCall 1000 [1] "alice"]) (completeCall 1001 "alice"),
      Machine.event (step crates) (final crates "example.org" [beginCall 1000 [1] "alice",completeCall 1001 "alice"])
        (guessCall code)] := rfl

/-- Two guesses, at services that hash in two ways. -/
theorem secrets_unseen_guesses :
    (history ⟨Transparent.hex,Transparent.shake256,kyber768,dilithium3⟩ "example.org" (guessed 100000000)).map
        Machine.Event.output =
      (history ⟨Transparent.hex,fun _ _ => 0,kyber768,dilithium3⟩ "example.org" (guessed 100000001)).map
        Machine.Event.output ∧
    (final ⟨Transparent.hex,Transparent.shake256,kyber768,dilithium3⟩ "example.org" (guessed 100000000)).auditLog =
      (final ⟨Transparent.hex,fun _ _ => 0,kyber768,dilithium3⟩ "example.org" (guessed 100000001)).auditLog := by
  refine secrets_unseen kyber768_sizes kyber768_sizes "example.org" ?_ ?_
  · have hsame (c : Call) : Alike kyber768 kyber768 c c := ⟨rfl,rfl,rfl,rfl,rfl,rfl⟩
    exact .cons (hsame _) (.cons (hsame _) (.cons ⟨rfl,rfl,rfl,rfl,rfl,rfl⟩ .nil))
  · rw [history_guessed, history_guessed]
    refine .cons (fun h => ?_) (.cons (fun h => ?_) (.cons (fun _ => ?_) .nil))
    · cases h
    · cases h
    · rw [Machine.event, Machine.event, @guess_rejected Transparent.shake256 100000000 (by decide),
        @guess_rejected (fun _ _ => 0) 100000001 (by decide)]

end

end PqAuthServer
end PqAuth
