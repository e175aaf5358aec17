import PqAuth.Server.BruteForce
import PqAuth.Server.KeyAgreement
import PqAuth.Server.Noninterference

/-! A client that keeps to the protocol and to the pace of the limiter, beside
whatever the other users do. Each of its requests comes from the replies it got. -/
namespace PqAuth

/-- The challenge a client reads in a reply. -/
def ChallengeIssued.challenge (crates : Crates) (resp : ChallengeIssued) : Challenge :=
  ⟨Nonce.ofBytes ((crates.hex.decode resp.nonce).getD []),resp.issuedAt⟩

namespace PqAuthServer
open Words (absDiff)

/-- What a client keeps of the replies. -/
inductive Client where
  | joining (begun : Option EnrollBeginResponse)
  | member (enrollment : ClientEnrollment) (issued : Option ChallengeIssued)

/-- The request was granted, and a verification came out valid. -/
def granted : Reply → Bool
  | .ok (.verify resp) => resp.valid
  | .ok _ => true
  | .error _ => false

section
variable (crates : Crates) (u : String)

/-- What one user asks for in a run, and gets. -/
def conversation (s : ServerInner) (calls : List Call) : List (Call × Reply) :=
  Machine.exchanges (fun c => c.userId == u) (Machine.history (step crates) s calls)

variable (keypair : DilithiumKeypair)

/-- The exchanges of a client. After a request that was not granted it may do anything. -/
inductive Follows : Client → List (Call × Reply) → Prop
  | rest {client} : Follows client []
  | begin {env begun reply more}
      (h : ∀ resp, reply = .ok (.enrollBegin resp) → Follows (.joining (some resp)) more) :
      Follows (.joining begun) ((⟨env,.enrollBegin u⟩,reply) :: more)
  | complete {env resp coins req enrollment reply more}
      (hreq : honestCompletion crates u resp keypair.publicKey coins = .ok (req,enrollment))
      (h : granted reply = true → Follows (.member enrollment none) more) :
      Follows (.joining (some resp)) ((⟨env,.enrollComplete req⟩,reply) :: more)
  | code {env enrollment issued clientTime reply more} (hclock : absDiff clientTime env.ts ≤ 30)
      (h : granted reply = true → Follows (.member enrollment issued) more) :
      Follows (.member enrollment issued)
        ((⟨env,.verify ⟨u,.totp (PqTotp.generate crates.shake256 enrollment.totpSeed clientTime)⟩⟩,reply) :: more)
  | issue {env enrollment issued reply more}
      (h : ∀ resp, reply = .ok (.challengeIssued resp) → Follows (.member enrollment (some resp)) more) :
      Follows (.member enrollment issued) ((⟨env,.issueChallenge u⟩,reply) :: more)
  | answer {env enrollment resp clientTime coins r reply more}
      (hr : respondToChallenge crates.dilithium3 keypair (resp.challenge crates) clientTime coins = .ok r)
      (hage : env.ts.toNat ≤ resp.issuedAt.toNat + 300) (hskew : absDiff clientTime env.ts ≤ 60)
      (h : granted reply = true → Follows (.member enrollment none) more) :
      Follows (.member enrollment (some resp)) ((⟨env,honestAnswer crates u r⟩,reply) :: more)

/-- The server is where the client takes it to be. -/
def Client.Known (s : ServerInner) : Client → Prop
  | .joining begun => s.users u = none ∧ ∀ resp ∈ begun, ∃ seed,
      s.pendingEnrollments u = some (Enrollment.new crates s.serverId seed) ∧
        resp = ⟨crates.hex.encode (Enrollment.new crates s.serverId seed).kyberPublicKey,s.serverId⟩
  | .member enrollment issued => (∃ record, s.users u = some record ∧ record.totpSeed = enrollment.totpSeed ∧
      record.dilithiumPublicKey = keypair.publicKey) ∧ ∀ resp ∈ issued, ∃ challenge,
        s.pendingChallenges u = some challenge ∧
          resp = ⟨crates.hex.encode challenge.nonce.val,challenge.issuedAt⟩

end

variable {crates : Crates} {u : String} {keypair : DilithiumKeypair} {s s' : ServerInner} {client : Client}

theorem conversation_own {c : Call} (h : c.userId = u) (s : ServerInner) (calls : List Call) :
    conversation crates u s (c :: calls) =
      (c,(step crates s c).1) :: conversation crates u (step crates s c).2 calls :=
  (Machine.exchanges_cons ..).trans (if_pos (beq_iff_eq.mpr h))

theorem conversation_other {c : Call} (h : c.userId ≠ u) (s : ServerInner) (calls : List Call) :
    conversation crates u s (c :: calls) = conversation crates u (step crates s c).2 calls :=
  (Machine.exchanges_cons ..).trans (if_neg (mt beq_iff_eq.mp h))

theorem Client.Known.frame (h : client.Known crates u keypair s) (hsession : session s' u = session s u)
    (hid : s'.serverId = s.serverId) : client.Known crates u keypair s' := by
  obtain ⟨husers,henroll,hchal,_⟩ := Session.mk.inj hsession
  cases client with
  | joining begun => rwa [Client.Known, husers, henroll, hid]
  | member enrollment issued => rwa [Client.Known, husers, hchal]

theorem challenge_issued (hx : crates.hex.RoundTrip) (challenge : Challenge) :
    ChallengeIssued.challenge crates ⟨crates.hex.encode challenge.nonce.val,challenge.issuedAt⟩ = challenge := by
  simp [ChallengeIssued.challenge, hx _]

theorem begin_known {begun : Option EnrollBeginResponse} (hknown : Client.Known crates u keypair s (.joining begun))
    (env : Env) :
    ∃ resp s', step crates s ⟨env,.enrollBegin u⟩ = (.ok (.enrollBegin resp),s') ∧
      Client.Known crates u keypair s' (.joining (some resp)) := by
  refine ⟨_,_,step_begin hknown.1,hknown.1,?_⟩
  rintro _ ⟨⟩
  exact ⟨env.kyberSeed,afterBegin_pendingEnrollments ..,rfl⟩

/-- The server stores the seed and the key of a client that answers its last begin. -/
theorem complete_known (hx : crates.hex.RoundTrip) (hk : crates.kyber768.Sizes) (hkc : crates.kyber768.Correct)
    (hpk : keypair.publicKey.length = Dilithium.publicKeySize) {resp : EnrollBeginResponse}
    {req : EnrollCompleteRequest} {enrollment : ClientEnrollment} {coins : Bytes}
    (hknown : Client.Known crates u keypair s (.joining (some resp)))
    (hreq : honestCompletion crates u resp keypair.publicKey coins = .ok (req,enrollment)) (env : Env) :
    ∃ s', step crates s ⟨env,.enrollComplete req⟩ = (.ok (.enrollComplete ⟨true,"Enrollment successful"⟩),s') ∧
      Client.Known crates u keypair s' (.member enrollment none) := by
  obtain ⟨seed,hpending,rfl⟩ := hknown.2 _ rfl
  have hid : s.serverId ≠ "" := by
    intro hempty
    have hcompletion := hreq
    simp [honestCompletion, Enrollment.clientEnroll, hempty] at hcompletion
  obtain ⟨rfl,-⟩ := Prod.mk.inj (Except.ok.inj ((honestCompletion_eq hx hk hid).symm.trans hreq))
  obtain ⟨-,hclient⟩ := honestCompletion_ok hx hreq
  rw [hx _, Option.getD_some] at hclient
  obtain ⟨hseed,hkey⟩ :=
    Enrollment.complete_clientEnroll hk hkc hclient (complete_honestRequest hx hk hpk seed)
  refine ⟨_,step_complete hx hk hpk hpending,⟨_,afterComplete_users ..,hseed,hkey⟩,?_⟩
  rintro _ ⟨⟩

theorem code_known {env : Env} {enrollment : ClientEnrollment} {issued : Option ChallengeIssued} {clientTime : UInt64}
    (hknown : Client.Known crates u keypair s (.member enrollment issued)) (hl : passes s env u = true)
    (hclock : absDiff clientTime env.ts ≤ 30) :
    ∃ s', step crates s
        ⟨env,.verify ⟨u,.totp (PqTotp.generate crates.shake256 enrollment.totpSeed clientTime)⟩⟩ =
          (.ok (.verify (totpResponse true)),s') ∧ Client.Known crates u keypair s' (.member enrollment issued) := by
  obtain ⟨⟨record,hu,hseed,hkey⟩,hissued⟩ := hknown
  have hv := PqTotp.verify_generate crates.shake256 enrollment.totpSeed clientTime env.ts hclock
  rw [← hseed] at hv ⊢
  exact ⟨_,Transition.step_eq (.totp hu hl hv),⟨record,hu,hseed,hkey⟩,hissued⟩

theorem issue_known {env : Env} {enrollment : ClientEnrollment} {issued : Option ChallengeIssued}
    (hknown : Client.Known crates u keypair s (.member enrollment issued)) (hl : passes s env u = true) :
    ∃ resp s', step crates s ⟨env,.issueChallenge u⟩ = (.ok (.challengeIssued resp),s') ∧
      Client.Known crates u keypair s' (.member enrollment (some resp)) := by
  obtain ⟨record,hu,hrecord⟩ := hknown.1
  refine ⟨_,_,step_issue hu hl,⟨record,hu,hrecord⟩,?_⟩
  rintro _ ⟨⟩
  exact ⟨⟨env.nonce,env.ts⟩,afterIssue_pendingChallenges ..,rfl⟩

/-- The nonce of the client's answer is the one the server waits for. -/
theorem answer_nonce (hx : crates.hex.RoundTrip) {challenge : Challenge} {clientTime : UInt64} {coins : Bytes}
    {r : ChallengeResponse} (hr : respondToChallenge crates.dilithium3 keypair
      (ChallengeIssued.challenge crates ⟨crates.hex.encode challenge.nonce.val,challenge.issuedAt⟩) clientTime coins =
        .ok r) : r.nonce = challenge.nonce := by
  rw [challenge_issued hx, respondToChallenge] at hr
  split at hr
  · cases hr
  · obtain rfl := Except.ok.inj hr
    rfl

theorem answer_known (hx : crates.hex.RoundTrip) (hd : crates.dilithium3.Encodings) (hdc : crates.dilithium3.Correct)
    {keySeed : Bytes} (hkeypair : keypair = Dilithium.generate crates.dilithium3 keySeed) {env : Env}
    {enrollment : ClientEnrollment} {resp : ChallengeIssued} {clientTime : UInt64} {coins : Bytes}
    {r : ChallengeResponse} (hknown : Client.Known crates u keypair s (.member enrollment (some resp)))
    (hskew : s.verifier.maxClockSkew = 60) (hl : passes s env u = true)
    (hunused : ∀ challenge, s.pendingChallenges u = some challenge → s.verifier.usedNonces challenge.nonce = none)
    (hr : respondToChallenge crates.dilithium3 keypair (resp.challenge crates) clientTime coins = .ok r)
    (hage : env.ts.toNat ≤ resp.issuedAt.toNat + 300) (hnear : absDiff clientTime env.ts ≤ 60) :
    ∃ s', step crates s ⟨env,honestAnswer crates u r⟩ = (.ok (.verify (challengeResponse true)),s') ∧
      Client.Known crates u keypair s' (.member enrollment none) := by
  subst hkeypair
  obtain ⟨⟨record,hu,hseed,hkey⟩,hissued⟩ := hknown
  obtain ⟨challenge,hp,rfl⟩ := hissued _ rfl
  have hnonce := answer_nonce hx hr
  rw [challenge_issued hx] at hr
  obtain ⟨-,-,hacceptable⟩ := ChallengeVerifier.acceptable_respondToChallenge hd hdc hr
    ((Challenge.isExpired_eq_false ..).mpr hage) hnear
  rw [← hkey, ← hskew] at hacceptable
  have hfree : (s.verifier.clearExpired env.ts).usedNonces r.nonce = none :=
    ChallengeVerifier.clearExpired_eq_none _ _ (hnonce ▸ hunused challenge hp)
  have hstep : PqAuthServer.step crates s ⟨env,honestAnswer crates u r⟩ = _ := step_answer hx hu hl hp r
  rw [ChallengeVerifier.verify_of_acceptable hacceptable hfree] at hstep
  refine ⟨_,hstep,⟨record,hu,hseed,hkey⟩,?_⟩
  rintro _ ⟨⟩

/-- A request of the client is granted, and the client knows where it leads. -/
theorem Follows.step (hx : crates.hex.RoundTrip) (hk : crates.kyber768.Sizes) (hkc : crates.kyber768.Correct)
    (hpk : crates.dilithium3.publicKey.Sized 1952) (hd : crates.dilithium3.Encodings)
    (hdc : crates.dilithium3.Correct) {keySeed : Bytes}
    (hkeypair : keypair = Dilithium.generate crates.dilithium3 keySeed) {c : Call} {more : List (Call × Reply)}
    (h : Follows crates u keypair client ((c,(PqAuthServer.step crates s c).1) :: more))
    (hknown : client.Known crates u keypair s) (hskew : s.verifier.maxClockSkew = 60)
    (hopen : c.request.limitedUser = some u → passes s c.env u = true)
    (hunused : ∀ challenge, s.pendingChallenges u = some challenge → s.verifier.usedNonces challenge.nonce = none) :
    granted (PqAuthServer.step crates s c).1 = true ∧ ∃ next, Follows crates u keypair next more ∧
      next.Known crates u keypair (PqAuthServer.step crates s c).2 := by
  cases h with
  | @begin env begun _ _ h =>
    obtain ⟨resp,s',hstep,hnext⟩ := begin_known hknown env
    rw [hstep] at h ⊢
    exact ⟨rfl,_,h resp rfl,hnext⟩
  | @complete env resp coins req enrollment _ _ hreq h =>
    have hlen : keypair.publicKey.length = Dilithium.publicKeySize := by
      rw [hkeypair]
      exact hpk.length_asBytes _
    obtain ⟨s',hstep,hnext⟩ := complete_known hx hk hkc hlen hknown hreq env
    rw [hstep] at h ⊢
    exact ⟨rfl,_,h rfl,hnext⟩
  | @code env enrollment issued clientTime _ _ hclock h =>
    obtain ⟨s',hstep,hnext⟩ := code_known hknown (hopen rfl) hclock
    rw [hstep] at h ⊢
    exact ⟨rfl,_,h rfl,hnext⟩
  | @issue env enrollment issued _ _ h =>
    obtain ⟨resp,s',hstep,hnext⟩ := issue_known hknown (hopen rfl)
    rw [hstep] at h ⊢
    exact ⟨rfl,_,h resp rfl,hnext⟩
  | @answer env enrollment resp clientTime coins r _ _ hr hage hnear h =>
    obtain ⟨s',hstep,hnext⟩ := answer_known hx hd hdc hkeypair hknown hskew (hopen rfl) hunused hr hage hnear
    rw [hstep] at h ⊢
    exact ⟨rfl,_,h rfl,hnext⟩

/-- The nonces of the client's challenges: the one it was sent last, and those to come. -/
def drawn (u : String) (calls : List Call) : List Nonce :=
  (calls.filter (fun c => c.request = .issueChallenge u)).map (fun c => c.env.nonce)

def reserved (u : String) (s : ServerInner) (calls : List Call) : List Nonce :=
  (s.pendingChallenges u).toList.map Challenge.nonce ++ drawn u calls

/-- Nobody used them yet, and each is used for one challenge. -/
structure Fresh (u : String) (s : ServerInner) (calls : List Call) : Prop where
  distinct : (reserved u s calls).Nodup
  unused : ∀ n ∈ reserved u s calls, s.verifier.usedNonces n = none

theorem drawn_cons_sublist (c : Call) (calls : List Call) : (drawn u calls).Sublist (drawn u (c :: calls)) :=
  ((List.sublist_cons_self c calls).filter _).map _

theorem mem_reserved {calls : List Call} {challenge : Challenge} (h : s.pendingChallenges u = some challenge) :
    challenge.nonce ∈ reserved u s calls := by
  simp [reserved, h]

/-- A call leaves fewer nonces to reserve. -/
theorem reserved_sublist (c : Call) (calls : List Call) :
    (reserved u (step crates s c).2 calls).Sublist (reserved u s (c :: calls)) := by
  have hrest := @drawn_cons_sublist u c calls
  have hsame (h : (step crates s c).2.pendingChallenges u = s.pendingChallenges u) :
      (reserved u (step crates s c).2 calls).Sublist (reserved u s (c :: calls)) := by
    rw [reserved, h]
    exact hrest.append_left _
  rcases (transition crates s c).challenge_cases with
    ⟨v,hreq,_,hs⟩ | ⟨v,nonce,ct,sig,challenge,record,hreq,hcons,hs⟩ | ⟨hp,_⟩
  · by_cases hv : v = u
    · subst hv
      have hdrawn : drawn v (c :: calls) = c.env.nonce :: drawn v calls := by simp [drawn, hreq]
      rw [reserved, reserved, hs, afterIssue_pendingChallenges, hdrawn]
      exact List.sublist_append_right ..
    · exact hsame (by rw [hs]; exact PartialMap.insert_of_ne _ (Ne.symm hv) _)
  · by_cases hv : v = u
    · subst hv
      rw [reserved, hs, afterAnswer_pendingChallenges]
      exact hrest.trans (List.sublist_append_right ..)
    · exact hsame (by rw [hs]; exact PartialMap.remove_of_ne _ (Ne.symm hv))
  · exact hsame (by rw [hp])

/-- Its own answers use up the nonce they answer, and others do not get to use one. -/
theorem Fresh.step {c : Call} {calls : List Call} (h : Fresh u s (c :: calls))
    (hown : ∀ nonce ct sig challenge, c.request = .verify ⟨u,.challenge nonce ct sig⟩ →
      s.pendingChallenges u = some challenge → (decodeResponse crates nonce ct sig).nonce = challenge.nonce)
    (hothers : c.userId ≠ u → ∀ n ∈ reserved u s (c :: calls),
      ¬ Presents crates c.userId n (Machine.event (PqAuthServer.step crates) s c)) :
    Fresh u (PqAuthServer.step crates s c).2 calls := by
  have hsub := @reserved_sublist crates u s c calls
  refine ⟨h.distinct.sublist hsub,?_⟩
  intro n hn
  have hold := h.unused n (hsub.subset hn)
  rcases (transition crates s c).challenge_cases with
    ⟨v,_,_,hs⟩ | ⟨v,nonce,ct,sig,challenge,record,hreq,hcons,hs⟩ | ⟨_,hv⟩
  · rw [hs]
    exact hold
  · have hvuser : c.userId = v := by
      rw [Call.userId, hreq]
      rfl
    rw [hs] at hn ⊢
    refine ChallengeVerifier.verify_unused ?_ hold
    intro heq hacceptable
    by_cases hvu : v = u
    · subst hvu
      rw [reserved, afterAnswer_pendingChallenges] at hn
      have hdistinct := h.distinct
      rw [reserved, hcons.pending] at hdistinct
      rw [heq, hown nonce ct sig challenge hreq hcons.pending] at hn
      exact (List.nodup_cons.mp hdistinct).1 ((drawn_cons_sublist c calls).subset hn)
    · exact hothers (hvuser.trans_ne hvu) n (hsub.subset (hs ▸ hn)) (by
        rw [hvuser]
        exact ⟨nonce,ct,sig,challenge,record,hreq,hcons,heq.symm,hacceptable⟩)
  · rw [hv]
    exact hold

theorem Follows.own_nonce (hx : crates.hex.RoundTrip) {c : Call} {reply : Reply} {more : List (Call × Reply)}
    (h : Follows crates u keypair client ((c,reply) :: more)) (hknown : client.Known crates u keypair s)
    {nonce sig : String} {ct : UInt64} {challenge : Challenge}
    (hreq : c.request = .verify ⟨u,.challenge nonce ct sig⟩) (hp : s.pendingChallenges u = some challenge) :
    (decodeResponse crates nonce ct sig).nonce = challenge.nonce := by
  cases h with
  | @answer env enrollment resp clientTime coins r _ _ hr _ _ _ =>
    obtain ⟨challenge',hp',rfl⟩ := hknown.2 _ rfl
    obtain rfl := Option.some.inj (hp'.symm.trans hp)
    cases hreq
    rw [decodeResponse_encode hx]
    exact answer_nonce hx hr
  | begin | complete | code | issue => cases hreq

/-- From wherever the client stands, all that it still asks for is granted. -/
theorem follows_granted (hx : crates.hex.RoundTrip) (hk : crates.kyber768.Sizes) (hkc : crates.kyber768.Correct)
    (hpk : crates.dilithium3.publicKey.Sized 1952) (hd : crates.dilithium3.Encodings)
    (hdc : crates.dilithium3.Correct) {keySeed : Bytes}
    (hkeypair : keypair = Dilithium.generate crates.dilithium3 keySeed) {calls : List Call} {N : Set Nonce}
    (h : Follows crates u keypair client (conversation crates u s calls))
    (hknown : client.Known crates u keypair s) (hskew : s.verifier.maxClockSkew = 60) (hfresh : Fresh u s calls)
    (hN : ∀ n ∈ reserved u s calls, n ∈ N)
    (hopen : ∀ e ∈ Machine.history (step crates) s calls, e.input.request.limitedUser = some u →
      passes e.before e.input.env u = true)
    (hothers : ∀ e ∈ Machine.history (step crates) s calls, e.input.userId ≠ u → ∀ n ∈ N,
      ¬ Presents crates e.input.userId n e) :
    ∀ x ∈ conversation crates u s calls, granted x.2 = true := by
  induction calls generalizing s client with
  | nil =>
    intro x hmem
    cases hmem
  | cons c calls ih =>
    rw [Machine.history_cons] at hopen hothers
    have ht := transition crates s c
    have hrest := @reserved_sublist crates u s c calls
    have hskew' := ht.maxClockSkew_eq.trans hskew
    have hN' : ∀ n ∈ reserved u (step crates s c).2 calls, n ∈ N := fun n hn => hN n (hrest.subset hn)
    have hothers' : c.userId ≠ u → ∀ n ∈ reserved u s (c :: calls),
        ¬ Presents crates c.userId n (Machine.event (step crates) s c) :=
      fun hne n hn => hothers _ List.mem_cons_self hne n (hN n hn)
    have hopenRest := fun e he => hopen e (List.mem_cons_of_mem _ he)
    have hothersRest := fun e he => hothers e (List.mem_cons_of_mem _ he)
    by_cases hu : c.userId = u
    · rw [conversation_own hu] at h ⊢
      have hunused := fun challenge hp => hfresh.unused _ (@mem_reserved u s (c :: calls) challenge hp)
      obtain ⟨hgranted,next,hnext,hknown'⟩ := h.step hx hk hkc hpk hd hdc hkeypair hknown hskew
        (hopen _ List.mem_cons_self) hunused
      have hfresh' := hfresh.step (fun _ _ _ _ hreq hp => h.own_nonce hx hknown hreq hp) hothers'
      intro x hmem
      rcases List.mem_cons.mp hmem with rfl | hmem
      · exact hgranted
      · exact ih hnext hknown' hskew' hfresh' hN' hopenRest hothersRest x hmem
    · rw [conversation_other hu] at h ⊢
      have hfresh' : Fresh u (step crates s c).2 calls := by
        apply hfresh.step _ hothers'
        intro nonce ct sig challenge hreq
        rw [Call.userId, hreq] at hu
        exact absurd rfl hu
      exact ih h (hknown.frame (ht.frame (Ne.symm hu)) ht.serverId_eq) hskew' hfresh' hN' hopenRest hothersRest

/-- A limited call for `u` in the 300 seconds from `a`. -/
def limitedFrom (u : String) (a : ℕ) (c : Call) : Bool :=
  c.request.limitedUser == some u && a ≤ c.env.limitNow.toNat && c.env.limitNow.toNat ≤ a + 300

/-- At most five limited calls for `u` in any 300 seconds. -/
def Paced (u : String) (calls : List Call) : Prop := ∀ a, calls.countP (limitedFrom u a) ≤ 5

variable {serverId : String} {past calls : List Call}

/-- Nothing counts against a user who never enrolled. -/
theorem passesBetween_unknown (hu : (final crates serverId past).users u = none) (a b : ℕ) :
    (history crates serverId past).countP (passesBetween u a b) = 0 := by
  rw [List.countP_eq_zero]
  intro e he hpassed
  obtain ⟨k,hk⟩ := List.mem_iff_getElem?.mp he
  simp only [passesBetween, Bool.and_eq_true] at hpassed
  obtain ⟨-,⟨record,huser⟩,-⟩ := (pastLimiter_iff ..).mp hpassed.1.1
  have hstored := users_final hk ((transition_at hk).users_eq (storeInvariant_at hk) huser)
  rw [hu] at hstored
  cases hstored

/-- The limiter stops no call of a user who keeps the pace. -/
theorem passes_of_paced (hchron : Chronological (past ++ calls)) (hu : (final crates serverId past).users u = none)
    (hpace : Paced u calls) {e : Event} (he : e ∈ Machine.history (step crates) (final crates serverId past) calls)
    (hlimited : e.input.request.limitedUser = some u) : passes e.before e.input.env u = true := by
  obtain ⟨j,hj⟩ := List.mem_iff_getElem?.mp he
  have hsplit : history crates serverId (past ++ calls) = history crates serverId past ++
      Machine.history (step crates) (final crates serverId past) calls := Machine.history_append ..
  have hlength : (history crates serverId past).length = past.length := Machine.history_length ..
  have hk : (history crates serverId (past ++ calls))[past.length + j]? = some e := by
    rw [hsplit, List.getElem?_append_right (by omega), hlength, Nat.add_sub_cancel_left]
    exact hj
  by_contra hl
  have hfive := five_passed hchron hk (Bool.eq_false_iff.mpr hl)
  rw [hsplit, ← hlength, List.take_length_add_append, List.countP_append, passesBetween_unknown hu, Nat.zero_add,
    Machine.history_take] at hfive
  generalize hstart : e.input.env.limitNow.toNat - 300 = a at hfive
  -- the calls that passed are earlier calls of the same 300 seconds
  have hearlier : (Machine.history (step crates) (final crates serverId past) (calls.take j)).countP
      (passesBetween u a e.input.env.limitNow.toNat) ≤ (calls.take j).countP (limitedFrom u a) := by
    nth_rewrite 2 [← Machine.history_inputs (step crates) (final crates serverId past) (calls.take j)]
    rw [List.countP_map]
    apply List.countP_mono_left
    intro f _ hf
    simp only [passesBetween, Bool.and_eq_true, decide_eq_true_eq] at hf
    simp only [Function.comp_apply, limitedFrom, Bool.and_eq_true, decide_eq_true_eq, beq_iff_eq]
    exact ⟨⟨((pastLimiter_iff ..).mp hf.1.1).1,hf.1.2⟩,by omega⟩
  have hnow : limitedFrom u a e.input = true := by
    simp only [limitedFrom, Bool.and_eq_true, decide_eq_true_eq, beq_iff_eq]
    exact ⟨⟨hlimited,by omega⟩,by omega⟩
  have hcount : (calls.take (j + 1)).countP (limitedFrom u a) = (calls.take j).countP (limitedFrom u a) + 1 := by
    rw [List.take_add_one, Machine.input_at hj, Option.toList_some, List.countP_append, List.countP_singleton,
      if_pos hnow]
  have hall := (List.take_sublist (j + 1) calls).countP_le (p := limitedFrom u a)
  have := hpace a
  omega

/-- Whatever happened before, a client that enrolls and then keeps to the protocol
and the pace gets all it asks for, however long it goes on and whatever the others
do, unless one of them gets to present a nonce drawn for it. -/
theorem client_served (hx : crates.hex.RoundTrip) (hk : crates.kyber768.Sizes) (hkc : crates.kyber768.Correct)
    (hpk : crates.dilithium3.publicKey.Sized 1952) (hd : crates.dilithium3.Encodings)
    (hdc : crates.dilithium3.Correct) {keySeed : Bytes}
    (hchron : Chronological (past ++ calls)) (hu : (final crates serverId past).users u = none)
    (hfollows : Follows crates u (Dilithium.generate crates.dilithium3 keySeed) (.joining none)
      (conversation crates u (final crates serverId past) calls))
    (hpace : Paced u calls) (hdistinct : (drawn u calls).Nodup)
    (hunused : ∀ n ∈ drawn u calls, (final crates serverId past).verifier.usedNonces n = none)
    (hothers : ∀ e ∈ Machine.history (step crates) (final crates serverId past) calls, e.input.userId ≠ u →
      ∀ n ∈ drawn u calls, ¬ Presents crates e.input.userId n e) :
    ∀ x ∈ conversation crates u (final crates serverId past) calls, granted x.2 = true := by
  have hpending : (final crates serverId past).pendingChallenges u = none := by
    by_contra hne
    obtain ⟨challenge,hc⟩ := Option.ne_none_iff_exists'.mp hne
    obtain ⟨record,hrecord⟩ := (storeInvariant_final crates serverId past).challenged u challenge hc
    rw [hu] at hrecord
    cases hrecord
  have hreserved : reserved u (final crates serverId past) calls = drawn u calls := by
    rw [reserved, hpending]
    rfl
  refine follows_granted hx hk hkc hpk hd hdc rfl hfollows ⟨hu,?_⟩ (maxClockSkew_final ..) ?_ ?_
    (fun e he => passes_of_paced hchron hu hpace he) hothers
  · rintro _ ⟨⟩
  · exact ⟨hreserved ▸ hdistinct,hreserved ▸ hunused⟩
  · exact fun n hn => hreserved ▸ hn

section
open Transparent

/-- Someone began an enrollment in alice's name and left. -/
def abandoned : List Call := [beginCall 900 [2] "alice"]

/-- Alice enrolls, with bob in between, and answers a challenge at its last second. -/
def aliceBesideBob : List Call :=
  [beginCall 1000 [1] "alice",beginCall 1000 [1] "bob",completeCall 1001 "alice",
    issueCall (sampleNonce 1) "alice" 2000,answerCall ⟨sampleNonce 1,2000⟩ (sampleNonce 1) "alice" 2300]

private theorem begin_reply {s : ServerInner} {c : Call} {v : String} {resp : EnrollBeginResponse}
    (hid : s.serverId = "example.org") (hreq : c.request = .enrollBegin v) (hseed : c.env.kyberSeed = [1])
    (h : (step Transparent.crates s c).1 = .ok (.enrollBegin resp)) : resp = sampleBegin := by
  have ht := transition Transparent.crates s c
  rw [hreq, h] at ht
  obtain ⟨_,_,hresp⟩ := ht.begun_inv rfl
  rw [hid, hseed] at hresp
  exact Response.enrollBegin.inj (Except.ok.inj hresp)

private theorem issue_reply {s : ServerInner} {c : Call} {v : String} {resp : ChallengeIssued}
    (hreq : c.request = .issueChallenge v) (h : (step Transparent.crates s c).1 = .ok (.challengeIssued resp)) :
    resp = ⟨hex.encode c.env.nonce.val,c.env.ts⟩ := by
  have ht := transition Transparent.crates s c
  rw [hreq, h] at ht
  generalize (step Transparent.crates s c).2 = s' at ht
  cases ht
  rfl

private theorem alice_follows (s : ServerInner) (hid : s.serverId = "example.org") :
    Follows Transparent.crates "alice" Transparent.keypair (.joining none)
      (conversation Transparent.crates "alice" s aliceBesideBob) := by
  have hbegin : (beginCall 1000 [1] "alice").userId = "alice" := rfl
  have hbob : (beginCall 1000 [1] "bob").userId ≠ "alice" := by decide
  have hcomplete : (completeCall 1001 "alice").userId = "alice" := rfl
  have hissue : (issueCall (sampleNonce 1) "alice" 2000).userId = "alice" := rfl
  have hanswer : (answerCall ⟨sampleNonce 1,2000⟩ (sampleNonce 1) "alice" 2300).userId = "alice" := rfl
  rw [aliceBesideBob, conversation_own hbegin, conversation_other hbob, conversation_own hcomplete,
    conversation_own hissue, conversation_own hanswer]
  refine .begin fun resp hresp => ?_
  obtain rfl := begin_reply hid rfl rfl hresp
  refine .complete (sampleCompletion "alice") fun _ => .issue fun resp hresp => ?_
  obtain rfl := issue_reply rfl hresp
  have hread := @challenge_issued Transparent.crates hex_roundTrip ⟨sampleNonce 1,2000⟩
  have hr := respondToChallenge_eq ⟨sampleNonce 1,2000⟩ 2300
  rw [← hread] at hr
  exact .answer hr (by decide) (by decide) fun _ => .rest

theorem client_served_beside :
    (conversation Transparent.crates "alice" (final Transparent.crates "example.org" abandoned) aliceBesideBob).map
      (fun x => granted x.2) = List.replicate 4 true := by
  have hid := serverId_final Transparent.crates "example.org" abandoned
  refine List.eq_replicate_iff.mpr ⟨rfl,List.forall_mem_map.mpr ?_⟩
  refine client_served hex_roundTrip kyber768_sizes kyber768_correct (wire_sized 1952) dilithium3_encodings
    dilithium3_correct (by decide) rfl (alice_follows _ hid) ?_ (by decide) (fun n _ => rfl) ?_
  · intro a
    have hlimited : aliceBesideBob.countP (limitedFrom "alice" a) ≤
        aliceBesideBob.countP (fun c => c.request.limitedUser == some "alice") :=
      List.countP_mono_left fun c _ hc => (Bool.and_eq_true_iff.mp (Bool.and_eq_true_iff.mp hc).1).1
    exact hlimited.trans (by decide)
  · rintro e he hne n - ⟨nonce,ct,sig,_,_,hreq,_⟩
    have hmem := Machine.input_mem he
    simp only [aliceBesideBob, List.mem_cons, List.not_mem_nil, or_false] at hmem
    rcases hmem with h | h | h | h | h <;> rw [h] at hreq hne
    case inr.inl => cases hreq
    all_goals exact hne rfl

end

end PqAuthServer
end PqAuth
