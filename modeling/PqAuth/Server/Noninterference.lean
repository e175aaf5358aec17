import PqAuth.Server.Agreement
import PqAuth.Server.ChallengeLogin
import PqAuth.Server.RateLimit
import PqAuth.Verifier.Coupling

/-! Noninterference between two users. All users share the used nonces, so the
runs with and without one of them are compared outside the nonces it presented. -/
namespace PqAuth.PqAuthServer
open ChallengeVerifier (Acceptable AgreeOutside)
variable {crates : Crates} {serverId : String} {s s' t : ServerInner} {env : Env} {request : Request} {reply : Reply}
  {v w : String} {A : Set Nonce} {now : UInt64}

/-- A verification for `u` that only its nonce `n` can still stop. -/
def Presents (crates : Crates) (u : String) (n : Nonce) (e : Event) : Prop :=
  ∃ nonce ct sig challenge record, e.input.request = .verify ⟨u,.challenge nonce ct sig⟩ ∧
    Consumes crates e.before e.input.env u challenge record ∧ (decodeResponse crates nonce ct sig).nonce = n ∧
    Acceptable crates.dilithium3 e.before.verifier.maxClockSkew challenge (decodeResponse crates nonce ct sig)
      record.dilithiumPublicKey e.input.env.ts

/-- The settings that no request changes. -/
structure SameConfig (s t : ServerInner) : Prop where
  serverId : s.serverId = t.serverId
  maxAttempts : s.maxAttempts = t.maxAttempts
  rateWindow : s.rateWindow = t.rateWindow

theorem passes_eq (hc : SameConfig s t) (hs : session s w = session t w) (env : Env) :
    passes s env w = passes t env w := by
  rw [passes, passes, hc.maxAttempts, hc.rateWindow, (Session.mk.inj hs).2.2.2]

theorem session_counted (hc : SameConfig s t) (hs : session s w = session t w) (env : Env) :
    session (counted s env w) w = session (counted t env w) w := by
  obtain ⟨husers,henroll,hchal,hlimit⟩ := Session.mk.inj hs
  simp [session, counted, husers, henroll, hchal, hlimit, hc.maxAttempts, hc.rateWindow]

/-- A request acts on its user's session and the settings alone, but for the
verifier's verdict. -/
theorem Transition.local (ht : Transition crates s env request reply s') (hc : SameConfig s t)
    (hs : session s request.userId = session t request.userId) :
    ∃ reply' t', Transition crates t env request reply' t' ∧
      session s' request.userId = session t' request.userId ∧
      ((reply = reply' ∧ s'.verifier = s.verifier ∧ t'.verifier = t.verifier) ∨
        ∃ nonce ct sig challenge record, request = .verify ⟨request.userId,.challenge nonce ct sig⟩ ∧
          Consumes crates s env request.userId challenge record ∧
          (let verify := fun v => ChallengeVerifier.verify crates.dilithium3 v challenge
            (decodeResponse crates nonce ct sig) record.dilithiumPublicKey env.ts
          s'.verifier = (verify s.verifier).2 ∧ t'.verifier = (verify t.verifier).2 ∧
            reply = .ok (.verify (challengeResponse (verify s.verifier).1.isOk)) ∧
            reply' = .ok (.verify (challengeResponse (verify t.verifier).1.isOk)))) := by
  have hl := passes_eq hc hs env
  obtain ⟨husers,henroll,hchal,hlimit⟩ := Session.mk.inj hs
  cases ht
  case alreadyEnrolled u record hu =>
    exact ⟨_,_,.alreadyEnrolled (husers ▸ hu),hs,Or.inl ⟨rfl,rfl,rfl⟩⟩
  case begun u hu =>
    refine ⟨_,_,.begun (husers ▸ hu),?_,Or.inl ⟨by rw [hc.serverId],rfl,rfl⟩⟩
    simp_all [session, Request.userId, afterBegin, logged, hc.serverId]
  case noPendingEnrollment req hp =>
    exact ⟨_,_,.noPendingEnrollment (henroll ▸ hp),hs,Or.inl ⟨rfl,rfl,rfl⟩⟩
  case enrollmentFailed req enrollment e hp he =>
    refine ⟨_,_,.enrollmentFailed (henroll ▸ hp) he,?_,Or.inl ⟨rfl,rfl,rfl⟩⟩
    simp_all [session, Request.userId]
  case enrolled req enrollment record hp he =>
    refine ⟨_,_,.enrolled (henroll ▸ hp) he,?_,Or.inl ⟨rfl,rfl,rfl⟩⟩
    simp_all [session, Request.userId, afterComplete, logged]
  case issueUnknown u hu =>
    exact ⟨_,_,.issueUnknown (husers ▸ hu),hs,Or.inl ⟨rfl,rfl,rfl⟩⟩
  case issueLimited u record hu hp =>
    exact ⟨_,_,.issueLimited (husers ▸ hu) (hl ▸ hp),session_counted hc hs env,Or.inl ⟨rfl,rfl,rfl⟩⟩
  case issued u record hu hp =>
    refine ⟨_,_,.issued (husers ▸ hu) (hl ▸ hp),?_,Or.inl ⟨rfl,rfl,rfl⟩⟩
    have hcounted := session_counted hc hs env
    simp_all [session, Request.userId, afterIssue, logged, counted]
  case verifyUnknown u method hu =>
    exact ⟨_,_,.verifyUnknown (husers ▸ hu),hs,Or.inl ⟨rfl,rfl,rfl⟩⟩
  case verifyLimited u method record hu hp =>
    exact ⟨_,_,.verifyLimited (husers ▸ hu) (hl ▸ hp),session_counted hc hs env,Or.inl ⟨rfl,rfl,rfl⟩⟩
  case totp u code record valid hu hp hv =>
    exact ⟨_,_,.totp (husers ▸ hu) (hl ▸ hp) hv,session_counted hc hs env,Or.inl ⟨rfl,rfl,rfl⟩⟩
  case noPendingChallenge u nonce ct sig record hu hp hn =>
    exact ⟨_,_,.noPendingChallenge (husers ▸ hu) (hl ▸ hp) (hchal ▸ hn),session_counted hc hs env,
      Or.inl ⟨rfl,rfl,rfl⟩⟩
  case answered u nonce ct sig record challenge outcome hu hp hn ho =>
    refine ⟨_,_,.answered (husers ▸ hu) (hl ▸ hp) (hchal ▸ hn) rfl,?_,
      Or.inr ⟨nonce,ct,sig,challenge,record,rfl,⟨hu,hp,hn⟩,?_⟩⟩
    · have hcounted := session_counted hc hs env
      simp_all [session, Request.userId, afterAnswer, logged, counted]
    · subst ho
      exact ⟨rfl,rfl,rfl,rfl⟩

/-- A run with and a run without `v`, after `v` presented the nonces of `A`. -/
structure Coupled (A : Set Nonce) (now : UInt64) (v : String) (s t : ServerInner) : Prop where
  config : SameConfig s t
  sessions : ∀ w, w ≠ v → session s w = session t w
  verifiers : AgreeOutside A now s.verifier t.verifier

theorem Coupled.mono {B : Set Nonce} (h : Coupled A now v s t) (hsub : A ⊆ B) : Coupled B now v s t :=
  ⟨h.config,h.sessions,h.verifiers.mono hsub (UInt64.le_refl now)⟩

/-- A request of `v` stays on its side. -/
theorem Coupled.hide (h : Coupled A now v s t) {c : Call} (hv : c.userId = v) (hle : now ≤ c.env.ts)
    (hin : ∀ n, Presents crates v n (Machine.event (step crates) s c) → n ∈ A) :
    Coupled A c.env.ts v (step crates s c).2 t := by
  have ht := transition crates s c
  obtain ⟨hmax,hwidth⟩ := ht.limits_eq
  refine ⟨⟨ht.serverId_eq.trans h.config.serverId,hmax.trans h.config.maxAttempts,
    hwidth.trans h.config.rateWindow⟩,?_,?_⟩
  · intro w hw
    rw [ht.frame (fun heq => hw (heq.trans hv))]
    exact h.sessions w hw
  · rcases ht.challenge_cases with ⟨u,_,_,hs⟩ | ⟨u,nonce,ct,sig,challenge,record,hreq,hcons,hs⟩ | ⟨_,hsame⟩
    · rw [hs]
      exact h.verifiers.mono subset_rfl hle
    · have huv : u = v := by
        rw [← hv, Call.userId, hreq]
        rfl
      subst huv
      rw [hs]
      exact h.verifiers.left hle (fun ha => hin _ ⟨nonce,ct,sig,challenge,record,hreq,hcons,rfl,ha⟩)
    · rw [hsame]
      exact h.verifiers.mono subset_rfl hle

private theorem isOk_iff {ε : Type} (a : Except ε Unit) : a.isOk = true ↔ a = .ok () := by
  rcases a with _ | ⟨⟩ <;> simp [Except.isOk, Except.toBool]

/-- A request of anyone else keeps the runs coupled. Its replies agree unless it
presents a nonce of `A`. -/
theorem Coupled.keep (h : Coupled A now v s t) {c : Call} (hv : c.userId ≠ v) (hle : now ≤ c.env.ts) :
    Coupled A c.env.ts v (step crates s c).2 (step crates t c).2 ∧
      ((∀ n, Presents crates c.userId n (Machine.event (step crates) s c) → n ∉ A) →
        (step crates s c).1 = (step crates t c).1) := by
  have ht := transition crates s c
  obtain ⟨reply',t',ht',hsession,hcases⟩ := ht.local h.config (h.sessions _ hv)
  have hstep : step crates t c = (reply',t') := ht'.step_eq
  rw [hstep]
  obtain ⟨hmax,hwidth⟩ := ht.limits_eq
  obtain ⟨hmax',hwidth'⟩ := ht'.limits_eq
  have hconfig : SameConfig (step crates s c).2 t' :=
    ⟨by rw [ht.serverId_eq, ht'.serverId_eq, h.config.serverId],by rw [hmax, hmax', h.config.maxAttempts],
      by rw [hwidth, hwidth', h.config.rateWindow]⟩
  have hsessions : ∀ w, w ≠ v → session (step crates s c).2 w = session t' w := by
    intro w hw
    by_cases hwc : w = c.userId
    · exact hwc ▸ hsession
    · rw [ht.frame hwc, ht'.frame hwc]
      exact h.sessions w hw
  rcases hcases with ⟨hreply,hsame,hsame'⟩ | ⟨nonce,ct,sig,challenge,record,hreq,hcons,hverifier,hverifier',hr,hr'⟩
  · refine ⟨⟨hconfig,hsessions,?_⟩,fun _ => hreply⟩
    rw [hsame, hsame']
    exact h.verifiers.mono subset_rfl hle
  · refine ⟨⟨hconfig,hsessions,?_⟩,?_⟩
    · rw [hverifier, hverifier']
      exact h.verifiers.both hle
    · intro hout
      have hiff := h.verifiers.accepts_iff hle
        (fun ha => hout _ ⟨nonce,ct,sig,challenge,record,hreq,hcons,rfl,ha⟩)
      rw [hr]
      simp only
      rw [hr', Bool.eq_iff_iff.mpr ((isOk_iff _).trans (hiff.trans (isOk_iff _).symm))]

/-- No nonce that `v` presents is presented by `u` later on. -/
def Separated (crates : Crates) (v u : String) (past : List Event) : Prop :=
  past.Pairwise fun e f => ∀ n, Presents crates v n e → ¬ Presents crates u n f

theorem issuedNonces_ne {past : List Event} (hdistinct : (issuedNonces past).Nodup) {i j : ℕ} (hij : i ≠ j)
    {e f : Event} (he : past[i]? = some e) (hf : past[j]? = some f) (hde : drawsNonce e = true)
    (hdf : drawsNonce f = true) : e.input.env.nonce ≠ f.input.env.nonce := by
  rw [issuedNonces, List.Nodup, List.pairwise_map, List.pairwise_filter, List.pairwise_iff_getElem] at hdistinct
  obtain ⟨hi,rfl⟩ := List.getElem?_eq_some_iff.mp he
  obtain ⟨hj,rfl⟩ := List.getElem?_eq_some_iff.mp hf
  rcases Nat.lt_or_gt_of_ne hij with hlt | hlt
  · exact hdistinct i j hi hj hlt hde hdf
  · exact (hdistinct j i hj hi hlt hdf hde).symm

theorem IssuedAs.drawsNonce {u : String} {challenge : Challenge} {e : Event} (h : IssuedAs crates u challenge e) :
    drawsNonce e = true := by
  simp only [PqAuthServer.drawsNonce, h.1, h.2.2]
  rfl

/-- The events of two users. -/
def between (u v : String) (past : List Event) : List Event :=
  past.filter (fun e => e.input.userId == u || e.input.userId == v)

/-- Two users who answer with the nonces of their own challenges are separated. -/
theorem separated_of_ownAnswers {calls : List Call} {u v : String}
    (hdistinct : (issuedNonces (history crates serverId calls)).Nodup)
    (hown : OwnAnswers crates (between u v (history crates serverId calls))) (huv : u ≠ v) :
    Separated crates v u (history crates serverId calls) := by
  have hissuer {i : ℕ} {e : Event} (he : (history crates serverId calls)[i]? = some e) {w : String}
      (hw : w = u ∨ w = v) {n : Nonce} (hp : Presents crates w n e) :
      ∃ (i' : ℕ) (e' : Event), (history crates serverId calls)[i']? = some e' ∧
        e'.input.request = .issueChallenge w ∧ PqAuthServer.drawsNonce e' = true ∧ e'.input.env.nonce = n := by
    obtain ⟨nonce,ct,sig,challenge,record,hreq,hcons,hn,_⟩ := hp
    obtain ⟨i',e',_,he',hissued,_⟩ := pending_origin he hcons.pending
    have hbetween : e ∈ between u v (history crates serverId calls) :=
      List.mem_filter.mpr ⟨List.mem_of_getElem? he,by simpa [Call.userId, hreq, Request.userId] using hw⟩
    have hdecoded := hown e hbetween w nonce ct sig challenge record hreq hcons
    refine ⟨i',e',he',hissued.1,hissued.drawsNonce,?_⟩
    rw [← hn, show e'.input.env.nonce = challenge.nonce by rw [hissued.2.1]]
    simp [decodeResponse, hdecoded]
  rw [Separated, List.pairwise_iff_getElem]
  intro i j hi hj _ n hpv hpu
  obtain ⟨k,e,he,hreq,hde,hne⟩ := hissuer (List.getElem?_eq_getElem hi) (.inr rfl) hpv
  obtain ⟨m,f,hf,hreq',hdf,hnf⟩ := hissuer (List.getElem?_eq_getElem hj) (.inl rfl) hpu
  have hkm : k ≠ m := by
    rintro rfl
    obtain rfl : e = f := Option.some.inj (he.symm.trans hf)
    exact huv (Request.issueChallenge.inj (hreq'.symm.trans hreq))
  exact issuedNonces_ne hdistinct hkm he hf hde hdf (hne.trans hnf.symm)

private def Related (crates : Crates) (v u : String) (calls : List Call) (s t : ServerInner) : Prop :=
  ∃ A now, Coupled A now v s t ∧ (now :: calls.map (fun c => c.env.ts)).Pairwise (· ≤ ·) ∧
    Separated crates v u (Machine.history (step crates) s calls) ∧
    ∀ e ∈ Machine.history (step crates) s calls, ∀ n, Presents crates u n e → n ∉ A

/-- The replies to `u` do not depend on the requests of `v` when no nonce that
`v` presents is presented by `u` later on, as when both answer with the nonces
of their own challenges. -/
theorem noninterference (crates : Crates) (serverId : String) {calls : List Call} (hchron : Chronological calls)
    {u v : String} (huv : u ≠ v)
    (hnonces : Separated crates v u (history crates serverId calls) ∨
      ((issuedNonces (history crates serverId calls)).Nodup ∧
        OwnAnswers crates (between u v (history crates serverId calls)))) :
    Machine.exchanges (fun c => c.userId == u) (history crates serverId calls) =
      Machine.exchanges (fun c => c.userId == u)
        (history crates serverId (calls.filter (fun c => !(c.userId == v)))) := by
  have hsep : Separated crates v u (history crates serverId calls) :=
    hnonces.elim id (fun h => separated_of_ownAnswers h.1 h.2 huv)
  have hstart : Related crates v u calls (new serverId) (new serverId) := by
    refine ⟨∅,0,⟨⟨rfl,rfl,rfl⟩,fun _ _ => rfl,⟨rfl,fun _ _ _ _ => rfl⟩⟩,?_,hsep,fun _ _ _ _ => id⟩
    exact List.pairwise_cons.mpr ⟨fun t _ => UInt64.le_iff_toNat_le.mpr (Nat.zero_le _),hchron.ts⟩
  refine Machine.unwinding ?_ ?_ ?_ ?_ calls hstart
  · intro c hc
    have hcu : c.userId = u := by simpa using hc
    simpa [hcu] using huv
  · rintro c calls s t hc ⟨A,now,hcoupled,hclock,hsep,hout⟩
    have hcv : c.userId = v := by simpa using hc
    obtain ⟨hnow,hclock'⟩ := List.pairwise_cons.mp hclock
    obtain ⟨hhead,hsep'⟩ := List.pairwise_cons.mp hsep
    refine ⟨A ∪ {n | Presents crates v n (Machine.event (step crates) s c)},c.env.ts,?_,hclock',hsep',?_⟩
    · exact (hcoupled.mono Set.subset_union_left).hide hcv (hnow _ (by simp)) (fun n hn => Or.inr hn)
    · rintro e he n hn (ha | hpv)
      · exact hout e (List.mem_cons_of_mem _ he) n hn ha
      · exact hhead e he n hpv hn
  · rintro c calls s t hc ⟨A,now,hcoupled,hclock,hsep,hout⟩
    have hcv : c.userId ≠ v := by simpa using hc
    obtain ⟨hnow,hclock'⟩ := List.pairwise_cons.mp hclock
    exact ⟨A,c.env.ts,(hcoupled.keep hcv (hnow _ (by simp))).1,hclock',(List.pairwise_cons.mp hsep).2,
      fun e he => hout e (List.mem_cons_of_mem _ he)⟩
  · rintro c calls s t hc ⟨A,now,hcoupled,hclock,hsep,hout⟩
    have hcu : c.userId = u := by simpa using hc
    apply (hcoupled.keep (hcu.trans_ne huv) ((List.pairwise_cons.mp hclock).1 _ (by simp))).2
    rw [hcu]
    exact hout _ (by simp [Machine.history_cons])

section
open Transparent

def aliceChallenge : Challenge := ⟨sampleNonce 1,2000⟩
def bobChallenge : Challenge := ⟨sampleNonce 2,2001⟩

private theorem verify_respond {v : ChallengeVerifier} {c : Challenge} {now : UInt64}
    (hx : c.isExpired now = false) (hk : Words.absDiff now now ≤ v.maxClockSkew) (n : Nonce) :
    (ChallengeVerifier.verify dilithium3 v c (respond c n now) keypair.publicKey now).1 = .ok () ↔
      (v.clearExpired now).usedNonces n = none :=
  (ChallengeVerifier.verify_eq_ok_iff ..).trans (and_iff_right (acceptable_respond hx hk n))

/-- A server that nobody has tried to log in to. -/
structure Untried (s : ServerInner) : Prop where
  maxAttempts : s.maxAttempts = 5
  rateWindow : s.rateWindow = 300
  limits : ∀ u, s.rateLimits u = none
  verifier : s.verifier = ChallengeVerifier.new 60

private theorem passes_again {s : ServerInner} {u : String} {start : UInt64}
    (hl : s.rateLimits u = some (1,start)) (hm : s.maxAttempts = 5) (hw : s.rateWindow = 300) {env : Env}
    (hle : env.limitNow - start ≤ 300) : passes s env u = true := by
  simp only [passes, attempt, hl, hm, hw, Option.getD_some]
  rw [if_neg (UInt64.not_lt.mpr hle)]
  rfl

private theorem limit_issued {s : ServerInner} {u : String} (hl : s.rateLimits u = none) (env : Env) :
    (afterIssue s env u).rateLimits u = some (1,env.limitNow) := by
  simp [afterIssue, logged, counted, attempt, hl]

private theorem reply_alone {s : ServerInner} (hs : Untried s) (hu : s.users "alice" = some sampleRecord) :
    (step Transparent.crates (step Transparent.crates s (issueCall (sampleNonce 1) "alice" 2000)).2
      (answerCall aliceChallenge (sampleNonce 1) "alice" 2003)).1 = .ok (.verify (challengeResponse true)) := by
  have hissue : step Transparent.crates s (issueCall (sampleNonce 1) "alice" 2000) =
      (_,afterIssue s (sampleEnv 2000 [] (sampleNonce 1)) "alice") :=
    step_issue hu (passes_first hs.maxAttempts (hs.limits _) _)
  have hpasses : passes (afterIssue s (sampleEnv 2000 [] (sampleNonce 1)) "alice")
      (sampleEnv 2003 [] (sampleNonce 0)) "alice" = true :=
    passes_again (limit_issued (hs.limits _) _) hs.maxAttempts hs.rateWindow (by decide)
  have hverify : (ChallengeVerifier.verify dilithium3 s.verifier aliceChallenge
      (respond aliceChallenge (sampleNonce 1) 2003) keypair.publicKey 2003).1 = .ok () := by
    rw [hs.verifier]
    exact (verify_respond (by decide) (by decide) _).mpr rfl
  have hpending : (afterIssue s (sampleEnv 2000 [] (sampleNonce 1)) "alice").pendingChallenges "alice" =
      some aliceChallenge := afterIssue_pendingChallenges ..
  have husers : (afterIssue s (sampleEnv 2000 [] (sampleNonce 1)) "alice").users "alice" = some sampleRecord := hu
  rw [hissue, step_answerCall husers hpasses hpending]
  exact congrArg (fun b : Except ChallengeError Unit => (.ok (.verify (challengeResponse b.isOk)) : Reply)) hverify

private theorem after_bob {s : ServerInner} (hs : Untried s) (ha : s.users "alice" = some sampleRecord)
    (hb : s.users "bob" = some sampleRecord) :
    ∃ t, Machine.final (step Transparent.crates) s
        [issueCall (sampleNonce 1) "alice" 2000,issueCall (sampleNonce 2) "bob" 2001,
          answerCall bobChallenge (sampleNonce 1) "bob" 2002] = t ∧
      t.users "alice" = some sampleRecord ∧ passes t (sampleEnv 2003 [] (sampleNonce 0)) "alice" = true ∧
      t.pendingChallenges "alice" = some aliceChallenge ∧
      (t.verifier.clearExpired 2003).usedNonces (sampleNonce 1) = some 2001 := by
  let s₁ := afterIssue s (sampleEnv 2000 [] (sampleNonce 1)) "alice"
  let s₂ := afterIssue s₁ (sampleEnv 2001 [] (sampleNonce 2)) "bob"
  let outcome := ChallengeVerifier.verify dilithium3 s.verifier bobChallenge
    (respond bobChallenge (sampleNonce 1) 2002) keypair.publicKey 2002
  let s₃ := afterAnswer s₂ (sampleEnv 2002 [] (sampleNonce 0)) "bob" outcome
  have hlimit₁ : s₁.rateLimits "bob" = none := by simp [s₁, afterIssue, logged, counted, hs.limits]
  have hissue₁ : step Transparent.crates s (issueCall (sampleNonce 1) "alice" 2000) = (_,s₁) :=
    step_issue ha (passes_first hs.maxAttempts (hs.limits _) _)
  have hissue₂ : step Transparent.crates s₁ (issueCall (sampleNonce 2) "bob" 2001) = (_,s₂) :=
    step_issue hb (passes_first hs.maxAttempts hlimit₁ _)
  have hlimits₂ : s₂.maxAttempts = 5 ∧ s₂.rateWindow = 300 := by simp [s₂, s₁, hs.maxAttempts, hs.rateWindow]
  have hpasses₂ : passes s₂ (sampleEnv 2002 [] (sampleNonce 0)) "bob" = true :=
    passes_again (limit_issued hlimit₁ (sampleEnv 2001 [] (sampleNonce 2))) hlimits₂.1 hlimits₂.2 (by decide)
  have husers₂ : s₂.users "bob" = some sampleRecord := by simp [s₂, s₁, hb]
  have hpending₂ : s₂.pendingChallenges "bob" = some bobChallenge := afterIssue_pendingChallenges ..
  have hanswer : step Transparent.crates s₂ (answerCall bobChallenge (sampleNonce 1) "bob" 2002) = (_,s₃) :=
    step_answerCall husers₂ hpasses₂ hpending₂
  refine ⟨s₃,by rw [Machine.final_cons, hissue₁, Machine.final_cons, hissue₂, Machine.final_cons, hanswer,
    Machine.final_nil],by simp [s₃, s₂, s₁, ha],?_,?_,?_⟩
  · have hlimit₃ : s₃.rateLimits "alice" = some (1,2000) := by
      have := @limit_issued s "alice" (hs.limits _) (sampleEnv 2000 [] (sampleNonce 1))
      simpa [s₃, s₂, s₁, afterAnswer, afterIssue, logged, counted, sampleEnv] using this
    exact passes_again hlimit₃ (by simp [s₃, hlimits₂.1]) (by simp [s₃, hlimits₂.2]) (by decide)
  · have hkept : s₃.pendingChallenges "alice" = s₁.pendingChallenges "alice" := by
      simp [s₃, s₂, afterAnswer, afterIssue, logged, counted]
    exact hkept.trans (afterIssue_pendingChallenges ..)
  · -- bob's acceptance put alice's nonce among the used ones
    have hok : outcome.1 = .ok () := by
      simp only [outcome, hs.verifier]
      exact (verify_respond (by decide) (by decide) _).mpr rfl
    exact (ChallengeVerifier.verify_clearExpired_accepted hok 2001).mpr ⟨rfl,by rw [hs.verifier]; decide⟩

private theorem reply_beside {s : ServerInner} (hs : Untried s) (ha : s.users "alice" = some sampleRecord)
    (hb : s.users "bob" = some sampleRecord) :
    (step Transparent.crates (Machine.final (step Transparent.crates) s
        [issueCall (sampleNonce 1) "alice" 2000,issueCall (sampleNonce 2) "bob" 2001,
          answerCall bobChallenge (sampleNonce 1) "bob" 2002])
      (answerCall aliceChallenge (sampleNonce 1) "alice" 2003)).1 = .ok (.verify (challengeResponse false)) := by
  obtain ⟨t,hfinal,husers,hpasses,hpending,hused⟩ := after_bob hs ha hb
  have hlast := @step_answerCall t "alice" aliceChallenge (sampleNonce 1) 2003 husers hpasses hpending
  have hreplay : (ChallengeVerifier.verify dilithium3 t.verifier aliceChallenge
      (respond aliceChallenge (sampleNonce 1) 2003) keypair.publicKey 2003).1.isOk = false := by
    rw [← Bool.not_eq_true, isOk_iff]
    intro hok
    exact absurd (((ChallengeVerifier.verify_eq_ok_iff ..).mp hok).2.symm.trans hused) (by simp)
  rw [hfinal, hlast]
  exact congrArg (fun b => (.ok (.verify (challengeResponse b)) : Reply)) hreplay

/-- Both enroll and wait with a challenge; bob answers with some nonce field,
then alice with her own. -/
def besideBob (nonce : Nonce) : List Call :=
  ([beginCall 1000 [1] "alice",completeCall 1001 "alice"] ++ [beginCall 1002 [1] "bob",completeCall 1003 "bob"] ++
    [issueCall (sampleNonce 1) "alice" 2000,issueCall (sampleNonce 2) "bob" 2001,
      answerCall bobChallenge nonce "bob" 2002]) ++ [answerCall aliceChallenge (sampleNonce 1) "alice" 2003]

def withoutBob : List Call :=
  ([beginCall 1000 [1] "alice",completeCall 1001 "alice"] ++ [issueCall (sampleNonce 1) "alice" 2000]) ++
    [answerCall aliceChallenge (sampleNonce 1) "alice" 2003]

theorem besideBob_filter (nonce : Nonce) : (besideBob nonce).filter (fun c => !(c.userId == "bob")) = withoutBob := by
  rfl

private theorem untried_alice : Untried (sampleEnrolled 1001 "alice") := ⟨rfl,rfl,fun _ => rfl,rfl⟩

theorem last_exchange (calls : List Call) {c : Call} (hc : c.userId = "alice") :
    Machine.exchanges (fun c => c.userId == "alice") (history Transparent.crates "example.org" (calls ++ [c])) =
      Machine.exchanges (fun c => c.userId == "alice") (history Transparent.crates "example.org" calls) ++
        [(c,(step Transparent.crates (final Transparent.crates "example.org" calls) c).1)] := by
  rw [history, Machine.history_append]
  exact Machine.exchanges_append _ _ (by simpa [Machine.event] using hc)

private theorem both_enrolled : ∃ s, Machine.final (step Transparent.crates) (new "example.org")
    ([beginCall 1000 [1] "alice",completeCall 1001 "alice"] ++ [beginCall 1002 [1] "bob",completeCall 1003 "bob"]) = s ∧
      Untried s ∧ s.users "alice" = some sampleRecord ∧ s.users "bob" = some sampleRecord := by
  have hbob : (sampleEnrolled 1001 "alice").users "bob" = none := rfl
  rw [Machine.final_append, final_sampleEnrolled, final_sampleEnroll rfl hbob]
  refine ⟨_,rfl,⟨rfl,rfl,fun _ => rfl,rfl⟩,?_,afterComplete_users ..⟩
  simpa [afterComplete, logged, afterBegin] using sampleEnrolled_users 1001 "alice"

/-- Bob's accepted response spends the nonce alice is about to use. -/
theorem reused_nonce_interferes :
    Chronological (besideBob (sampleNonce 1)) ∧
    (issuedNonces (history Transparent.crates "example.org" (besideBob (sampleNonce 1)))).Nodup ∧
    Machine.exchanges (fun c => c.userId == "alice")
        (history Transparent.crates "example.org" (besideBob (sampleNonce 1))) ≠
      Machine.exchanges (fun c => c.userId == "alice") (history Transparent.crates "example.org"
        ((besideBob (sampleNonce 1)).filter (fun c => !(c.userId == "bob")))) := by
  refine ⟨by decide,(issuedNonces_sublist _ _).nodup (by decide),?_⟩
  rw [besideBob_filter, besideBob, withoutBob, last_exchange _ rfl, last_exchange _ rfl]
  intro heq
  have hlast := (Prod.mk.inj (List.append_singleton_inj.mp heq).2).2
  obtain ⟨s,hfinal,hs,ha,hb⟩ := both_enrolled
  rw [final, Machine.final_append, hfinal, reply_beside hs ha hb, final, Machine.final_append, final_sampleEnrolled,
    Machine.final_cons, Machine.final_nil, reply_alone untried_alice (sampleEnrolled_users ..)] at hlast
  cases hlast

/-- Only bob presents the nonce that bob answers with. -/
private theorem presents_besideBob {nonce n : Nonce} {w : String} {e : Event}
    (he : e ∈ history Transparent.crates "example.org" (besideBob nonce)) (hp : Presents Transparent.crates w n e) :
    (w = "bob" ∧ n = nonce) ∨ (w = "alice" ∧ n = sampleNonce 1) := by
  obtain ⟨field,ct,sig,_,_,hreq,_,hn,_⟩ := hp
  have hanswer {c : Challenge} {k : Nonce} {x : String} {now : UInt64}
      (h : e.input = answerCall c k x now) : w = x ∧ n = k := by
    rw [h] at hreq
    cases hreq
    exact ⟨rfl,by rw [← hn, decodeResponse_encode hex_roundTrip]; rfl⟩
  have hmem := Machine.input_mem he
  simp only [besideBob, List.cons_append, List.nil_append, List.mem_cons, List.not_mem_nil, or_false] at hmem
  rcases hmem with h | h | h | h | h | h | h | h
  case inr.inr.inr.inr.inr.inr.inl => exact Or.inl (hanswer h)
  case inr.inr.inr.inr.inr.inr.inr => exact Or.inr (hanswer h)
  all_goals rw [h] at hreq; cases hreq

/-- Had bob kept to his own nonce, alice would not have noticed him. -/
theorem noninterference_beside :
    Machine.exchanges (fun c => c.userId == "alice")
        (history Transparent.crates "example.org" (besideBob (sampleNonce 2))) =
      Machine.exchanges (fun c => c.userId == "alice") (history Transparent.crates "example.org"
        ((besideBob (sampleNonce 2)).filter (fun c => !(c.userId == "bob")))) := by
  refine noninterference Transparent.crates "example.org" (by decide) (by decide) (.inl ?_)
  rw [Separated, List.pairwise_iff_getElem]
  intro i j hi hj _ n hbob halice
  rcases presents_besideBob (List.getElem_mem hi) hbob with ⟨_,rfl⟩ | ⟨h,_⟩
  · rcases presents_besideBob (List.getElem_mem hj) halice with ⟨h,_⟩ | ⟨_,h⟩
    · exact absurd h (by decide)
    · exact absurd h (by decide)
  · exact absurd h (by decide)

end
end PqAuth.PqAuthServer
