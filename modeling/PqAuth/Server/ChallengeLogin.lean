import PqAuth.Server.Honest

/-! Completeness of challenge-response login. While everybody answers with the
nonce of the pending challenge, no pending nonce is ever among the used ones. -/
namespace PqAuth.PqAuthServer
variable {crates : Crates} {serverId : String}

/-- The challenge that a request consumes, with the record it is checked against. -/
structure Consumes (crates : Crates) (s : ServerInner) (env : Env) (u : String) (challenge : Challenge)
    (record : EnrollmentRecord) : Prop where
  user : s.users u = some record
  passed : passes s env u = true
  pending : s.pendingChallenges u = some challenge

/-- What a request does to the challenges and the used nonces. -/
theorem Transition.challenge_cases {s s' : ServerInner} {env : Env} {request : Request} {reply : Reply}
    (ht : Transition crates s env request reply s') :
    (∃ u, request = .issueChallenge u ∧ reply.isOk = true ∧ s' = afterIssue s env u) ∨
    (∃ u nonce ct sig challenge record, request = .verify ⟨u,.challenge nonce ct sig⟩ ∧
      Consumes crates s env u challenge record ∧
      s' = afterAnswer s env u (ChallengeVerifier.verify crates.dilithium3 s.verifier challenge
        (decodeResponse crates nonce ct sig) record.dilithiumPublicKey env.ts)) ∨
    (s'.pendingChallenges = s.pendingChallenges ∧ s'.verifier = s.verifier) := by
  cases ht
  case issued u record hu hl => exact Or.inl ⟨u,rfl,rfl,rfl⟩
  case answered u nonce ct sig record challenge outcome hu hl hp ho =>
    exact Or.inr (Or.inl ⟨u,nonce,ct,sig,challenge,record,rfl,⟨hu,hl,hp⟩,by rw [ho]⟩)
  all_goals exact Or.inr (Or.inr ⟨rfl,rfl⟩)

/-- A call that drew a challenge nonce. -/
def drawsNonce (e : Event) : Bool :=
  match e.input.request with
  | .issueChallenge _ => e.output.isOk
  | _ => false

def issuedNonces (past : List Event) : List Nonce := (past.filter drawsNonce).map (fun e => e.input.env.nonce)

/-- Only successful issues draw, so the nonces of all issue requests bound them. -/
theorem issuedNonces_sublist (s : ServerInner) (calls : List Call) :
    (issuedNonces (Machine.history (step crates) s calls)).Sublist
      ((calls.filter (fun c => c.request matches .issueChallenge _)).map (fun c => c.env.nonce)) := by
  induction calls generalizing s with
  | nil => exact List.Sublist.refl _
  | cons c calls ih =>
    have htail := ih (step crates s c).2
    rw [Machine.history_cons, issuedNonces, List.filter_cons, List.filter_cons]
    obtain ⟨env,request⟩ := c
    cases request with
    | issueChallenge u =>
      simp only [if_true, List.map_cons]
      split
      · exact htail.cons_cons _
      · exact htail.cons _
    | enrollBegin | enrollComplete | verify => simpa [drawsNonce, Machine.event, issuedNonces] using htail

/-- Every verification that consumed a challenge carried the hex of its nonce. -/
def OwnAnswers (crates : Crates) (past : List Event) : Prop :=
  ∀ e ∈ past, ∀ u nonce ct sig challenge record, e.input.request = .verify ⟨u,.challenge nonce ct sig⟩ →
    Consumes crates e.before e.input.env u challenge record → crates.hex.decode nonce = some challenge.nonce.val

/-- Pending nonces were issued, are unused, and differ between users. -/
structure NonceInvariant (issued : List Nonce) (s : ServerInner) : Prop where
  pending : ∀ u challenge, s.pendingChallenges u = some challenge → challenge.nonce ∈ issued
  used : ∀ n, s.verifier.usedNonces n ≠ none → n ∈ issued
  unused : ∀ u challenge, s.pendingChallenges u = some challenge → s.verifier.usedNonces challenge.nonce = none
  apart : ∀ u v c d, u ≠ v → s.pendingChallenges u = some c → s.pendingChallenges v = some d → c.nonce ≠ d.nonce

theorem NonceInvariant.issue {issued : List Nonce} {s : ServerInner} (h : NonceInvariant issued s) {env : Env}
    (hfresh : env.nonce ∉ issued) (u : String) : NonceInvariant (issued ++ [env.nonce]) (afterIssue s env u) := by
  have hpending (v : String) (c : Challenge) (hv : (afterIssue s env u).pendingChallenges v = some c) :
      (v = u ∧ c = ⟨env.nonce,env.ts⟩) ∨ (v ≠ u ∧ s.pendingChallenges v = some c) := by
    by_cases hvu : v = u
    · subst hvu
      exact Or.inl ⟨rfl,by simpa using hv.symm⟩
    · exact Or.inr ⟨hvu,by simpa [afterIssue, logged, counted, hvu] using hv⟩
  have hnew : s.verifier.usedNonces env.nonce = none := by
    by_contra hne
    exact hfresh (h.used _ hne)
  refine ⟨?_,fun n hn => by simp [h.used n hn],?_,?_⟩
  · intro v c hv
    rcases hpending v c hv with ⟨_,rfl⟩ | ⟨_,hold⟩
    · simp
    · simp [h.pending v c hold]
  · intro v c hv
    rcases hpending v c hv with ⟨_,rfl⟩ | ⟨_,hold⟩
    · exact hnew
    · exact h.unused v c hold
  · intro v w c d hvw hv hw
    rcases hpending v c hv with ⟨rfl,rfl⟩ | ⟨_,hv'⟩ <;> rcases hpending w d hw with ⟨rfl,rfl⟩ | ⟨_,hw'⟩
    · exact absurd rfl hvw
    · intro heq
      apply hfresh
      rw [show env.nonce = d.nonce from heq]
      exact h.pending w d hw'
    · intro heq
      apply hfresh
      rw [← show c.nonce = env.nonce from heq]
      exact h.pending v c hv'
    · exact h.apart v w c d hvw hv' hw'

theorem NonceInvariant.answer {issued : List Nonce} {s : ServerInner} (h : NonceInvariant issued s) (env : Env)
    {u : String} {challenge : Challenge} (hp : s.pendingChallenges u = some challenge) {r : ChallengeResponse}
    (hown : r.nonce = challenge.nonce) (dilithium : Dilithium3) (pk : Bytes) :
    NonceInvariant issued
      (afterAnswer s env u (ChallengeVerifier.verify dilithium s.verifier challenge r pk env.ts)) := by
  have hpending (v : String) (c : Challenge) (hv : (afterAnswer s env u (ChallengeVerifier.verify dilithium
      s.verifier challenge r pk env.ts)).pendingChallenges v = some c) : v ≠ u ∧ s.pendingChallenges v = some c := by
    by_cases hvu : v = u
    · subst hvu
      simp at hv
    · exact ⟨hvu,by simpa [afterAnswer, logged, hvu] using hv⟩
  refine ⟨fun v c hv => h.pending v c (hpending v c hv).2,?_,?_,?_⟩
  · intro n hn
    rcases ChallengeVerifier.verify_usedNonces hn with rfl | hold
    · exact hown ▸ h.pending u challenge hp
    · exact h.used n hold
  · intro v c hv
    obtain ⟨hvu,hold⟩ := hpending v c hv
    by_contra hne
    rcases ChallengeVerifier.verify_usedNonces hne with heq | hused
    · exact h.apart v u c challenge hvu hold hp (heq.trans hown)
    · exact hused (h.unused v c hold)
  · intro v w c d hvw hv hw
    exact h.apart v w c d hvw (hpending v c hv).2 (hpending w d hw).2

theorem NonceInvariant.mono {issued more : List Nonce} {s s' : ServerInner} (h : NonceInvariant issued s)
    (hsub : issued ⊆ more) (hp : s'.pendingChallenges = s.pendingChallenges) (hv : s'.verifier = s.verifier) :
    NonceInvariant more s' := by
  refine ⟨?_,?_,?_,?_⟩
  · exact fun u c hu => hsub (h.pending u c (hp ▸ hu))
  · exact fun n hn => hsub (h.used n (hv ▸ hn))
  · exact fun u c hu => hv ▸ h.unused u c (hp ▸ hu)
  · exact fun u v c d huv hu hw => h.apart u v c d huv (hp ▸ hu) (hp ▸ hw)

theorem nonceInvariant_final {calls : List Call}
    (hdistinct : (issuedNonces (history crates serverId calls)).Nodup)
    (hown : OwnAnswers crates (history crates serverId calls)) :
    NonceInvariant (issuedNonces (history crates serverId calls)) (final crates serverId calls) := by
  induction calls using List.reverseRecOn with
  | nil =>
    exact ⟨by simp [final, new],by simp [final, new, ChallengeVerifier.new],by simp [final, new],by simp [final, new]⟩
  | append_singleton calls c ih =>
    let s := final crates serverId calls
    have hhistory : history crates serverId (calls ++ [c]) = history crates serverId calls ++
        [Machine.event (step crates) s c] := Machine.history_append ..
    have hfinal : final crates serverId (calls ++ [c]) = (step crates s c).2 := Machine.final_append ..
    rw [hhistory] at hdistinct hown ⊢
    have hnonces : issuedNonces (history crates serverId calls ++ [Machine.event (step crates) s c]) =
        issuedNonces (history crates serverId calls) ++ issuedNonces [Machine.event (step crates) s c] := by
      simp only [issuedNonces, List.filter_append, List.map_append]
    rw [hnonces] at hdistinct ⊢
    have hi := ih (List.nodup_append.mp hdistinct).1 (fun e he => hown e (List.mem_append_left _ he))
    rw [hfinal]
    rcases (transition crates s c).challenge_cases with
      ⟨u,hreq,hok,hs⟩ | ⟨u,nonce,ct,sig,challenge,record,hreq,hcons,hs⟩ | ⟨hp,hv⟩
    · have hdraws : drawsNonce (Machine.event (step crates) s c) = true := by
        simp only [drawsNonce, Machine.event, hreq, hok]
      have hnew : issuedNonces [Machine.event (step crates) s c] = [c.env.nonce] := by
        rw [issuedNonces, List.filter_cons_of_pos hdraws]
        rfl
      rw [hnew] at hdistinct ⊢
      rw [hs]
      apply hi.issue
      exact fun hmem => (List.nodup_append.mp hdistinct).2.2 _ hmem _ (by simp) rfl
    · have hdecoded := hown (Machine.event (step crates) s c) (by simp) u nonce ct sig challenge record hreq hcons
      rw [hs]
      have hresponse : (decodeResponse crates nonce ct sig).nonce = challenge.nonce := by
        simp [decodeResponse, hdecoded]
      have hanswer := hi.answer c.env hcons.pending hresponse crates.dilithium3 record.dilithiumPublicKey
      exact hanswer.mono (List.subset_append_left ..) rfl rfl
    · exact hi.mono (List.subset_append_left ..) hp hv

/-- The holder of the enrolled key is let in, whatever happened before, unless
the limiter refuses. -/
theorem challenge_login_complete (hx : crates.hex.RoundTrip) (he : crates.dilithium3.Encodings)
    (hc : crates.dilithium3.Correct) {calls : List Call}
    (hdistinct : (issuedNonces (history crates serverId calls)).Nodup)
    (hown : OwnAnswers crates (history crates serverId calls)) {u : String} {challenge : Challenge}
    (hpending : (final crates serverId calls).pendingChallenges u = some challenge) {record : EnrollmentRecord}
    (huser : (final crates serverId calls).users u = some record) {seed coins : Bytes}
    (hkey : record.dilithiumPublicKey = (Dilithium.generate crates.dilithium3 seed).publicKey)
    {clientTime : UInt64} {r : ChallengeResponse}
    (hr : respondToChallenge crates.dilithium3 (Dilithium.generate crates.dilithium3 seed) challenge clientTime coins =
      .ok r) (env : Env) (hage : env.ts.toNat ≤ challenge.issuedAt.toNat + 300)
    (hskew : Words.absDiff clientTime env.ts ≤ 60) :
    (step crates (final crates serverId calls) ⟨env,honestAnswer crates u r⟩).1 = .error .rateLimited ∨
      (step crates (final crates serverId calls) ⟨env,honestAnswer crates u r⟩).1 =
        .ok (.verify ⟨true,"Challenge-response verified"⟩) := by
  have hi := nonceInvariant_final hdistinct hown
  have hsixty := maxClockSkew_final crates serverId calls
  generalize final crates serverId calls = s at hi hsixty hpending huser ⊢
  cases hl : passes s env u with
  | false =>
    have hstep : step crates s ⟨env,honestAnswer crates u r⟩ = (.error .rateLimited,counted s env u) :=
      Transition.step_eq (.verifyLimited huser hl)
    rw [hstep]
    exact Or.inl rfl
  | true =>
    obtain ⟨hnonce,_,hacceptable⟩ := ChallengeVerifier.acceptable_respondToChallenge he hc hr
      ((Challenge.isExpired_eq_false ..).mpr hage) hskew
    rw [← hkey, ← hsixty] at hacceptable
    have hunused : (s.verifier.clearExpired env.ts).usedNonces r.nonce = none :=
      ChallengeVerifier.clearExpired_eq_none _ _ (hnonce ▸ hi.unused u challenge hpending)
    rw [step_answer hx huser hl hpending r, ChallengeVerifier.verify_of_acceptable hacceptable hunused]
    exact Or.inr rfl

section
open Transparent

/-- Alice enrolled and waiting with a challenge. -/
def sampleIssued : List Call :=
  [beginCall 1000 [1] "alice",completeCall 1001 "alice"] ++ [issueCall (sampleNonce 1) "alice" 2000]

theorem final_sampleIssued : final Transparent.crates "example.org" sampleIssued =
    afterIssue (sampleEnrolled 1001 "alice") (sampleEnv 2000 [] (sampleNonce 1)) "alice" := by
  have hissue : step Transparent.crates (sampleEnrolled 1001 "alice") (issueCall (sampleNonce 1) "alice" 2000) =
      (_,afterIssue (sampleEnrolled 1001 "alice") (sampleEnv 2000 [] (sampleNonce 1)) "alice") :=
    step_issue (sampleEnrolled_users ..) rfl
  rw [final, sampleIssued, Machine.final_append, final_sampleEnrolled, Machine.final_cons, hissue, Machine.final_nil]

theorem sampleIssued_pending : (final Transparent.crates "example.org" sampleIssued).pendingChallenges "alice" =
    some ⟨sampleNonce 1,2000⟩ := by
  rw [final_sampleIssued]
  exact afterIssue_pendingChallenges ..

theorem sampleIssued_users :
    (final Transparent.crates "example.org" sampleIssued).users "alice" = some sampleRecord := by
  rw [final_sampleIssued, afterIssue_users]
  exact sampleEnrolled_users ..

/-- A user alone with the server logs in at the last second. -/
theorem challenge_login_alone :
    let answer := answerCall ⟨sampleNonce 1,2000⟩ (sampleNonce 1) "alice" 2300
    (step Transparent.crates (final Transparent.crates "example.org" sampleIssued) answer).1 = .error .rateLimited ∨
      (step Transparent.crates (final Transparent.crates "example.org" sampleIssued) answer).1 =
        .ok (.verify ⟨true,"Challenge-response verified"⟩) := by
  have hdistinct : (issuedNonces (history Transparent.crates "example.org" sampleIssued)).Nodup :=
    (issuedNonces_sublist _ _).nodup (by decide)
  have hown : OwnAnswers Transparent.crates (history Transparent.crates "example.org" sampleIssued) := by
    intro e he u nonce ct sig challenge record hreq
    have hmem := Machine.input_mem he
    simp only [sampleIssued, List.cons_append, List.nil_append, List.mem_cons, List.not_mem_nil, or_false] at hmem
    rcases hmem with h | h | h <;> rw [h] at hreq <;> cases hreq
  exact challenge_login_complete hex_roundTrip dilithium3_encodings dilithium3_correct hdistinct hown
    sampleIssued_pending sampleIssued_users sampleRecord_key (respondToChallenge_eq ⟨sampleNonce 1,2000⟩ 2300)
    (sampleEnv 2300 [] (sampleNonce 0)) (by decide) (by decide)

end
end PqAuth.PqAuthServer
