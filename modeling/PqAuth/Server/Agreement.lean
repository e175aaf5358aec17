import PqAuth.Server.History

/-! Injective agreement of challenge-response login: every accepted response
answers its own, earlier and still undisturbed challenge. -/
namespace PqAuth.PqAuthServer
variable {crates : Crates} {serverId : String} {calls : List Call}

/-- A step leaves a user's challenge in place or issues it. Attempts consume. -/
theorem Transition.pending_cases {s s' : ServerInner} {env : Env} {request : Request} {reply : Reply}
    (ht : Transition crates s env request reply s') {u : String} {challenge : Challenge}
    (hc : s'.pendingChallenges u = some challenge) :
    (request = .issueChallenge u ∧ challenge = ⟨env.nonce,env.ts⟩ ∧
      reply = .ok (.challengeIssued ⟨crates.hex.encode env.nonce.val,env.ts⟩)) ∨
    (s.pendingChallenges u = some challenge ∧
      ¬ (request = .issueChallenge u ∧ reply.isOk = true) ∧
      ¬ ((∃ nonce ct sig, request = .verify ⟨u,.challenge nonce ct sig⟩) ∧
        (∃ record, s.users u = some record) ∧ passes s env u = true)) := by
  by_cases hu : u = request.userId
  · subst hu
    cases ht
    case issued => exact Or.inl ⟨rfl,by simpa [afterIssue, logged, Request.userId] using hc.symm,rfl⟩
    case issueLimited => exact Or.inr ⟨hc,by simp [Except.isOk, Except.toBool],by simp⟩
    case issueUnknown => exact Or.inr ⟨hc,by simp [Except.isOk, Except.toBool],by simp⟩
    case verifyLimited hl => exact Or.inr ⟨hc,by simp,by simp [Request.userId, hl]⟩
    case verifyUnknown hu => exact Or.inr ⟨hc,by simp,by simp [Request.userId, hu]⟩
    case noPendingChallenge hp => exact absurd (hp.symm.trans hc) (by simp)
    case answered => simp [afterAnswer, logged, Request.userId] at hc
    all_goals exact Or.inr ⟨hc,by simp,by simp⟩
  · have hs := (Session.mk.inj (ht.frame hu)).2.2.1
    refine Or.inr ⟨hs ▸ hc,?_,?_⟩
    · rintro ⟨rfl,_⟩
      exact hu rfl
    · rintro ⟨⟨_,_,_,rfl⟩,_⟩
      exact hu rfl

/-- The event that issued a challenge, with the reply that announced it. -/
def IssuedAs (crates : Crates) (u : String) (challenge : Challenge) (e : Event) : Prop :=
  e.input.request = .issueChallenge u ∧ challenge = ⟨e.input.env.nonce,e.input.env.ts⟩ ∧
    e.output = .ok (.challengeIssued ⟨crates.hex.encode challenge.nonce.val,challenge.issuedAt⟩)

theorem IssuedAs.issued {u : String} {challenge : Challenge} {e : Event}
    (h : IssuedAs crates u challenge e) : Issued u e := ⟨h.1,by rw [h.2.2]; rfl⟩

/-- No event from position `i` on issues to `u` or attempts an answer for `u`. -/
def Undisturbed (past : List Event) (u : String) (i j : ℕ) : Prop :=
  ∀ m g, i < m → m < j → past[m]? = some g → ¬ Issued u g ∧ ¬ Attempted u g

private def PendingOrigin (crates : Crates) (past : List Event) (s : ServerInner) : Prop :=
  ∀ u challenge, s.pendingChallenges u = some challenge →
    ∃ i e, past[i]? = some e ∧ IssuedAs crates u challenge e ∧ Undisturbed past u i past.length

private theorem pendingOrigin_step (past : List Event) (s : ServerInner) (c : Call)
    (h : PendingOrigin crates past s) :
    PendingOrigin crates (past ++ [Machine.event (step crates) s c]) (step crates s c).2 := by
  intro u challenge hc
  rcases (transition crates s c).pending_cases hc with ⟨hreq,hch,hrep⟩ | ⟨hold,hissue,hattempt⟩
  · refine ⟨past.length,Machine.event (step crates) s c,by simp,⟨hreq,hch,by rw [hch]; exact hrep⟩,?_⟩
    intro m g hm hlt
    simp only [List.length_append, List.length_singleton] at hlt
    omega
  · obtain ⟨i,e,he,hi,hq⟩ := h u challenge hold
    have hlt := (List.getElem?_eq_some_iff.mp he).1
    refine ⟨i,e,by rw [List.getElem?_append_left hlt]; exact he,hi,?_⟩
    intro m g hm hml hg
    by_cases hlast : m < past.length
    · rw [List.getElem?_append_left hlast] at hg
      exact hq m g hm hlast hg
    · have hmeq : m = past.length := by
        simp only [List.length_append, List.length_singleton] at hml
        omega
      obtain rfl : Machine.event (step crates) s c = g := by simpa [hmeq] using hg
      refine ⟨hissue,?_⟩
      rintro ⟨hreq,hpast⟩
      exact hattempt ⟨hreq,((pastLimiter_iff ..).mp hpast).2⟩

/-- Where the challenge waiting at an event was issued. -/
theorem pending_origin {j : ℕ} {e : Event} (he : (history crates serverId calls)[j]? = some e)
    {u : String} {challenge : Challenge} (hc : e.before.pendingChallenges u = some challenge) :
    ∃ i f, i < j ∧ (history crates serverId calls)[i]? = some f ∧ IssuedAs crates u challenge f ∧
      Undisturbed (history crates serverId calls) u i j := by
  have hj := (List.getElem?_eq_some_iff.mp he).1
  have hlen : ((history crates serverId calls).take j).length = j := by
    rw [List.length_take]
    omega
  have horigin := Machine.history_invariant_at (J := PendingOrigin crates)
    (by simp [PendingOrigin, new]) pendingOrigin_step he
  obtain ⟨i,f,hf,hi,hq⟩ := horigin u challenge hc
  have hij : i < j := hlen ▸ (List.getElem?_eq_some_iff.mp hf).1
  rw [List.getElem?_take_of_lt hij] at hf
  refine ⟨i,f,hij,hf,hi,?_⟩
  intro m g hm hmj hg
  exact hq m g hm (hlen.symm ▸ hmj) (by rw [List.getElem?_take_of_lt hmj]; exact hg)

/-- The completion that stored a record. -/
def EnrolledBy (u : String) (record : EnrollmentRecord) (e : Event) : Prop :=
  ∃ req, req.userId = u ∧ Completed req e ∧ e.after.users u = some record

private def RecordOrigin (past : List Event) (s : ServerInner) : Prop :=
  ∀ u record, s.users u = some record → ∃ i : ℕ, ∃ e, past[i]? = some e ∧ EnrolledBy u record e

theorem Transition.users_cases {s s' : ServerInner} {env : Env} {request : Request} {reply : Reply}
    (ht : Transition crates s env request reply s') {u : String} {record : EnrollmentRecord}
    (hu : s'.users u = some record) :
    (∃ req, request = .enrollComplete req ∧ req.userId = u ∧ reply.isOk = true) ∨
      s.users u = some record := by
  by_cases hv : u = request.userId
  · subst hv
    cases ht
    case enrolled req enrollment record' hp hc => exact Or.inl ⟨req,rfl,rfl,rfl⟩
    all_goals exact Or.inr hu
  · exact Or.inr ((Session.mk.inj (ht.frame hv)).1 ▸ hu)

private theorem recordOrigin_step (past : List Event) (s : ServerInner) (c : Call)
    (h : RecordOrigin past s) :
    RecordOrigin (past ++ [Machine.event (step crates) s c]) (step crates s c).2 := by
  intro u record hu
  rcases (transition crates s c).users_cases hu with ⟨req,hreq,huser,hok⟩ | hold
  · exact ⟨past.length,Machine.event (step crates) s c,by simp,req,huser,⟨hreq,hok⟩,hu⟩
  · obtain ⟨i,e,he,hi⟩ := h u record hold
    exact ⟨i,e,by rw [List.getElem?_append_left (List.getElem?_eq_some_iff.mp he).1]; exact he,hi⟩

/-- Where the record known at an event was stored. -/
theorem record_origin {j : ℕ} {e : Event} (he : (history crates serverId calls)[j]? = some e)
    {u : String} {record : EnrollmentRecord} (hu : e.before.users u = some record) :
    ∃ i f, i < j ∧ (history crates serverId calls)[i]? = some f ∧ EnrolledBy u record f := by
  have hj := (List.getElem?_eq_some_iff.mp he).1
  have horigin := Machine.history_invariant_at (J := RecordOrigin) (by simp [RecordOrigin, new])
    (@recordOrigin_step crates) he
  obtain ⟨i,f,hf,hi⟩ := horigin u record hu
  have hij : i < j := by
    have := (List.getElem?_eq_some_iff.mp hf).1
    rw [List.length_take] at this
    omega
  exact ⟨i,f,hij,by rwa [List.getElem?_take_of_lt hij] at hf,hi⟩

/-- What an accepted response at `j` and its challenge at `i` agree on. -/
structure Agreement (crates : Crates) (past : List Event) (u : String) (ct : UInt64) (sig : String)
    (i j : ℕ) : Prop where
  earlier : i < j
  undisturbed : Undisturbed past u i j
  matched : ∃ f e challenge record k g, past[i]? = some f ∧ past[j]? = some e ∧
    IssuedAs crates u challenge f ∧
    k < i ∧ past[k]? = some g ∧ EnrolledBy u record g ∧ f.before.users u = some record ∧
    e.input.env.ts.toNat ≤ challenge.issuedAt.toNat + 300 ∧
    Words.absDiff ct e.input.env.ts ≤ 60 ∧
    Dilithium.verifyDetached crates.dilithium3 record.dilithiumPublicKey
      (challenge.nonce.val ++ Words.toBeBytes ct) ((crates.hex.decode sig).getD []) = .ok ()

private theorem agreement_at {j : ℕ} {e : Event} (he : (history crates serverId calls)[j]? = some e)
    {u nonce sig : String} {ct : UInt64} (ha : Answered u nonce ct sig true e) :
    ∃ i, Agreement crates (history crates serverId calls) u ct sig i j := by
  obtain ⟨hreq,message,hout⟩ := ha
  have ht := transition_at he
  rw [hreq, hout] at ht
  obtain ⟨record,challenge,hu,_,hp,hacceptable,_⟩ := ht.accepted_inv
  rw [maxClockSkew_at he] at hacceptable
  obtain ⟨hexp,hskew,hsig⟩ := hacceptable
  obtain ⟨i,f,hij,hf,hissued,hquiet⟩ := pending_origin he hp
  -- the issuing event was itself past the enrollment check
  have hfu : ∃ record', f.before.users u = some record' := by
    have htf := transition_at hf
    rw [hissued.1] at htf
    exact (htf.issued_inv hissued.issued.2).1
  obtain ⟨record',hu'⟩ := hfu
  obtain ⟨k,g,hki,hg,hgen⟩ := record_origin hf hu'
  obtain ⟨req,hruser,hcompleted,hafter⟩ := hgen
  have hsame := users_carried (hki.trans hij) hg he hafter
  obtain rfl : record = record' := Option.some.inj (hu.symm.trans hsame)
  exact ⟨i,hij,hquiet,f,e,challenge,record,k,g,hf,he,hissued,hki,hg,⟨req,hruser,hcompleted,hafter⟩,hu',
    (Challenge.isExpired_eq_false ..).mp hexp,hskew,hsig⟩

private theorem exists_agreement (crates : Crates) (serverId : String) (calls : List Call) (j : ℕ) :
    ∃ i, ∀ e u nonce ct sig, (history crates serverId calls)[j]? = some e → Answered u nonce ct sig true e →
      Agreement crates (history crates serverId calls) u ct sig i j := by
  by_cases hj : ∃ e u nonce ct sig, (history crates serverId calls)[j]? = some e ∧ Answered u nonce ct sig true e
  · obtain ⟨e,u,nonce,ct,sig,he,ha⟩ := hj
    obtain ⟨i,hi⟩ := agreement_at he ha
    refine ⟨i,?_⟩
    intro e' u' nonce' ct' sig' he' ha'
    obtain rfl : e = e' := Option.some.inj (he.symm.trans he')
    have hreq := ha.1.symm.trans ha'.1
    simp only [Request.verify.injEq, VerifyRequest.mk.injEq, VerifyMethod.challenge.injEq] at hreq
    obtain ⟨rfl,rfl,rfl,rfl⟩ := hreq
    exact hi
  · exact ⟨0,fun e u nonce ct sig he ha => absurd ⟨e,u,nonce,ct,sig,he,ha⟩ hj⟩

/-- One challenge is answered by one accepted response. -/
theorem Agreement.inj {i j j' : ℕ} {e e' : Event} {u u' nonce nonce' sig sig' : String} {ct ct' : UInt64}
    (he : (history crates serverId calls)[j]? = some e) (he' : (history crates serverId calls)[j']? = some e')
    (ha : Answered u nonce ct sig true e) (ha' : Answered u' nonce' ct' sig' true e')
    (hag : Agreement crates (history crates serverId calls) u ct sig i j)
    (hag' : Agreement crates (history crates serverId calls) u' ct' sig' i j') : j = j' := by
  obtain ⟨f,_,_,_,_,_,hf,_,hfi,_⟩ := hag.matched
  obtain ⟨f',_,_,_,_,_,hf',_,hfi',_⟩ := hag'.matched
  obtain rfl : f = f' := Option.some.inj (hf.symm.trans hf')
  obtain rfl : u = u' := Request.issueChallenge.inj (hfi.1.symm.trans hfi'.1)
  rcases lt_trichotomy j j' with hlt | rfl | hlt
  · exact absurd (ha.attempted he) (hag'.undisturbed j e hag.earlier hlt he).2
  · rfl
  · exact absurd (ha'.attempted he') (hag.undisturbed j' e' hag'.earlier hlt he').2

/-- Between two answers for a user a challenge was issued. -/
theorem issued_between {j j' : ℕ} {e e' : Event} {u nonce nonce' sig sig' : String} {ct ct' : UInt64}
    {valid valid' : Bool} (hjj : j < j') (he : (history crates serverId calls)[j]? = some e)
    (he' : (history crates serverId calls)[j']? = some e') (ha : Answered u nonce ct sig valid e)
    (ha' : Answered u nonce' ct' sig' valid' e') :
    ∃ i f, j ≤ i ∧ i < j' ∧ (history crates serverId calls)[i]? = some f ∧ Issued u f := by
  obtain ⟨hreq,message,hout⟩ := ha'
  have ht := transition_at he'
  rw [hreq, hout] at ht
  obtain ⟨_,_,_,_,_,hp,_⟩ := ht.answered_inv
  obtain ⟨i,f,hij,hf,hissued,hquiet⟩ := pending_origin he' hp
  refine ⟨i,f,?_,hij,hf,hissued.issued⟩
  by_contra hlt
  exact (hquiet j e (by omega) hjj he).2 (ha.attempted he)

/-- Accepted logins map injectively to the challenges they answer, and every
issued challenge is consumed by its first attempt, whatever the verdict. -/
theorem challenge_login_agreement (crates : Crates) (serverId : String) (calls : List Call) :
    let past : List Event := history crates serverId calls
    (∃ issueOf : ℕ → ℕ,
      (∀ (j : ℕ) e u nonce ct sig, past[j]? = some e → Answered u nonce ct sig true e →
        Agreement crates past u ct sig (issueOf j) j) ∧
      (∀ (j j' : ℕ) e e' u u' nonce nonce' ct ct' sig sig', past[j]? = some e → past[j']? = some e' →
        Answered u nonce ct sig true e → Answered u' nonce' ct' sig' true e' →
        issueOf j = issueOf j' → j = j')) ∧
    (∀ (i : ℕ) f u, past[i]? = some f → Issued u f →
      ∀ (j j' : ℕ) e e' nonce nonce' ct ct' sig sig' valid valid', i < j → i < j' →
        past[j]? = some e → past[j']? = some e' →
        Answered u nonce ct sig valid e → Answered u nonce' ct' sig' valid' e' →
        (∀ (m : ℕ) g, i < m → m < max j j' → past[m]? = some g → ¬ Issued u g) → j = j') := by
  intro past
  refine ⟨?_,?_⟩
  · choose issueOf hissue using exists_agreement crates serverId calls
    refine ⟨issueOf,hissue,?_⟩
    intro j j' e e' u u' nonce nonce' ct ct' sig sig' he he' ha ha' heq
    have hag := hissue j e u nonce ct sig he ha
    have hag' := hissue j' e' u' nonce' ct' sig' he' ha'
    rw [← heq] at hag'
    exact hag.inj he he' ha ha' hag'
  · intro i f u hf hi j j' e e' nonce nonce' ct ct' sig sig' valid valid' hij hij' he he' ha ha' hquiet
    rcases lt_trichotomy j j' with hlt | rfl | hlt
    · obtain ⟨m,g,hjm,hmj,hg,hissued⟩ := issued_between hlt he he' ha ha'
      exact absurd hissued (hquiet m g (by omega) (by omega) hg)
    · rfl
    · obtain ⟨m,g,hjm,hmj,hg,hissued⟩ := issued_between hlt he' he ha' ha
      exact absurd hissued (hquiet m g (by omega) (by omega) hg)

end PqAuth.PqAuthServer
