import PqAuth.Server.Agreement
import PqAuth.Server.KeyAgreement
import PqAuth.Server.TotpReuse

/-! Where the credential behind a login comes from: one key exchange for each
user, whichever method the user logs in by. -/
namespace PqAuth

/-- A request that changes the pending enrollment of `u`, if any does. -/
def Request.EnrollmentOf (u : String) : Request → Prop
  | .enrollBegin v => v = u
  | .enrollComplete req => req.userId = u
  | _ => False

namespace PqAuthServer
variable {crates : Crates} {serverId : String} {calls : List Call} {u : String}

/-- The begin that drew the key of a session. -/
def Drew (crates : Crates) (serverId u : String) (enrollment : ServerEnrollment) (e : Event) : Prop :=
  (∃ resp, Begun u resp e) ∧ enrollment = Enrollment.new crates serverId e.input.env.kyberSeed

/-- A pending session is a new one, or stays as long as nobody enrolls its user. -/
theorem Transition.session_cases {s s' : ServerInner} {env : Env} {request : Request} {reply : Reply}
    (ht : Transition crates s env request reply s') (hi : StoreInvariant crates s) {enrollment : ServerEnrollment}
    (hp : s'.pendingEnrollments u = some enrollment) :
    (request = .enrollBegin u ∧ (∃ resp, reply = .ok (.enrollBegin resp)) ∧
      enrollment = Enrollment.new crates s.serverId env.kyberSeed) ∨
    (s.pendingEnrollments u = some enrollment ∧ ¬ request.EnrollmentOf u) := by
  by_cases hu : u = request.userId
  · subst hu
    cases ht
    case alreadyEnrolled hu => exact absurd ((hi.disjoint _ _ hu).symm.trans hp) (by simp)
    case begun hu =>
      exact Or.inl ⟨rfl,⟨_,rfl⟩,Option.some.inj (hp.symm.trans (afterBegin_pendingEnrollments ..))⟩
    case noPendingEnrollment hnone => exact absurd (hnone.symm.trans hp) (by simp)
    case enrollmentFailed => simp [Request.userId] at hp
    case enrolled => simp [Request.userId] at hp
    all_goals exact Or.inr ⟨hp,id⟩
  · refine Or.inr ⟨(Session.mk.inj (ht.frame hu)).2.1 ▸ hp,?_⟩
    cases request <;> first | exact fun h => hu h.symm | exact id

/-- No request enrolls `u` between two positions. -/
def NotEnrolling (past : List Event) (u : String) (i j : ℕ) : Prop :=
  ∀ m g, i < m → m < j → past[m]? = some g → ¬ g.input.request.EnrollmentOf u

private def SessionOrigin (crates : Crates) (serverId : String) (past : List Event) (s : ServerInner) : Prop :=
  StoreInvariant crates s ∧ s.serverId = serverId ∧
    ∀ u enrollment, s.pendingEnrollments u = some enrollment →
      ∃ i b, past[i]? = some b ∧ Drew crates serverId u enrollment b ∧ NotEnrolling past u i past.length

private theorem sessionOrigin_step (past : List Event) (s : ServerInner) (c : Call)
    (h : SessionOrigin crates serverId past s) :
    SessionOrigin crates serverId (past ++ [Machine.event (step crates) s c]) (step crates s c).2 := by
  obtain ⟨hi,hid,horigin⟩ := h
  refine ⟨(transition crates s c).storeInvariant hi,(transition crates s c).serverId_eq.trans hid,?_⟩
  intro u enrollment hp
  rcases (transition crates s c).session_cases hi hp with ⟨hreq,⟨resp,hout⟩,hnew⟩ | ⟨hold,hother⟩
  · refine ⟨past.length,Machine.event (step crates) s c,by simp,⟨⟨resp,hreq,hout⟩,hid ▸ hnew⟩,?_⟩
    intro m g hm hlt
    simp only [List.length_append, List.length_singleton] at hlt
    omega
  · obtain ⟨i,b,hb,hdrew,hquiet⟩ := horigin u enrollment hold
    have hlt := (List.getElem?_eq_some_iff.mp hb).1
    refine ⟨i,b,by rw [List.getElem?_append_left hlt]; exact hb,hdrew,?_⟩
    intro m g hm hml hg
    by_cases hlast : m < past.length
    · rw [List.getElem?_append_left hlast] at hg
      exact hquiet m g hm hlast hg
    · have hmeq : m = past.length := by
        simp only [List.length_append, List.length_singleton] at hml
        omega
      obtain rfl : Machine.event (step crates) s c = g := by simpa [hmeq] using hg
      exact hother

/-- The key exchange at `i` and `k` that a record of `u` results from. -/
structure Exchange (crates : Crates) (serverId : String) (past : List Event) (u : String) (record : EnrollmentRecord)
    (i k : ℕ) : Prop where
  earlier : i < k
  undisturbed : NotEnrolling past u i k
  matched : ∃ b g req resp, past[i]? = some b ∧ past[k]? = some g ∧ Begun u resp b ∧ Completed req g ∧
    req.userId = u ∧
    Enrollment.complete crates (Enrollment.new crates serverId b.input.env.kyberSeed) (decodeCompletion crates req) =
      .ok record

/-- A completion that succeeds stores the outcome of the exchange it completes. -/
theorem completed_exchange {k : ℕ} {g : Event} {req : EnrollCompleteRequest}
    (hg : (history crates serverId calls)[k]? = some g) (hcompleted : Completed req g) :
    ∃ i record, Exchange crates serverId (history crates serverId calls) req.userId record i k ∧
      g.after.users req.userId = some record := by
  have ht := transition_at hg
  rw [hcompleted.1] at ht
  obtain ⟨enrollment,record,hp,hc,hafter⟩ := ht.completed_inv hcompleted.2
  have hlen : ((history crates serverId calls).take k).length = k := by
    have := (List.getElem?_eq_some_iff.mp hg).1
    rw [List.length_take]
    omega
  have horigin := Machine.history_invariant_at (J := SessionOrigin crates serverId)
    ⟨storeInvariant_new serverId,rfl,by simp [new]⟩ sessionOrigin_step hg
  obtain ⟨i,b,hb,⟨⟨resp,hbegun⟩,rfl⟩,hquiet⟩ := horigin.2.2 _ _ hp
  have hik : i < k := hlen ▸ (List.getElem?_eq_some_iff.mp hb).1
  rw [List.getElem?_take_of_lt hik] at hb
  refine ⟨i,record,⟨hik,?_,b,g,req,resp,hb,hg,hbegun,hcompleted,rfl,hc⟩,?_⟩
  · intro m f hm hmk hf
    exact hquiet m f hm (hlen.symm ▸ hmk) (by rw [List.getElem?_take_of_lt hmk]; exact hf)
  · rw [hafter]
    exact afterComplete_users ..

/-- A verification that let `u` in. -/
def LoggedIn (u : String) (method : VerifyMethod) (e : Event) : Prop :=
  e.input.request = .verify ⟨u,method⟩ ∧ ∃ message, e.output = .ok (.verify ⟨true,message⟩)

/-- What a login rests on besides the record. -/
def Proves (crates : Crates) (u : String) (record : EnrollmentRecord) (e : Event) : VerifyMethod → Prop
  | .totp code => ∃ s, Matched crates record code e s
  | .challenge _ ct sig => ∃ challenge, e.before.pendingChallenges u = some challenge ∧
      Dilithium.verifyDetached crates.dilithium3 record.dilithiumPublicKey (challenge.signingPayload ct)
        ((crates.hex.decode sig).getD []) = .ok ()

theorem LoggedIn.proves {j : ℕ} {e : Event} {method : VerifyMethod}
    (he : (history crates serverId calls)[j]? = some e) (h : LoggedIn u method e) :
    ∃ record, e.before.users u = some record ∧ Proves crates u record e method := by
  obtain ⟨hreq,message,hout⟩ := h
  cases method with
  | totp code =>
    have ha : TotpAnswered u code true e := ⟨hreq,message,hout⟩
    have hpast := ha.pastLimiter he
    obtain ⟨_,⟨record,hu⟩,_⟩ := (pastLimiter_iff u e).mp hpast
    exact ⟨record,hu,(totpAnswered_iff he hreq hu hpast).mp ha⟩
  | challenge nonce ct sig =>
    have ht := transition_at he
    rw [hreq, hout] at ht
    obtain ⟨record,challenge,hu,_,hp,hacceptable,_⟩ := ht.accepted_inv
    exact ⟨record,hu,challenge,hp,hacceptable.2.2⟩

/-- Every login of a user, by either method, goes back to one key exchange: the
begin that drew the key, the completion that used it, and nothing between. -/
theorem login_provenance (crates : Crates) (serverId : String) (calls : List Call) (u : String) :
    ∃ i k record, ∀ j e method, (history crates serverId calls)[j]? = some e → LoggedIn u method e →
      Exchange crates serverId (history crates serverId calls) u record i k ∧ k < j ∧
        Proves crates u record e method := by
  by_cases henrolled : ∃ (k : ℕ) (g : Event) (req : EnrollCompleteRequest),
      (history crates serverId calls)[k]? = some g ∧ Completed req g ∧ req.userId = u
  · obtain ⟨k,g,req,hg,hcompleted,rfl⟩ := henrolled
    obtain ⟨i,record,hexchange,hstored⟩ := completed_exchange hg hcompleted
    refine ⟨i,k,record,?_⟩
    intro j e method he hlogin
    obtain ⟨record',hu,hproves⟩ := hlogin.proves he
    obtain ⟨k',g',hkj,hg',req',hsame,hcompleted',_⟩ := record_origin he hu
    -- the completion behind this login is the only one of its user
    obtain rfl : k' = k := by
      rcases lt_trichotomy k' k with hlt | heq | hlt
      · exact absurd hsame.symm (hcompleted'.userId_ne hlt hg' hg hcompleted)
      · exact heq
      · exact absurd hsame (hcompleted.userId_ne hlt hg hg' hcompleted')
    obtain rfl : record' = record := Option.some.inj (hu.symm.trans (users_carried hkj hg he hstored))
    exact ⟨hexchange,hkj,hproves⟩
  · refine ⟨0,0,⟨[],[],""⟩,?_⟩
    intro j e method he hlogin
    obtain ⟨record,hu,_⟩ := hlogin.proves he
    obtain ⟨k,g,_,hg,req,hsame,hcompleted,_⟩ := record_origin he hu
    exact absurd ⟨k,g,req,hg,hcompleted,hsame⟩ henrolled

end PqAuthServer
end PqAuth
