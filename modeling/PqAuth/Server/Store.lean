import PqAuth.Server.Transition

/-! What a request leaves alone, and the invariant that makes a stored
credential immutable although completion overwrites the user map. -/
namespace PqAuth

/-- The lengths and identity of a record that `complete` lets through. -/
structure EnrollmentRecord.WellFormed (serverId : String) (record : EnrollmentRecord) : Prop where
  key : record.dilithiumPublicKey.length = Dilithium.publicKeySize
  seed : record.totpSeed.length = Enrollment.totpSeedLen
  identity : record.serverId = serverId

theorem Enrollment.complete_wellFormed {crates : Crates} {enrollment : ServerEnrollment}
    {response : EnrollmentResponse} {record : EnrollmentRecord}
    (h : complete crates enrollment response = .ok record) : record.WellFormed enrollment.serverId := by
  obtain ⟨_,hpk,_,_,rfl⟩ := complete_ok h
  exact ⟨hpk,deriveTotpSeed_length ..,rfl⟩

namespace PqAuthServer
variable {crates : Crates} {s s' : ServerInner} {env : Env} {request : Request} {reply : Reply}

/-- All per-user state. -/
structure Session where
  record : Option EnrollmentRecord
  enrollment : Option ServerEnrollment
  challenge : Option Challenge
  limit : Option (UInt32 × UInt64)

def session (s : ServerInner) (u : String) : Session :=
  ⟨s.users u,s.pendingEnrollments u,s.pendingChallenges u,s.rateLimits u⟩

/-- A request touches the session of its own user only. -/
theorem Transition.frame (ht : Transition crates s env request reply s') {u : String}
    (h : u ≠ request.userId) : session s' u = session s u := by
  cases ht <;> simp_all [session, afterBegin, afterComplete, afterIssue, afterAnswer, counted, logged, Request.userId]

theorem Transition.serverId_eq (ht : Transition crates s env request reply s') :
    s'.serverId = s.serverId := by
  cases ht <;> rfl

theorem Transition.limits_eq (ht : Transition crates s env request reply s') :
    s'.maxAttempts = s.maxAttempts ∧ s'.rateWindow = s.rateWindow := by
  cases ht <;> exact ⟨rfl,rfl⟩

theorem Transition.maxClockSkew_eq (ht : Transition crates s env request reply s') :
    s'.verifier.maxClockSkew = s.verifier.maxClockSkew := by
  cases ht
  case answered ho => rw [← ho]; exact ChallengeVerifier.verify_maxClockSkew ..
  all_goals rfl

/-- Enrolled users have no pending enrollment, so completion never overwrites a
record; only enrolled users hold challenges; every session was drawn by `new`. -/
structure StoreInvariant (crates : Crates) (s : ServerInner) : Prop where
  disjoint : ∀ u record, s.users u = some record → s.pendingEnrollments u = none
  challenged : ∀ u challenge, s.pendingChallenges u = some challenge → ∃ record, s.users u = some record
  records : ∀ u record, s.users u = some record → record.WellFormed s.serverId
  drawn : ∀ u enrollment, s.pendingEnrollments u = some enrollment →
    ∃ seed, enrollment = Enrollment.new crates s.serverId seed

theorem storeInvariant_new (serverId : String) : StoreInvariant crates (new serverId) :=
  ⟨by simp [new],by simp [new],by simp [new],by simp [new]⟩

theorem StoreInvariant.begin (hi : StoreInvariant crates s) (env : Env) {u : String} (hu : s.users u = none) :
    StoreInvariant crates (afterBegin crates s env u) := by
  refine ⟨?_,hi.challenged,hi.records,?_⟩
  · intro v record hv
    have hne : v ≠ u := by
      rintro rfl
      exact absurd (hu.symm.trans hv) (by simp)
    simpa [afterBegin, logged, hne] using hi.disjoint v record hv
  · intro v enrollment hv
    by_cases h : v = u
    · subst h
      exact ⟨env.kyberSeed,by simpa [afterBegin, logged] using hv.symm⟩
    · exact hi.drawn v enrollment (by simpa [afterBegin, logged, h] using hv)

theorem StoreInvariant.fail (hi : StoreInvariant crates s) (u : String) :
    StoreInvariant crates { s with pendingEnrollments := s.pendingEnrollments.remove u } := by
  refine ⟨?_,hi.challenged,hi.records,?_⟩
  · intro v record hv
    simp only [PartialMap.remove_apply]
    split
    · rfl
    · exact hi.disjoint v record hv
  · intro v enrollment hv
    simp only [PartialMap.remove_apply] at hv
    split at hv
    · cases hv
    · exact hi.drawn v enrollment hv

theorem StoreInvariant.complete (hi : StoreInvariant crates s) (env : Env) (u : String) {record : EnrollmentRecord}
    (hr : record.WellFormed s.serverId) : StoreInvariant crates (afterComplete s env u record) := by
  have husers (v : String) (record' : EnrollmentRecord)
      (hv : (afterComplete s env u record).users v = some record') :
      (v = u ∧ record = record') ∨ (v ≠ u ∧ s.users v = some record') := by
    by_cases h : v = u
    · subst h
      exact Or.inl ⟨rfl,by simpa using hv⟩
    · exact Or.inr ⟨h,by simpa [afterComplete, logged, h] using hv⟩
  refine ⟨?_,?_,?_,?_⟩
  · intro v record' hv
    rcases husers v record' hv with ⟨rfl,_⟩ | ⟨hne,hold⟩
    · exact afterComplete_pendingEnrollments ..
    · simpa [afterComplete, logged, hne] using hi.disjoint v record' hold
  · intro v challenge hv
    obtain ⟨record',hold⟩ := hi.challenged v challenge hv
    by_cases h : v = u
    · exact ⟨record,by simp [h]⟩
    · exact ⟨record',by simpa [afterComplete, logged, h] using hold⟩
  · intro v record' hv
    rcases husers v record' hv with ⟨_,rfl⟩ | ⟨_,hold⟩
    · exact hr
    · exact hi.records v record' hold
  · intro v enrollment hv
    by_cases h : v = u
    · simp [h] at hv
    · exact hi.drawn v enrollment (by simpa [afterComplete, logged, h] using hv)

theorem StoreInvariant.issue (hi : StoreInvariant crates s) (env : Env) {u : String} {record : EnrollmentRecord}
    (hu : s.users u = some record) : StoreInvariant crates (afterIssue s env u) := by
  refine ⟨hi.disjoint,?_,hi.records,hi.drawn⟩
  intro v challenge hv
  by_cases h : v = u
  · exact ⟨record,h ▸ hu⟩
  · exact hi.challenged v challenge (by simpa [afterIssue, counted, logged, h] using hv)

theorem StoreInvariant.answer (hi : StoreInvariant crates s) (env : Env) (u : String)
    (outcome : Except ChallengeError Unit × ChallengeVerifier) :
    StoreInvariant crates (afterAnswer s env u outcome) := by
  refine ⟨hi.disjoint,?_,hi.records,hi.drawn⟩
  intro v challenge hv
  by_cases h : v = u
  · simp [h] at hv
  · exact hi.challenged v challenge (by simpa [afterAnswer, logged, h] using hv)

theorem Transition.storeInvariant (ht : Transition crates s env request reply s')
    (hi : StoreInvariant crates s) : StoreInvariant crates s' := by
  cases ht
  case begun u hu => exact hi.begin env hu
  case enrollmentFailed req enrollment e hp hc => exact hi.fail req.userId
  case enrolled req enrollment record hp hc =>
    obtain ⟨seed,rfl⟩ := hi.drawn _ _ hp
    exact hi.complete env req.userId (Enrollment.complete_wellFormed hc)
  case issued u record hu hl => exact hi.issue env hu
  case answered u nonce ct sig record challenge outcome hu hl hp ho => exact hi.answer env u outcome
  all_goals exact ⟨hi.disjoint,hi.challenged,hi.records,hi.drawn⟩

theorem StoreInvariant.not_enrolled (hi : StoreInvariant crates s) {u : String} {enrollment : ServerEnrollment}
    (hp : s.pendingEnrollments u = some enrollment) : s.users u = none := by
  cases hu : s.users u with
  | none => rfl
  | some record => exact absurd ((hi.disjoint u record hu).symm.trans hp) (by simp)

/-- The life of an account. -/
inductive Account where
  | unknown
  | enrolling (enrollment : ServerEnrollment)
  | enrolled (record : EnrollmentRecord)
  deriving DecidableEq, Repr

/-- Enrollment may restart and may fail; an enrolled account stays as it is. -/
inductive Account.Next : Account → Account → Prop
  | stay (a) : Next a a
  | start (enrollment) : Next .unknown (.enrolling enrollment)
  | restart (old enrollment) : Next (.enrolling old) (.enrolling enrollment)
  | fail (enrollment) : Next (.enrolling enrollment) .unknown
  | finish (enrollment record) : Next (.enrolling enrollment) (.enrolled record)

theorem Account.Next.enrolled_eq {record : EnrollmentRecord} {b : Account}
    (h : Next (.enrolled record) b) : b = .enrolled record := by
  cases h
  rfl

def account (s : ServerInner) (u : String) : Account :=
  match s.users u with
  | some record => .enrolled record
  | none =>
    match s.pendingEnrollments u with
    | some enrollment => .enrolling enrollment
    | none => .unknown

theorem account_eq_enrolled (s : ServerInner) (u : String) (record : EnrollmentRecord) :
    account s u = .enrolled record ↔ s.users u = some record := by
  unfold account
  split
  · simp [*]
  · split <;> simp [*]

theorem account_eq_of_session {u : String} (h : session s' u = session s u) :
    account s' u = account s u := by
  obtain ⟨hu,hp,_,_⟩ := Session.mk.inj h
  unfold account
  rw [hu, hp]

/-- Under the invariant every request moves every account along its life. -/
theorem Transition.account_next (ht : Transition crates s env request reply s')
    (hi : StoreInvariant crates s) (v : String) : Account.Next (account s v) (account s' v) := by
  by_cases hv : v = request.userId
  · subst hv
    cases ht
    case begun u hu =>
      cases hp : s.pendingEnrollments u with
      | none => simpa [account, Request.userId, hu, hp, afterBegin, logged] using Account.Next.start _
      | some e => simpa [account, Request.userId, hu, hp, afterBegin, logged] using Account.Next.restart e _
    case enrollmentFailed req enrollment e hp hc =>
      have hu := hi.not_enrolled hp
      simpa [account, Request.userId, hu, hp] using Account.Next.fail enrollment
    case enrolled req enrollment record hp hc =>
      have hu := hi.not_enrolled hp
      simpa [account, Request.userId, hu, hp, afterComplete, logged] using
        Account.Next.finish enrollment record
    all_goals exact Account.Next.stay _
  · rw [account_eq_of_session (ht.frame hv)]
    exact .stay _

/-- A stored record survives every request. -/
theorem Transition.users_eq (ht : Transition crates s env request reply s')
    (hi : StoreInvariant crates s) {u : String} {record : EnrollmentRecord}
    (hu : s.users u = some record) : s'.users u = some record := by
  have hn := ht.account_next hi u
  rw [(account_eq_enrolled s u record).mpr hu] at hn
  exact (account_eq_enrolled s' u record).mp hn.enrolled_eq

end PqAuthServer
end PqAuth
