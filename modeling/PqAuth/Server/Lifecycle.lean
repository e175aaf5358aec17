import PqAuth.Server.AuditLog
import PqAuth.Server.Linearizability

/-! What the audit log of the service tells: it accounts for every reply, and the
records of one user spell the protocol of an account. -/
namespace PqAuth.PqAuthServer

section
variable {crates : Crates} {build : Build} {serverId : String} {R : SystemTime → SystemTime → Prop} [Std.Refl R]
  [IsTrans SystemTime R] {τ : Type} [DecidableEq τ] {boot : SystemTime}
  {ls : List (Mutex.Label τ Request Reply SystemTime)}
  {c : Mutex.Config τ Request Reply ServerInner SystemTime Draw.Value}

/-- Whose request it is and what it asks for. -/
def subject (request : Request) : String × String := (request.userId,request.action)

def recorded (entry : AuditEntry) : String × String := (entry.userId,entry.action)

private theorem recorded_entries (past : List Event) :
    ((past.map (observe crates)).filterMap Observation.entry).map recorded =
      ((past.map fun e => (e.input.request,e.output)).filter fun x => x.2.isOk).map fun x => subject x.1 := by
  rw [List.filterMap_map, List.map_filterMap, ← List.filterMap_eq_filter, List.filterMap_map, List.map_filterMap]
  congr 1
  funext e
  cases hok : e.output.isOk <;>
    simp [Observation.entry, observe, Option.guard, hok, recorded, subject, Call.userId]

/-- No update is lost or made twice: each answer that a client got has a record
of its own, and each record a request of its own. -/
theorem log_accounts (hrun : Served crates build R serverId boot ls c) (hfree : c.holder = none)
    (hsound : c.poisoned = false) :
    ((Mutex.received ls).filter fun x => x.2.isOk = true).map (fun x => subject x.1) ≤
        ((auditLog c.shared).map recorded : List _) ∧
      ((auditLog c.shared).map recorded : Multiset _) ≤ (Mutex.invocations ls).map (fun x => subject x.2) := by
  obtain ⟨calls,hshared,hreceived,hrequested⟩ := service_settled hrun hfree hsound
  rw [hshared, auditLog, auditLog_eq, recorded_entries]
  constructor
  · refine (Multiset.map_le_map (Multiset.filter_le_filter _ hreceived)).trans (le_of_eq ?_)
    rw [Multiset.filter_coe, Multiset.map_coe]
    simp only [Bool.decide_eq_true]
  · have hsubjects := Multiset.map_le_map (f := subject) hrequested
    rw [Multiset.map_coe, List.map_map, Multiset.map_map] at hsubjects
    refine le_trans ?_ hsubjects
    have hinputs := congrArg (List.map (subject ∘ Call.request))
      (Machine.history_inputs (step crates) (new serverId) calls)
    rw [List.map_map] at hinputs
    rw [← hinputs]
    have hsub := (List.filter_sublist (l := (history crates serverId calls).map fun e => (e.input.request,e.output))
      (p := fun x => x.2.isOk)).map fun x => subject x.1
    rw [List.map_map] at hsub
    exact hsub.subperm

end

/-- Two completions raced, one of them was answered. -/
theorem log_accounts_race : ∃ c,
    Served Transparent.crates .checked SystemTime.NotAfter "example.org" (some 1000) sampleRace c ∧
    ((Mutex.received sampleRace).filter fun x => x.2.isOk = true).map (fun x => subject x.1) ≤
      ((auditLog c.shared).map recorded : List _) ∧
    ((auditLog c.shared).map recorded : Multiset _) ≤ (Mutex.invocations sampleRace).map (fun x => subject x.2) := by
  obtain ⟨c,hrun,hfree,hsound⟩ := sampleRace_served .checked
  exact ⟨c,hrun,log_accounts hrun hfree hsound⟩

/-- What a record says was done. -/
inductive Action where
  | enrollBegin
  | enrollComplete
  | challengeIssued
  | verifyTotp
  | verifyChallenge
  deriving DecidableEq, Repr

def Action.name : Action → String
  | enrollBegin => "enroll_begin"
  | enrollComplete => "enroll_complete"
  | challengeIssued => "challenge_issued"
  | verifyTotp => "verify_totp"
  | verifyChallenge => "verify_challenge"

theorem Action.name_injective : Function.Injective Action.name := by
  intro a b h
  cases a <;> cases b <;> first | rfl | exact absurd h (by decide)

/-- How far an account has come, and whether it has a challenge to answer. -/
inductive Stage where
  | unknown
  | enrolling
  | enrolled (challenged : Bool)
  deriving DecidableEq, Repr

namespace Stage

def next : Stage → Action → Option Stage
  | unknown, .enrollBegin => some enrolling
  | enrolling, .enrollBegin => some enrolling
  | enrolling, .enrollComplete => some (enrolled false)
  | enrolled _, .challengeIssued => some (enrolled true)
  | enrolled challenged, .verifyTotp => some (enrolled challenged)
  | enrolled true, .verifyChallenge => some (enrolled false)
  | _, _ => none

/-- Where a word of actions leads; none if the protocol does not allow it. -/
def after (word : List Action) : Option Stage := word.foldlM next unknown

theorem after_append (word : List Action) (a : Action) : after (word ++ [a]) = (after word).bind (next · a) := by
  rw [after, List.foldlM_append]
  exact congrArg _ (funext fun q => by simp)

def isEnrolled : Stage → Bool
  | enrolled _ => true
  | _ => false

def isChallenged : Stage → Bool
  | enrolled challenged => challenged
  | _ => false

/-- The store agrees. An enrollment that failed leaves no record, so the account
may be enrolling without a session. -/
structure Holds (q : Stage) (s : ServerInner) (u : String) : Prop where
  users : PqAuthServer.isEnrolled s u = q.isEnrolled
  enrollment : (s.pendingEnrollments u).isSome = true → q = enrolling
  challenge : (s.pendingChallenges u).isSome = q.isChallenged

end Stage

variable {crates : Crates} {serverId u : String} {s s' : ServerInner} {env : Env} {request : Request} {reply : Reply}
  {q : Stage}

/-- The actions recorded for a user. -/
def trail (u : String) (log : List AuditEntry) : List String :=
  (log.filter (fun entry => entry.userId == u)).map AuditEntry.action

theorem trail_own {log : List AuditEntry} {entry : AuditEntry} (h : entry.userId = u) :
    trail u (log ++ [entry]) = trail u log ++ [entry.action] := by
  simp [trail, h]

theorem trail_other {log : List AuditEntry} {entry : AuditEntry} (h : entry.userId ≠ u) :
    trail u (log ++ [entry]) = trail u log := by
  simp [trail, h]

theorem Transition.trail_frame (ht : Transition crates s env request reply s') (h : u ≠ request.userId) :
    trail u (auditLog s') = trail u (auditLog s) := by
  rw [auditLog, ht.auditLog_eq, Observation.entry]
  split
  · exact trail_other (Ne.symm h)
  · exact congrArg (trail u) (List.append_nil _)

theorem holds_new (serverId u : String) : Stage.unknown.Holds (new serverId) u :=
  ⟨rfl,(fun h => by cases h),rfl⟩

theorem Stage.Holds.frame (h : q.Holds s u) (hs : session s' u = session s u) : q.Holds s' u := by
  obtain ⟨husers,hpending,hchallenge,_⟩ := Session.mk.inj hs
  refine ⟨?_,?_,?_⟩
  · rw [← h.users, PqAuthServer.isEnrolled, PqAuthServer.isEnrolled, PartialMap.containsKey, PartialMap.containsKey,
      husers]
  · rw [hpending]
    exact h.enrollment
  · rw [hchallenge]
    exact h.challenge

theorem Stage.Holds.of_none (h : q.Holds s u) (hu : s.users u = none) :
    q.next .enrollBegin = some .enrolling ∧ q.isChallenged = false := by
  have husers := h.users
  rw [PqAuthServer.isEnrolled, PartialMap.containsKey, hu] at husers
  cases q with
  | unknown => exact ⟨rfl,rfl⟩
  | enrolling => exact ⟨rfl,rfl⟩
  | enrolled => cases husers

theorem Stage.Holds.of_some (h : q.Holds s u) {record : EnrollmentRecord} (hu : s.users u = some record) :
    q = .enrolled (s.pendingChallenges u).isSome ∧ s.pendingEnrollments u = none := by
  have husers := h.users
  rw [PqAuthServer.isEnrolled, PartialMap.containsKey, hu] at husers
  have hchallenge := h.challenge
  have hpending := h.enrollment
  cases q with
  | unknown => cases husers
  | enrolling => cases husers
  | enrolled challenged =>
    refine ⟨by rw [hchallenge]; rfl,?_⟩
    rw [← Option.not_isSome_iff_eq_none]
    intro hp
    cases hpending hp

/-- A request records nothing for a user, or one action that the protocol allows. -/
theorem Transition.follows (ht : Transition crates s env request reply s') (hq : q.Holds s u) :
    (trail u (auditLog s') = trail u (auditLog s) ∧ q.Holds s' u) ∨
      ∃ a q', trail u (auditLog s') = trail u (auditLog s) ++ [a.name] ∧ q.next a = some q' ∧ q'.Holds s' u := by
  by_cases hown : u = request.userId
  · subst hown
    cases ht
    case begun u hu =>
      obtain ⟨hnext,hchallenge⟩ := hq.of_none hu
      refine Or.inr ⟨.enrollBegin,.enrolling,trail_own rfl,hnext,?_,fun _ => rfl,hq.challenge.trans hchallenge⟩
      exact congrArg Option.isSome hu
    case enrollmentFailed req enrollment e hp hc =>
      obtain rfl := hq.enrollment (congrArg Option.isSome hp)
      exact Or.inl ⟨rfl,hq.users,fun _ => rfl,hq.challenge⟩
    case enrolled req enrollment record hp hc =>
      obtain rfl := hq.enrollment (congrArg Option.isSome hp)
      refine Or.inr ⟨.enrollComplete,.enrolled false,trail_own rfl,rfl,?_,?_,hq.challenge⟩
      · exact congrArg Option.isSome (afterComplete_users ..)
      · intro hsome
        have hnone : (afterComplete s env req.userId record).pendingEnrollments req.userId = none :=
          afterComplete_pendingEnrollments ..
        cases (congrArg Option.isSome hnone).symm.trans hsome
    case issued u record hu hl =>
      obtain ⟨rfl,hp⟩ := hq.of_some hu
      refine Or.inr ⟨.challengeIssued,.enrolled true,trail_own rfl,rfl,hq.users,?_,?_⟩
      · intro hsome
        cases (congrArg Option.isSome hp).symm.trans hsome
      · exact congrArg Option.isSome (afterIssue_pendingChallenges ..)
    case totp u code record valid hu hl hv =>
      obtain ⟨hstage,_⟩ := hq.of_some hu
      refine Or.inr ⟨.verifyTotp,q,trail_own rfl,?_,hq.users,hq.enrollment,hq.challenge⟩
      rw [hstage]
      rfl
    case answered u nonce ct sig record challenge outcome hu hl hp ho =>
      obtain ⟨hstage,hnone⟩ : q = .enrolled (s.pendingChallenges u).isSome ∧ _ := hq.of_some hu
      rw [hp] at hstage
      subst hstage
      refine Or.inr ⟨.verifyChallenge,.enrolled false,trail_own rfl,rfl,hq.users,?_,?_⟩
      · intro hsome
        cases (congrArg Option.isSome hnone).symm.trans hsome
      · exact congrArg Option.isSome (afterAnswer_pendingChallenges ..)
    all_goals exact Or.inl ⟨rfl,hq.users,hq.enrollment,hq.challenge⟩
  · exact Or.inl ⟨ht.trail_frame hown,hq.frame (ht.frame hown)⟩

/-- Every run follows the protocol of every account. -/
theorem trail_final (crates : Crates) (serverId : String) (calls : List Call) (u : String) :
    ∃ word q, trail u (auditLog (final crates serverId calls)) = word.map Action.name ∧
      Stage.after word = some q ∧ q.Holds (final crates serverId calls) u := by
  refine Machine.final_invariant (I := fun s => ∃ word q, trail u (auditLog s) = word.map Action.name ∧
    Stage.after word = some q ∧ q.Holds s u) ?_ ⟨[],.unknown,rfl,rfl,holds_new serverId u⟩ calls
  rintro s c ⟨word,q,htrail,hafter,hq⟩
  rcases (transition crates s c).follows hq with ⟨hsame,hq'⟩ | ⟨a,q',hmore,hnext,hq'⟩
  · exact ⟨word,q,hsame.trans htrail,hafter,hq'⟩
  · refine ⟨word ++ [a],q',?_,?_,hq'⟩
    · rw [hmore, htrail, List.map_append]
      rfl
    · rw [Stage.after_append, hafter]
      exact hnext

section
variable {build : Build} {R : SystemTime → SystemTime → Prop} [Std.Refl R] [IsTrans SystemTime R] {τ : Type}
  [DecidableEq τ] {boot : SystemTime} {ls : List (Mutex.Label τ Request Reply SystemTime)}
  {c : Mutex.Config τ Request Reply ServerInner SystemTime Draw.Value}

/-- Whenever the lock is free, the log spells for each user a word of the
protocol, and that word alone says whether the user is enrolled and has a
challenge to answer. -/
theorem log_tells_stage (hrun : Served crates build R serverId boot ls c) (hfree : c.holder = none)
    (hsound : c.poisoned = false) (u : String) :
    ∃ word q, trail u (auditLog c.shared) = word.map Action.name ∧ Stage.after word = some q ∧ q.Holds c.shared u := by
  obtain ⟨calls,hshared,_⟩ := service_settled hrun hfree hsound
  rw [hshared]
  exact trail_final crates serverId calls u

end

/-- After two completions that raced. -/
theorem log_tells_stage_race : ∃ c,
    Served Transparent.crates .checked SystemTime.NotAfter "example.org" (some 1000) sampleRace c ∧
    ∃ word q, trail "alice" (auditLog c.shared) = word.map Action.name ∧ Stage.after word = some q ∧
      q.Holds c.shared "alice" := by
  obtain ⟨c,hrun,hfree,hsound⟩ := sampleRace_served .checked
  exact ⟨c,hrun,log_tells_stage hrun hfree hsound "alice"⟩

/-- Some time is past the user's window. -/
theorem passes_anew (hmax : 1 ≤ s.maxAttempts) (hwidth : s.rateWindow = 300) (u : String) :
    ∃ now, passes s (envAt now) u = true := by
  cases hentry : s.rateLimits u with
  | none =>
    refine ⟨0,?_⟩
    rw [passes, hentry, attempt_new]
    exact decide_eq_true hmax
  | some entry =>
    obtain ⟨n,start⟩ := entry
    refine ⟨start + 301,?_⟩
    have hpast : start + 301 - start > 300 := by
      rw [UInt64.add_comm, UInt64.add_sub_cancel]
      decide
    rw [passes, hentry, hwidth]
    exact congrArg Prod.fst (if_pos hpast)

/-- An enrollment under way has a session to complete. -/
private def Open (q : Stage) (s : ServerInner) (u : String) : Prop :=
  q = .enrolling → (s.pendingEnrollments u).isSome = true

/-- What the protocol allows can be done. -/
private theorem realisable (hx : crates.hex.RoundTrip) (hs : crates.kyber768.Sizes) (hi : StoreInvariant crates s)
    (hmax : 1 ≤ s.maxAttempts) (hwidth : s.rateWindow = 300) {a : Action} {q' : Stage} (hq : q.Holds s u)
    (hopen : Open q s u) (hnext : q.next a = some q') : ∃ c,
      trail u (auditLog (step crates s c).2) = trail u (auditLog s) ++ [a.name] ∧ Open q' (step crates s c).2 u := by
  have hclosed {t : ServerInner} {challenged : Bool} : Open (.enrolled challenged) t u := fun h => by cases h
  have hstored (b : Bool) (hb : q = .enrolled b) : ∃ record, s.users u = some record := by
    subst hb
    exact Option.isSome_iff_exists.mp hq.users
  obtain ⟨now,hl⟩ := passes_anew hmax hwidth u
  cases a with
  | enrollBegin =>
    have hnone : q.isEnrolled = false := by
      cases q with
      | enrolled => cases hnext
      | _ => rfl
    have hu : s.users u = none := Option.isNone_iff_eq_none.mp (Option.isSome_eq_false_iff.mp (hq.users.trans hnone))
    refine ⟨⟨envAt now,.enrollBegin u⟩,?_⟩
    rw [step_begin hu]
    refine ⟨trail_own rfl,fun _ => ?_⟩
    exact congrArg Option.isSome (afterBegin_pendingEnrollments ..)
  | enrollComplete =>
    obtain rfl : q = .enrolling := by
      cases q with
      | enrolling => rfl
      | _ => cases hnext
    obtain rfl := Option.some.inj hnext
    obtain ⟨enrollment,hp⟩ := Option.isSome_iff_exists.mp (hopen rfl)
    obtain ⟨seed,rfl⟩ := hi.drawn u enrollment hp
    refine ⟨⟨envAt now,.enrollComplete (honestRequest crates u seed (List.replicate Dilithium.publicKeySize 0) [])⟩,?_⟩
    rw [step_complete hx hs (List.length_replicate ..) hp]
    exact ⟨trail_own rfl,hclosed⟩
  | challengeIssued =>
    cases q with
    | enrolled challenged =>
      obtain rfl := Option.some.inj hnext
      obtain ⟨record,hu⟩ := hstored challenged rfl
      refine ⟨⟨envAt now,.issueChallenge u⟩,?_⟩
      rw [step_issue hu hl]
      exact ⟨trail_own rfl,hclosed⟩
    | _ => cases hnext
  | verifyTotp =>
    cases q with
    | enrolled challenged =>
      obtain rfl := Option.some.inj hnext
      obtain ⟨record,hu⟩ := hstored challenged rfl
      refine ⟨⟨envAt now,.verify ⟨u,.totp 0⟩⟩,?_⟩
      rw [Transition.step_eq (.totp hu hl rfl)]
      exact ⟨trail_own rfl,hclosed⟩
    | _ => cases hnext
  | verifyChallenge =>
    obtain rfl : q = .enrolled true := by
      match q, hnext with
      | .enrolled true, _ => rfl
    obtain rfl := Option.some.inj hnext
    obtain ⟨record,hu⟩ := hstored true rfl
    obtain ⟨challenge,hp⟩ := Option.isSome_iff_exists.mp hq.challenge
    refine ⟨⟨envAt now,.verify ⟨u,.challenge "" 0 ""⟩⟩,?_⟩
    rw [Transition.step_eq (.answered hu hl hp rfl)]
    exact ⟨trail_own rfl,hclosed⟩

private theorem realised (hx : crates.hex.RoundTrip) (hs : crates.kyber768.Sizes) (serverId u : String)
    {word : List Action} (hword : Stage.after word = some q) : ∃ calls,
      trail u (auditLog (final crates serverId calls)) = word.map Action.name ∧
        q.Holds (final crates serverId calls) u ∧ Open q (final crates serverId calls) u := by
  induction word using List.reverseRecOn generalizing q with
  | nil =>
    obtain rfl := Option.some.inj hword
    exact ⟨[],rfl,holds_new serverId u,fun h => by cases h⟩
  | append_singleton word a ih =>
    rw [Stage.after_append] at hword
    obtain ⟨p,hp,hnext⟩ := Option.bind_eq_some_iff.mp hword
    obtain ⟨calls,htrail,hholds,hopen⟩ := ih hp
    obtain ⟨hmax,hwidth⟩ := limits_final crates serverId calls
    have hlimit : 1 ≤ (final crates serverId calls).maxAttempts := by rw [hmax]; decide
    obtain ⟨c,hmore,hopen'⟩ :=
      realisable hx hs (storeInvariant_final crates serverId calls) hlimit hwidth hholds hopen hnext
    have hfinal : final crates serverId (calls ++ [c]) = (step crates (final crates serverId calls) c).2 :=
      Machine.final_append ..
    refine ⟨calls ++ [c],?_⟩
    rw [hfinal]
    refine ⟨by rw [hmore, htrail, List.map_append]; rfl,?_,hopen'⟩
    -- the record added tells which action it was, and so the stage
    rcases (transition crates (final crates serverId calls) c).follows hholds with ⟨hsame,_⟩ | ⟨b,q',hother,hb,hq'⟩
    · exact absurd (hmore.symm.trans hsame) (by simp)
    · have hname := List.append_cancel_left (hother.symm.trans hmore)
      obtain rfl := Action.name_injective (List.singleton_inj.mp hname)
      obtain rfl := Option.some.inj (hb.symm.trans hnext)
      exact hq'

/-- The records of a user spell exactly the words of the protocol: no run leaves
another trail, and each of them is the trail of some run. -/
theorem trail_iff (hx : crates.hex.RoundTrip) (hs : crates.kyber768.Sizes) (serverId u : String)
    (word : List Action) :
    (∃ calls, trail u (auditLog (final crates serverId calls)) = word.map Action.name) ↔
      (Stage.after word).isSome = true := by
  constructor
  · rintro ⟨calls,htrail⟩
    obtain ⟨word',q,hword,hafter,_⟩ := trail_final crates serverId calls u
    obtain rfl := Action.name_injective.list_map (htrail.symm.trans hword)
    exact Option.isSome_of_eq_some hafter
  · intro hallowed
    obtain ⟨q,hq⟩ := Option.isSome_iff_exists.mp hallowed
    obtain ⟨calls,htrail,_⟩ := realised hx hs serverId u hq
    exact ⟨calls,htrail⟩

/-- Nobody logs in before enrolling. -/
theorem trail_iff_early : ¬ ∃ calls, trail "alice" (auditLog (final Transparent.crates "example.org" calls)) =
    [Action.enrollBegin,.verifyTotp].map Action.name :=
  mt (trail_iff Transparent.hex_roundTrip Transparent.kyber768_sizes "example.org" "alice" _).mp (by decide)

end PqAuth.PqAuthServer
