import Mathlib.Data.List.Flatten
import PqAuth.Foundation.Mutex
import PqAuth.Server.LimiterArithmetic
import PqAuth.Source.Locked

/-! The service runs its handlers on many threads behind one mutex. Each critical
section performs one step of the server, or panics: in its arithmetic, or because
the clock is before 1970. -/
namespace PqAuth

namespace SystemTime

/-- A reading as the number of seconds it gives; what a failed one gives is never used. -/
def secs (t : SystemTime) : UInt64 := t.getD 0

/-- The clock did not step back from one reading to the next. -/
def NotAfter : SystemTime → SystemTime → Prop
  | none, _ => True
  | some _, none => False
  | some a, some b => a ≤ b

instance : DecidableRel NotAfter
  | none, _ => isTrue trivial
  | some _, none => isFalse id
  | some a, some b => inferInstanceAs (Decidable (a ≤ b))

instance : Std.Refl NotAfter where
  refl
    | none => trivial
    | some a => UInt64.le_refl a

instance : IsTrans SystemTime NotAfter where
  trans
    | none, _, _, _, _ => trivial
    | some _, none, _, h, _ => h.elim
    | some _, some _, none, _, h => h
    | some _, some _, some _, h, h' => UInt64.le_trans h h'

theorem NotAfter.isSome {a b : SystemTime} (h : NotAfter a b) (ha : a.isSome = true) : b.isSome = true := by
  cases a with
  | none => cases ha
  | some a =>
    cases b with
    | none => exact h.elim
    | some b => rfl

theorem NotAfter.secs_le {a b : SystemTime} (h : NotAfter a b) : a.secs ≤ b.secs := by
  cases a with
  | none => exact UInt64.zero_le
  | some a =>
    cases b with
    | none => exact h.elim
    | some b => exact h

end SystemTime

/-- A request with the readings and draws made for it. A reading it does not make may be anything. -/
structure TimedCall where
  limitNow : SystemTime
  ts : SystemTime
  auditNow : SystemTime
  kyberSeed : Bytes
  nonce : Nonce
  request : Request

/-- The call it is if no reading fails. -/
def TimedCall.call (c : TimedCall) : Call :=
  ⟨⟨c.limitNow.secs,c.ts.secs,c.auditNow.secs,c.kyberSeed,c.nonce⟩,c.request⟩

/-- All readings at one time, for what does not depend on the others. -/
def TimedCall.instant (t : SystemTime) (request : Request) : TimedCall := ⟨t,t,t,[],Nonce.ofBytes [],request⟩

namespace PqAuthServer
open Locked Critical.Handler
variable {crates : Crates} {build : Build} {R : SystemTime → SystemTime → Prop}

/-- The readings of a call, in the order they are made. -/
def readings (c : TimedCall) : List SystemTime := [c.limitNow,c.ts,c.auditNow]

theorem secs_readings (xs : List TimedCall) : (xs.flatMap readings).map SystemTime.secs =
    (xs.map TimedCall.call).flatMap fun c => [c.env.limitNow,c.env.ts,c.env.auditNow] := by
  rw [List.map_flatMap, List.flatMap_map]
  rfl

/-- Those made on the way to an answer once the limiter let the request pass. -/
def later (c : TimedCall) : List SystemTime :=
  match c.request.limitedUser with
  | some _ => [c.ts,c.auditNow]
  | none => [c.auditNow]

theorem later_subset (c : TimedCall) : later c ⊆ readings c := by
  unfold later readings
  split <;> simp

/-- The environment of an instant. -/
def envAt (now : UInt64) : Env := ⟨now,now,now,[],Nonce.ofBytes []⟩

/-- What the limiter does in the given build at the given reading; `none` is a panic. -/
def limitOutcome : Build → ServerInner → SystemTime → String → Option (Except ServerError Unit × ServerInner)
  | _, _, none, _ => none
  | .release, s, some now, u => some ((checkRateLimit (envAt now) u).exec s)
  | .checked, s, some now, u => checkRateLimitChecked (envAt now) u s

/-- The limiter, once a request reaches it, panics. -/
def limiterAborts (build : Build) (s : ServerInner) (c : TimedCall) : Bool :=
  match c.request.limitedUser with
  | some u => s.users.containsKey u && (limitOutcome build s c.limitNow u).isNone
  | none => false

/-- A call that panics, in the limiter or at a reading on the way to its answer. -/
def abortsIn (crates : Crates) (build : Build) (s : ServerInner) (c : TimedCall) : Bool :=
  limiterAborts build s c || ((step crates s c.call).1.isOk && (later c).any Option.isNone)

theorem none_notMem_later {c : TimedCall} {now : UInt64} (haudit : c.auditNow = some now)
    (h : c.request.limitedUser = none ∨ ∃ ts, c.ts = some ts) : none ∉ later c := by
  unfold later
  rcases h with h | ⟨ts,hts⟩
  · simp [h, haudit]
  · split <;> simp [hts, haudit]

/-- The server as the object behind the mutex. -/
def object (crates : Crates) (build : Build) : Mutex.Object Request Reply TimedCall ServerInner SystemTime :=
  ⟨fun s c => step crates s c.call,abortsIn crates build,TimedCall.request,readings⟩

abbrev Performed (crates : Crates) (build : Build) (R : SystemTime → SystemTime → Prop) (request : Request)
    (s : ServerInner) (lo : SystemTime) : Option Reply → ServerInner → SystemTime → Prop :=
  Mutex.Performs R (object crates build) request s lo

section
variable {s s' : ServerInner} {lo last : SystemTime} {request : Request} {reply : Reply} {u : String}

theorem atomic_of_transition (c : TimedCall) (ht : Transition crates s c.call.env c.request reply s')
    (hlimit : limiterAborts build s c = false) (hlater : reply.isOk = true → none ∉ later c) :
    (object crates build).atomic (some s) c = (some reply,some s') := by
  have hstep : step crates s c.call = (reply,s') := ht.step_eq
  have ha : abortsIn crates build s c = false := by
    rw [abortsIn, hlimit, hstep, Bool.false_or]
    cases hok : reply.isOk with
    | false => rfl
    | true =>
      rw [Bool.true_and, List.any_eq_false]
      rintro t ht hnone
      rw [Option.isNone_iff_eq_none] at hnone
      exact hlater hok (hnone ▸ ht)
  change Poison.step (abortsIn crates build) (fun s c => step crates s c.call) (some s) c = _
  rw [Poison.step, ha, hstep]
  rfl

theorem performs_of_transition (c : TimedCall) (ht : Transition crates s c.call.env c.request reply s')
    (hlimit : limiterAborts build s c = false) (hlater : reply.isOk = true → none ∉ later c)
    (htimes : (lo :: (readings c ++ [last])).Pairwise R) :
    Performed crates build R c.request s lo (some reply) s' last :=
  ⟨c,rfl,htimes,atomic_of_transition c ht hlimit hlater⟩

/-- An answer that a failed reading prevents. -/
theorem performs_of_failed (c : TimedCall) (ht : Transition crates s c.call.env c.request reply s')
    (hok : reply.isOk = true) (hnone : none ∈ later c) (htimes : (lo :: (readings c ++ [last])).Pairwise R)
    (t : ServerInner) :
    Performed crates build R c.request s lo none t last := by
  have hstep : step crates s c.call = (reply,s') := ht.step_eq
  have ha : abortsIn crates build s c = true := by
    rw [abortsIn, hstep, hok, List.any_eq_true.mpr ⟨none,hnone,rfl⟩]
    exact Bool.or_true _
  exact @Mutex.Performs.of_abort _ _ _ _ _ R (object crates build) s lo last c ha htimes t

variable {c : TimedCall}

theorem limiterAborts_unlimited (h : c.request.limitedUser = none) : limiterAborts build s c = false := by
  rw [limiterAborts, h]

theorem limiterAborts_unknown (h : c.request.limitedUser = some u) (hu : s.users u = none) :
    limiterAborts build s c = false := by
  rw [limiterAborts, h]
  simp [PartialMap.containsKey, hu]

theorem limiterAborts_limited {record : EnrollmentRecord} (h : c.request.limitedUser = some u)
    (hu : s.users u = some record) : limiterAborts build s c = (limitOutcome build s c.limitNow u).isNone := by
  rw [limiterAborts, h]
  simp [PartialMap.containsKey, hu]

/-- The limiter does not panic at a reading whose arithmetic the build can do. -/
theorem limiterAborts_of_fits {now : UInt64} (hnow : c.limitNow = some now)
    (h : build = .release ∨ ∀ u, c.request.limitedUser = some u → Fits s (envAt now) u) :
    limiterAborts build s c = false := by
  unfold limiterAborts
  rw [hnow]
  cases hl : c.request.limitedUser with
  | none => rfl
  | some u =>
    cases build with
    | release => exact Bool.and_false _
    | checked =>
      rcases h with h | h
      · cases h
      · dsimp only
        rw [limitOutcome, checked_of_fits (h u hl)]
        exact Bool.and_false _

theorem limitOutcome_eq_some {now : UInt64} {outcome : Except ServerError Unit × ServerInner}
    (h : limitOutcome build s (some now) u = some outcome) :
    outcome = (if passes s (envAt now) u then .ok () else .error .rateLimited,counted s (envAt now) u) := by
  rw [← exec_checkRateLimit]
  cases build with
  | release => exact (Option.some.inj h).symm
  | checked =>
    have hfits : Fits s (envAt now) u := fits_of_checked (Option.isSome_of_eq_some h)
    exact Option.some.inj (h.symm.trans (checked_of_fits hfits))

theorem wp_nowUnix {Q : Option (Except ServerError UInt64) → ServerInner → SystemTime → Prop} :
    wp R Q nowUnix s last = ∀ t, R last t → match t with
      | some now => Q (some (.ok now)) s t
      | none => Q none s t := by
  rw [nowUnix, wp_bind, wp_now]
  apply forall_congr
  intro t
  cases t <;> rfl

theorem insert_insert (m : PartialMap String (UInt32 × UInt64)) (u : String) (entry entry' : UInt32 × UInt64) :
    (m.insert u entry).insert u entry' = m.insert u entry' := Function.update_idem ..

/-- The limiter as a critical section makes one reading. -/
theorem wp_checkRateLimit {Q : Option (Except ServerError Unit) → ServerInner → SystemTime → Prop}
    (h : ∀ t, R last t → match limitOutcome build s t u with
      | some (r,s') => Q (some r) s' t
      | none => ∀ s', Q none s' t) :
    wp R Q (Locked.checkRateLimit build u) s last := by
  unfold Locked.checkRateLimit
  simp only [wp_bind, wp_nowUnix, wp_get, wp_set]
  intro t hnow
  have hout := h t hnow
  cases t with
  | none => exact hout s
  | some now =>
    dsimp only
    cases he : (s.rateLimits u).getD (0,now) with
    | mk n start =>
    cases build with
    | release =>
      have hexec := exec_checkRateLimit_eq s (envAt now) u he
      by_cases hx : now - start > s.rateWindow
      · rw [limitOutcome, hexec.trans (if_pos hx)] at hout
        simp only [subtract, wp_pure, if_pos hx, wp_modify, insert_insert]
        exact hout
      · rw [limitOutcome, hexec.trans (if_neg hx)] at hout
        simp only [subtract, add, if_neg hx, wp_bind, wp_pure, wp_modify, insert_insert, wp_ite, wp_throw]
        split_ifs at hout ⊢ <;> exact hout
    | checked =>
      rw [limitOutcome, checkRateLimitChecked_eq s (envAt now) u he] at hout
      simp only [subtract, add, envAt] at hout ⊢
      cases hsub : Words.checkedSub now start with
      | none =>
        rw [hsub] at hout
        exact hout _
      | some elapsed =>
        simp only [hsub, Option.bind_some, wp_pure] at hout ⊢
        by_cases hx : elapsed > s.rateWindow
        · rw [if_pos hx] at hout ⊢
          simpa only [wp_modify, insert_insert] using hout
        · rw [if_neg hx] at hout ⊢
          cases hadd : Words.checkedAdd32 n 1 with
          | none =>
            rw [hadd] at hout
            exact hout _
          | some attempts =>
            simp only [hadd, Option.bind_some, wp_bind, wp_pure, wp_modify, insert_insert, wp_ite, wp_throw]
              at hout ⊢
            split_ifs at hout ⊢ <;> exact hout

theorem readings_pairwise [IsTrans SystemTime R] (hlo : R lo c.limitNow) (hts : R c.limitNow c.ts)
    (haudit : R c.ts c.auditNow) (hlast : R c.auditNow last) : (lo :: (readings c ++ [last])).Pairwise R := by
  apply List.isChain_iff_pairwise.mp
  simp [readings, hlo, hts, haudit, hlast]

variable [Std.Refl R] [IsTrans SystemTime R]

theorem readings_instant (lo : SystemTime) (request : Request) :
    (lo :: (readings (.instant lo request) ++ [lo])).Pairwise R :=
  readings_pairwise (refl_of R lo) (refl_of R lo) (refl_of R lo) (refl_of R lo)

/-- One more reading leads to the answer, and it may fail. -/
theorem performs_recorded {t : SystemTime} (seed : Bytes) {response : Response} (hl : request.limitedUser = none)
    (ht : R lo t)
    (htrans : Transition crates s ⟨lo.secs,lo.secs,t.secs,seed,Nonce.ofBytes []⟩ request (.ok response) s') :
    (t = none → ∀ s'', Performed crates build R request s lo none s'' t) ∧
      (t.isSome = true → Performed crates build R request s lo (some (.ok response)) s' t) := by
  have htimes := @readings_pairwise R lo t ⟨lo,lo,t,seed,Nonce.ofBytes [],request⟩ _ (refl_of R _) (refl_of R _) ht
    (refl_of R _)
  constructor
  · rintro rfl s''
    exact performs_of_failed ⟨lo,lo,none,seed,Nonce.ofBytes [],request⟩ htrans rfl (by simp [later, hl]) htimes s''
  · intro ht'
    obtain ⟨now,rfl⟩ := Option.isSome_iff_exists.mp ht'
    exact performs_of_transition ⟨lo,lo,some now,seed,Nonce.ofBytes [],request⟩ htrans (limiterAborts_unlimited hl)
      (fun _ => none_notMem_later rfl (.inl hl)) htimes

theorem performs_enrollBegin (s : ServerInner) (lo : SystemTime) (u : String) :
    wp R (fun r => Performed crates build R (.enrollBegin u) s lo (r.map (Except.map .enrollBegin)))
      (Locked.enrollBegin crates u) s lo := by
  cases hu : s.users u with
  | some record =>
    have ht : Transition crates s (envAt lo.secs) (.enrollBegin u) _ s := .alreadyEnrolled hu
    simp only [Locked.enrollBegin, wp_bind, wp_get, PartialMap.containsKey, hu, Option.isSome_some, if_true, wp_throw]
    exact performs_of_transition (.instant lo (.enrollBegin u)) ht (limiterAborts_unlimited rfl)
      (fun hok => by cases hok) (readings_instant lo _)
  | none =>
    simp only [Locked.enrollBegin, drawSeed, Locked.audit, wp_bind, wp_get, PartialMap.containsKey, hu,
      Option.isSome_none, Bool.false_eq_true, if_false]
    intro seed t ht
    cases t with
    | none => exact (performs_recorded seed rfl ht (.begun hu)).1 rfl _
    | some now => exact (performs_recorded seed rfl ht (.begun hu)).2 rfl

theorem performs_enrollComplete (s : ServerInner) (lo : SystemTime) (req : EnrollCompleteRequest) :
    wp R (fun r => Performed crates build R (.enrollComplete req) s lo (r.map (Except.map .enrollComplete)))
      (Locked.enrollComplete crates req) s lo := by
  have hinstant := @readings_instant R _ _ lo (.enrollComplete req)
  cases hp : s.pendingEnrollments req.userId with
  | none =>
    have ht : Transition crates s (envAt lo.secs) (.enrollComplete req) _ s := .noPendingEnrollment hp
    simp only [Locked.enrollComplete, wp_bind, wp_get, hp, wp_throw]
    exact performs_of_transition (.instant lo (.enrollComplete req)) ht (limiterAborts_unlimited rfl)
      (fun hok => by cases hok) hinstant
  | some enrollment =>
    simp only [Locked.enrollComplete, wp_bind, wp_get, hp, wp_set]
    cases hc : Enrollment.complete crates enrollment (decodeCompletion crates req) with
    | error e =>
      have ht : Transition crates s (envAt lo.secs) (.enrollComplete req) _ _ := .enrollmentFailed hp hc
      unfold decodeCompletion at hc
      simp only [hc, wp_throw]
      exact performs_of_transition (.instant lo (.enrollComplete req)) ht (limiterAborts_unlimited rfl)
        (fun hok => by cases hok) hinstant
    | ok record =>
      have hok := hc
      unfold decodeCompletion at hc
      simp only [hc, Locked.audit, wp_bind]
      intro t ht
      cases t with
      | none => exact (performs_recorded [] rfl ht (.enrolled hp hok)).1 rfl _
      | some now => exact (performs_recorded [] rfl ht (.enrolled hp hok)).2 rfl

/-- What follows the limiter in a request of an enrolled user. -/
theorem wp_limited {α : Type} {record : EnrollmentRecord} {f : α → Response} {m : LockedM α}
    (hl : request.limitedUser = some u) (hu : s.users u = some record)
    (hrefused : ∀ env, passes s env u = false →
      Transition crates s env request (.error .rateLimited) (counted s env u))
    (hpassed : ∀ now, R lo (some now) →
      (∀ c : TimedCall, c.request = request → c.limitNow = some now → limiterAborts build s c = false) →
      passes s (envAt now) u = true →
      wp R (fun r => Performed crates build R request s lo (r.map (Except.map f))) m (counted s (envAt now) u)
        (some now)) :
    wp R (fun r => Performed crates build R request s lo (r.map (Except.map f)))
      (Locked.checkRateLimit build u >>= fun _ => m) s lo := by
  rw [wp_bind]
  apply wp_checkRateLimit
  intro t hnow
  have htimes := @readings_pairwise R lo t ⟨t,t,t,[],Nonce.ofBytes [],request⟩ _ hnow (refl_of R _) (refl_of R _)
    (refl_of R _)
  have haborts (c : TimedCall) (hc : c.request = request) (hnow : c.limitNow = t) :
      limiterAborts build s c = (limitOutcome build s t u).isNone := by
    rw [limiterAborts_limited (hc ▸ hl) hu, hnow]
  cases hout : limitOutcome build s t u with
  | none =>
    rw [hout] at haborts
    intro s'
    have ha : abortsIn crates build s (.instant t request) = true := by
      rw [abortsIn, haborts _ rfl rfl]
      exact Bool.true_or _
    exact @Mutex.Performs.of_abort _ _ _ _ _ R (object crates build) s lo t (.instant t request) ha htimes s'
  | some outcome =>
    rw [hout] at haborts
    cases t with
    | none => cases hout
    | some now =>
      rw [limitOutcome_eq_some hout]
      cases hpass : passes s (envAt now) u with
      | true => exact hpassed now hnow haborts hpass
      | false =>
        exact performs_of_transition (.instant (some now) request) (hrefused _ hpass) (haborts _ rfl rfl)
          (fun hok => by cases hok) htimes

/-- Two more readings lead to the answer, and either may fail. -/
theorem performs_answer (crates : Crates) {now : UInt64} {ts t : SystemTime} (nonce : Nonce) {response : Response}
    (hsafe : ∀ c : TimedCall, c.request = request → c.limitNow = some now → limiterAborts build s c = false)
    (hl : request.limitedUser = some u) (hnow : R lo (some now)) (hts : R (some now) ts) (ht : R ts t)
    (htrans : Transition crates s ⟨now,ts.secs,t.secs,[],nonce⟩ request (.ok response) s') :
    (ts = none ∨ t = none → ∀ s'', Performed crates build R request s lo none s'' t) ∧
      (ts.isSome = true → t.isSome = true → Performed crates build R request s lo (some (.ok response)) s' t) := by
  have htimes := @readings_pairwise R lo t ⟨some now,ts,t,[],nonce,request⟩ _ hnow hts ht (refl_of R _)
  constructor
  · intro hfailed s''
    refine performs_of_failed ⟨some now,ts,t,[],nonce,request⟩ htrans rfl ?_ htimes s''
    rcases hfailed with rfl | rfl <;> simp [later, hl]
  · intro hts' ht'
    obtain ⟨read,rfl⟩ := Option.isSome_iff_exists.mp hts'
    obtain ⟨recorded,rfl⟩ := Option.isSome_iff_exists.mp ht'
    exact performs_of_transition ⟨some now,some read,some recorded,[],nonce,request⟩ htrans (hsafe _ rfl rfl)
      (fun _ => none_notMem_later rfl (.inr ⟨read,rfl⟩)) htimes

theorem performs_issueChallenge (s : ServerInner) (lo : SystemTime) (u : String) :
    wp R (fun r => Performed crates build R (.issueChallenge u) s lo (r.map (Except.map .challengeIssued)))
      (Locked.issueChallenge crates build u) s lo := by
  unfold Locked.issueChallenge
  rw [wp_bind, wp_get]
  cases hu : s.users u with
  | none =>
    have ht : Transition crates s (envAt lo.secs) (.issueChallenge u) _ s := .issueUnknown hu
    simp only [wp_bind, PartialMap.containsKey, hu, Option.isSome_none, Bool.false_eq_true, if_false, wp_throw]
    exact performs_of_transition (.instant lo (.issueChallenge u)) ht (limiterAborts_unknown rfl hu)
      (fun hok => by cases hok) (readings_instant lo _)
  | some record =>
    simp only [PartialMap.containsKey, hu, Option.isSome_some, if_true]
    apply wp_limited rfl hu
    · exact fun env hl => .issueLimited hu hl
    · intro now hnow hsafe hl
      have hanswer (ts t : SystemTime) (nonce : Nonce) (hts : R (some now) ts) (ht : R ts t) :=
        performs_answer crates nonce hsafe rfl hnow hts ht (.issued hu hl)
      simp only [drawNonce, Locked.audit, wp_bind, wp_nowUnix]
      intro ts hts
      cases ts with
      | none => exact (hanswer none none (Nonce.ofBytes []) hts (refl_of R _)).1 (.inl rfl) _
      | some ts =>
        intro nonce t ht
        cases t with
        | none => exact (hanswer (some ts) none nonce hts ht).1 (.inr rfl) _
        | some t => exact (hanswer (some ts) (some t) nonce hts ht).2 rfl rfl

theorem performs_verify (s : ServerInner) (lo : SystemTime) (req : VerifyRequest) :
    wp R (fun r => Performed crates build R (.verify req) s lo (r.map (Except.map .verify)))
      (Locked.verify crates build req) s lo := by
  obtain ⟨u,method⟩ := req
  unfold Locked.verify
  rw [wp_bind, wp_get]
  cases hu : s.users u with
  | none =>
    have ht : Transition crates s (envAt lo.secs) (.verify ⟨u,method⟩) _ s := .verifyUnknown hu
    simp only [hu, wp_throw]
    exact performs_of_transition (.instant lo (.verify ⟨u,method⟩)) ht (limiterAborts_unknown rfl hu)
      (fun hok => by cases hok) (readings_instant lo _)
  | some record =>
    simp only [hu]
    apply wp_limited rfl hu
    · exact fun env hl => .verifyLimited hu hl
    · intro now hnow hsafe hl
      cases method with
      | totp code =>
        have hanswer (ts t : SystemTime) (hts : R (some now) ts) (ht : R ts t) :=
          performs_answer crates (Nonce.ofBytes []) hsafe rfl hnow hts ht (.totp hu hl rfl)
        simp only [Locked.audit, wp_bind, wp_nowUnix]
        intro ts hts
        cases ts with
        | none => exact (hanswer none none hts (refl_of R _)).1 (.inl rfl) _
        | some ts =>
          intro t ht
          cases t with
          | none => exact (hanswer (some ts) none hts ht).1 (.inr rfl) _
          | some t => exact (hanswer (some ts) (some t) hts ht).2 rfl rfl
      | challenge nonce ct sig =>
        have hcounted : (counted s (envAt now) u).pendingChallenges u = s.pendingChallenges u := rfl
        simp only [wp_bind, wp_get, hcounted]
        cases hp : s.pendingChallenges u with
        | none =>
          have htrans : Transition crates s (envAt now) (.verify ⟨u,.challenge nonce ct sig⟩) _ _ :=
            .noPendingChallenge hu hl hp
          simp only [wp_throw]
          exact performs_of_transition ⟨some now,some now,some now,[],Nonce.ofBytes [],_⟩ htrans (hsafe _ rfl rfl)
            (fun hok => by cases hok) (readings_pairwise hnow (refl_of R _) (refl_of R _) (refl_of R _))
        | some challenge =>
          have hanswer (ts t : SystemTime) (hts : R (some now) ts) (ht : R ts t) :=
            performs_answer crates (Nonce.ofBytes []) hsafe rfl hnow hts ht (.answered hu hl hp rfl)
          simp only [Locked.audit, wp_bind, wp_nowUnix, wp_set]
          intro ts hts
          cases ts with
          | none => exact (hanswer none none hts (refl_of R _)).1 (.inl rfl) _
          | some ts =>
            intro t ht
            cases t with
            | none => exact (hanswer (some ts) none hts ht).1 (.inr rfl) _
            | some t => exact (hanswer (some ts) (some t) hts ht).2 rfl rfl

/-- Each handler run under the mutex is one step of the server. -/
theorem handler_implements : Mutex.Implements R (handler crates build) (object crates build) := by
  refine ⟨?_,?_⟩
  · intro request s lo
    change wp R (Performed crates build R request s lo) (Locked.serve crates build request) s lo
    cases request with
    | enrollBegin u => rw [Locked.serve, wp_map]; exact performs_enrollBegin s lo u
    | enrollComplete req => rw [Locked.serve, wp_map]; exact performs_enrollComplete s lo req
    | issueChallenge u => rw [Locked.serve, wp_map]; exact performs_issueChallenge s lo u
    | verify req => rw [Locked.serve, wp_map]; exact performs_verify s lo req
  · intro request now
    exact ⟨.instant now request,rfl,by simp [object, readings, TimedCall.instant]⟩

variable {τ : Type} [DecidableEq τ]

/-- The service from the start: its threads, what its clients saw, and where it got to. -/
abbrev Served (crates : Crates) (build : Build) (R : SystemTime → SystemTime → Prop) (serverId : String)
    (boot : SystemTime) (ls : List (Mutex.Label τ Request Reply SystemTime))
    (c : Mutex.Config τ Request Reply ServerInner SystemTime Draw.Value) : Prop :=
  Mutex.Run (handler crates build) R (.start (new serverId) boot) ls c

variable {serverId : String} {boot : SystemTime} {ls : List (Mutex.Label τ Request Reply SystemTime)}
  {c : Mutex.Config τ Request Reply ServerInner SystemTime Draw.Value}

theorem service_atomic (hrun : Served crates build R serverId boot ls c) :
    ∃ ps a, Mutex.AtomicRun (object crates build) R (.start (new serverId) boot) ps a ∧ Mutex.labels ps = ls ∧
      a.clock = c.clock ∧ (c.holder = none → a.state = if c.poisoned then none else some c.shared) := by
  obtain ⟨ps,a,hatomic,hlabels,hsim⟩ := Mutex.linearizable handler_implements (.start ..) hrun
  exact ⟨ps,a,hatomic,hlabels,hsim.clock,hsim.state_eq⟩

/-- All readings lie between the start and the present. -/
theorem readings_atomic {ps : List (Mutex.Point τ Request Reply TimedCall SystemTime)}
    {a : Mutex.State τ Request Reply ServerInner SystemTime}
    (h : Mutex.AtomicRun (object crates build) R (.start (new serverId) boot) ps a) :
    (boot :: ((Mutex.calls ps).flatMap readings ++ [a.clock])).Pairwise R := by
  obtain ⟨hsince,htimes⟩ := h.times (refl_of R _)
  exact Mutex.pairwise_within (refl_of R boot) hsince htimes

theorem readings_pairwise_atomic {ps : List (Mutex.Point τ Request Reply TimedCall SystemTime)}
    {a : Mutex.State τ Request Reply ServerInner SystemTime}
    (h : Mutex.AtomicRun (object crates build) R (.start (new serverId) boot) ps a) :
    ((Mutex.calls ps).flatMap readings).Pairwise R :=
  (List.pairwise_append.mp (List.pairwise_cons.mp (readings_atomic h)).2).1

/-- The object on its inputs is the server on the calls behind them. -/
theorem history_object (crates : Crates) (build : Build) (serverId : String) (xs : List TimedCall) :
    (Machine.history (object crates build).step (new serverId) xs).map (Machine.Event.map id TimedCall.call) =
      history crates serverId (xs.map TimedCall.call) :=
  (@Machine.history_map _ _ _ (object crates build).step _ _ (step crates) id TimedCall.call (fun _ _ => rfl)
    (new serverId) xs).symm

theorem final_object (crates : Crates) (build : Build) (serverId : String) (xs : List TimedCall) :
    Machine.final (object crates build).step (new serverId) xs = final crates serverId (xs.map TimedCall.call) :=
  (@Machine.final_map _ _ _ (object crates build).step _ _ (step crates) id TimedCall.call (fun _ _ => rfl)
    (new serverId) xs).symm

theorem exchanges_object (crates : Crates) (build : Build) (serverId : String) (xs : List TimedCall) :
    (Machine.history (object crates build).step (new serverId) xs).map (fun e => (e.input.request,e.output)) =
      (history crates serverId (xs.map TimedCall.call)).map (fun e => (e.input.request,e.output)) := by
  rw [← history_object crates build, List.map_map]
  rfl

theorem requests_calls (xs : List TimedCall) :
    (xs.map TimedCall.call).map Call.request = xs.map TimedCall.request := List.map_map

/-- Whenever the lock is free, what it guards is the state of a sequential run that
gave every reply clients got so far. -/
theorem service_settled (hrun : Served crates build R serverId boot ls c) (hfree : c.holder = none)
    (hsound : c.poisoned = false) : ∃ calls, c.shared = final crates serverId calls ∧
      Mutex.received ls ≤ ((history crates serverId calls).map (fun e => (e.input.request,e.output)) : List _) ∧
      (calls.map Call.request : Multiset Request) ≤ (Mutex.invocations ls).map Prod.snd := by
  obtain ⟨ps,a,hatomic,rfl,_,hstate⟩ := service_atomic hrun
  have hshared := (hatomic.history.2).symm.trans (hstate hfree)
  rw [hsound] at hshared
  obtain ⟨k,hreceived⟩ := hatomic.received_history (fun _ => rfl) rfl
  refine ⟨(Mutex.calls ps).map TimedCall.call,?_,hreceived.trans ?_,?_⟩
  · rw [← final_object crates build]
    exact Poison.final_of_some hshared
  · rw [← exchanges_object crates build, ← Machine.history_take]
    exact ((List.take_sublist k _).map _).subperm
  · rw [requests_calls]
    exact hatomic.requested fun _ => rfl

/-- Every reply a client of the service got is the server's in one sequential run. -/
theorem service_received (hrun : Served crates build R serverId boot ls c) :
    ∃ xs : List TimedCall, (boot :: (xs.flatMap readings ++ [c.clock])).Pairwise R ∧
      Mutex.received ls ≤ ((history crates serverId (xs.map TimedCall.call)).map
        (fun e => (e.input.request,e.output)) : List _) ∧
      (xs.map TimedCall.request : Multiset Request) ≤ (Mutex.invocations ls).map Prod.snd := by
  obtain ⟨ps,a,hatomic,rfl,hclock,_⟩ := service_atomic hrun
  obtain ⟨k,hreceived⟩ := hatomic.received_history (fun _ => rfl) rfl
  refine ⟨(Mutex.calls ps).take k,?_,?_,?_⟩
  · have htaken := (List.take_sublist k (Mutex.calls ps)).flatMap readings
    exact hclock ▸ (readings_atomic hatomic).sublist ((htaken.append_right _).cons_cons boot)
  · rw [← exchanges_object crates build]
    exact hreceived
  · exact le_trans (((List.take_sublist k _).map _).subperm) (hatomic.requested fun _ => rfl)

/-- Any execution of the service is one in which every request takes effect at a
single point between its invocation and its reply, in either build and for any
clock. The answers are those of the server to one request after another. -/
theorem service_linearizable (hrun : Served crates build R serverId boot ls c) :
    ∃ ps a, Mutex.AtomicRun (object crates build) R (.start (new serverId) boot) ps a ∧ Mutex.labels ps = ls ∧
      ((Mutex.calls ps).flatMap readings).Pairwise R ∧
      Mutex.effects ps = (Machine.history (object crates build).atomic (some (new serverId))
        (Mutex.calls ps)).map (fun e => (e.input,e.output)) ∧
      (c.holder = none → (if c.poisoned then none else some c.shared) =
        Machine.final (object crates build).atomic (some (new serverId)) (Mutex.calls ps)) := by
  obtain ⟨ps,a,hatomic,hlabels,_,hstate⟩ := service_atomic hrun
  obtain ⟨heffects,hfinal⟩ := hatomic.history
  exact ⟨ps,a,hatomic,hlabels,readings_pairwise_atomic hatomic,heffects,fun hfree => (hstate hfree).symm.trans hfinal⟩

end

section
open Locked Transparent

def sampleDraws : ∀ d, Draw.Value d
  | .kyberSeed => [1]
  | .nonce => sampleNonce 0

/-- Undisturbed and at one time, a handler is the step of the server. -/
theorem outcome_of_transition {s s' : ServerInner} {now : UInt64} {request : Request} {reply : Reply}
    (hlimit : limiterAborts build s (.instant (some now) request) = false)
    (h : ∀ seed nonce, Transition crates s ⟨now,now,now,seed,nonce⟩ request reply s') :
    (handler crates build request).outcome (some now) sampleDraws s = (some reply,s') := by
  have hperforms := Critical.outcome_of_wp (R := Eq) rfl sampleDraws
    ((@handler_implements crates build Eq _ _).performs request s (some now))
  generalize (handler crates build request).outcome (some now) sampleDraws s = outcome at hperforms ⊢
  obtain ⟨c,rfl,htimes,hatomic⟩ := hperforms
  have hread := (List.pairwise_cons.mp htimes).1
  have hlimitNow : some now = c.limitNow := hread _ (by simp [object, readings])
  have hts : some now = c.ts := hread _ (by simp [object, readings])
  have hauditNow : some now = c.auditNow := hread _ (by simp [object, readings])
  have htrans : Transition crates s c.call.env c.request reply s' := by
    rw [TimedCall.call, ← hlimitNow, ← hts, ← hauditNow]
    exact h c.kyberSeed c.nonce
  have hsafe : limiterAborts build s c = false := by
    rw [← hlimit, limiterAborts, limiterAborts, ← hlimitNow]
    rfl
  have hdone := hatomic.symm.trans
    (atomic_of_transition c htrans hsafe fun _ => none_notMem_later hauditNow.symm (.inr ⟨now,hts.symm⟩))
  obtain ⟨reply',t⟩ := outcome
  obtain ⟨rfl,hstate⟩ := Prod.mk.inj hdone
  exact congrArg _ (Option.some.inj hstate)

/-- Alice's begin, then two completions with the same answer that race. -/
def sampleRace : List (Mutex.Label Bool Request Reply SystemTime) :=
  [.invoke false (.enrollBegin "alice"),
    .reply false (.enrollBegin "alice") (some (.ok (.enrollBegin sampleBegin))),
    .invoke false (.enrollComplete (sampleRequest "alice")),
    .invoke true (.enrollComplete (sampleRequest "alice")),
    .advance (some 1001),
    .reply false (.enrollComplete (sampleRequest "alice")) (some (.error (.noPendingEnrollment "alice"))),
    .reply true (.enrollComplete (sampleRequest "alice"))
      (some (.ok (.enrollComplete ⟨true,"Enrollment successful"⟩)))]

theorem outcome_begin (build : Build) :
    (handler Transparent.crates build (.enrollBegin "alice")).outcome (some 1000) sampleDraws (new "example.org") =
      (some (.ok (.enrollBegin sampleBegin)),sampleBegun "alice") := rfl

theorem outcome_complete (build : Build) :
    (handler Transparent.crates build (.enrollComplete (sampleRequest "alice"))).outcome (some 1001) sampleDraws
      (sampleBegun "alice") =
        (some (.ok (.enrollComplete ⟨true,"Enrollment successful"⟩)),sampleEnrolled 1001 "alice") :=
  outcome_of_transition rfl fun _ _ => .enrolled (afterBegin_pendingEnrollments ..)
    (complete_honestRequest hex_roundTrip kyber768_sizes keypair_publicKey_length [1])

private theorem outcome_second (build : Build) :
    (handler Transparent.crates build (.enrollComplete (sampleRequest "alice"))).outcome (some 1001) sampleDraws
      (sampleEnrolled 1001 "alice") =
        (some (.error (.noPendingEnrollment "alice")),sampleEnrolled 1001 "alice") := rfl

theorem sampleRace_served (build : Build) : ∃ c,
    Served Transparent.crates build SystemTime.NotAfter "example.org" (some 1000) sampleRace c ∧ c.holder = none ∧
      c.poisoned = false :=
  ⟨_,.cons (.invoke rfl) <| .served (t := false) (outcome_begin build) rfl rfl rfl <| .cons (.reply rfl) <|
    .cons (.invoke rfl) <| .cons (.invoke rfl) <| .cons (.advance (by decide)) <|
    .served (t := true) (outcome_complete build) rfl rfl rfl <|
    .served (t := false) (outcome_second build) rfl rfl rfl <| .cons (.reply rfl) <| .cons (.reply rfl) .nil,
    rfl,rfl⟩

theorem service_linearizable_sample : ∃ c,
    Served Transparent.crates .release SystemTime.NotAfter "example.org" (some 1000) sampleRace c ∧
    ∃ ps a, Mutex.AtomicRun (object Transparent.crates .release) SystemTime.NotAfter
        (.start (new "example.org") (some 1000)) ps a ∧
      Mutex.labels ps = sampleRace ∧ ((Mutex.calls ps).flatMap readings).Pairwise SystemTime.NotAfter ∧
      Mutex.effects ps = (Machine.history (object Transparent.crates .release).atomic (some (new "example.org"))
        (Mutex.calls ps)).map (fun e => (e.input,e.output)) ∧
      (c.holder = none → (if c.poisoned then none else some c.shared) =
        Machine.final (object Transparent.crates .release).atomic (some (new "example.org")) (Mutex.calls ps)) := by
  obtain ⟨c,hrun,_⟩ := sampleRace_served .release
  exact ⟨c,hrun,service_linearizable hrun⟩

end

end PqAuthServer
end PqAuth
