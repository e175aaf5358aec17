import PqAuth.Foundation.Poison
import PqAuth.Server.GreedyWindows

/-! The limiter's word arithmetic under any clock. A build with overflow checks
panics in it while the mutex is held; a build without them wraps around. -/
namespace PqAuth.PqAuthServer
variable {crates : Crates} {s : ServerInner} {env : Env} {u : String}

/-- The limiter, once a request reaches it, panics in a build with overflow checks. -/
def aborts (s : ServerInner) (c : Call) : Bool :=
  match c.request.limitedUser with
  | some u => s.users.containsKey u && (checkRateLimitChecked c.env u s).isNone
  | none => false

/-- The server of that build behind its mutex. -/
def stepChecked (crates : Crates) : Option ServerInner → Call → Option Reply × Option ServerInner :=
  Poison.step aborts (step crates)

/-- The window's attempts are used up and the window has not ended. -/
def Exhausted (s : ServerInner) (env : Env) (u : String) : Prop :=
  ∃ n start, s.rateLimits u = some (n,start) ∧ s.maxAttempts ≤ n ∧
    env.limitNow.toNat ≤ start.toNat + s.rateWindow.toNat

/-- The clock is not before the window, and an unfinished window has room in its counter. -/
def Fits (s : ServerInner) (env : Env) (u : String) : Prop :=
  ∀ n start, s.rateLimits u = some (n,start) → start.toNat ≤ env.limitNow.toNat ∧
    (env.limitNow.toNat ≤ start.toNat + s.rateWindow.toNat → n.toNat + 1 < 2 ^ 32)

/-- What the limiter promises over a run: its arithmetic is exact, no call aborts or
finds the mutex poisoned, and no call passes in a window used up. -/
structure LimiterSafe (crates : Crates) (serverId : String) (calls : List Call) : Prop where
  exact : ∀ e ∈ history crates serverId calls, ∀ u, reachesLimiter u e = true →
    checkRateLimitChecked e.input.env u e.before = some ((checkRateLimit e.input.env u).exec e.before)
  answered : ∀ e ∈ Machine.history (stepChecked crates) (some (new serverId)) calls, e.output.isSome = true
  limited : ∀ e ∈ history crates serverId calls, ∀ u, reachesLimiter u e = true →
    Exhausted e.before e.input.env u → pastLimiter u e = false

theorem fits_iff : Fits s env u ↔ ((s.rateLimits u).getD (0,env.limitNow)).2.toNat ≤ env.limitNow.toNat ∧
    (env.limitNow.toNat ≤ ((s.rateLimits u).getD (0,env.limitNow)).2.toNat + s.rateWindow.toNat →
      ((s.rateLimits u).getD (0,env.limitNow)).1.toNat + 1 < 2 ^ 32) := by
  rw [Fits]
  cases s.rateLimits u with
  | none => simp
  | some entry => simp [Prod.ext_iff]

theorem checkRateLimitChecked_eq (s : ServerInner) (env : Env) (u : String) {entry : UInt32 × UInt64}
    (he : (s.rateLimits u).getD (0,env.limitNow) = entry) : checkRateLimitChecked env u s =
      (Words.checkedSub env.limitNow entry.2).bind fun elapsed =>
        if elapsed > s.rateWindow then
          some (.ok (),{ s with rateLimits := s.rateLimits.insert u (1,env.limitNow) })
        else (Words.checkedAdd32 entry.1 1).bind fun attempts =>
          some (if attempts > s.maxAttempts then .error .rateLimited else .ok (),
            { s with rateLimits := s.rateLimits.insert u (attempts,entry.2) }) := by
  subst he
  rfl

private theorem checkedAdd32_one (n : UInt32) :
    Words.checkedAdd32 n 1 = if n.toNat + 1 < 2 ^ 32 then some (n + 1) else none := rfl

/-- Arithmetic that fits wraps nowhere. -/
theorem checked_of_fits (h : Fits s env u) :
    checkRateLimitChecked env u s = some ((checkRateLimit env u).exec s) := by
  obtain ⟨hle,hcount⟩ := fits_iff.mp h
  have hstart := UInt64.le_iff_toNat_le.mpr hle
  rw [exec_checkRateLimit_eq s env u rfl, checkRateLimitChecked_eq s env u rfl, Words.checkedSub, if_pos hstart,
    Option.bind_some]
  split
  · rfl
  · rename_i hx
    have hopen := Nat.le_of_not_lt (mt (Words.lt_sub_iff hstart).mpr hx)
    rw [checkedAdd32_one, if_pos (hcount hopen)]
    rfl

/-- Arithmetic that does not fit panics. -/
theorem fits_of_checked (h : (checkRateLimitChecked env u s).isSome = true) : Fits s env u := by
  rw [checkRateLimitChecked_eq s env u rfl] at h
  rw [fits_iff]
  by_cases hstart : ((s.rateLimits u).getD (0,env.limitNow)).2 ≤ env.limitNow
  · refine ⟨UInt64.le_iff_toNat_le.mp hstart,?_⟩
    intro hopen
    have hx := mt (Words.lt_sub_iff hstart).mp (Nat.not_lt.mpr hopen)
    rw [Words.checkedSub, if_pos hstart, Option.bind_some, if_neg hx] at h
    by_contra hfull
    rw [checkedAdd32_one, if_neg hfull] at h
    cases h
  · rw [Words.checkedSub, if_neg hstart] at h
    cases h

/-- Word arithmetic that fits is that of the limiter on numbers. -/
theorem attempt_refines_of_fits {maxAttempts : UInt32} {rateWindow : UInt64} (hmax : s.maxAttempts = maxAttempts)
    (hwidth : s.rateWindow = rateWindow) (h : Fits s env u) :
    ((attempt maxAttempts rateWindow (s.rateLimits u) env.limitNow).1,
      window (attempt maxAttempts rateWindow (s.rateLimits u) env.limitNow).2) =
      FixedWindow.attempt maxAttempts.toNat rateWindow.toNat ((s.rateLimits u).map window) env.limitNow.toNat := by
  subst hmax hwidth
  apply attempt_refines
  · rintro ⟨n,start⟩ hentry
    exact (h n start hentry).1
  · cases hentry : s.rateLimits u with
    | none =>
      rw [Option.map_none, FixedWindow.attempt_first]
      exact Nat.one_lt_two_pow (by decide)
    | some entry =>
      obtain ⟨n,start⟩ := entry
      rw [Option.map_some, window]
      rcases Nat.lt_or_ge (start.toNat + s.rateWindow.toNat) env.limitNow.toNat with hx | hx
      · rw [FixedWindow.attempt_expired hx]
        exact Nat.one_lt_two_pow (by decide)
      · rw [FixedWindow.attempt_open hx]
        exact (h n start hentry).2 hx

theorem fits_iff_window {rateWindow : UInt64} (hwidth : s.rateWindow = rateWindow) : Fits s env u ↔
    ∀ n start, (s.rateLimits u).map window = some (n,start) →
      start ≤ env.limitNow.toNat ∧ (env.limitNow.toNat ≤ start + rateWindow.toNat → n + 1 < 2 ^ 32) := by
  subst hwidth
  rw [Fits]
  cases s.rateLimits u with
  | none => simp
  | some entry => simp [window, Prod.ext_iff]

theorem aborts_iff (s : ServerInner) (c : Call) : aborts s c = false ↔
    ∀ u, c.request.limitedUser = some u → (s.users u).isSome = true → Fits s c.env u := by
  unfold aborts
  cases c.request.limitedUser with
  | none => simp
  | some u =>
    have hchecked : (checkRateLimitChecked c.env u s).isNone = false ↔ Fits s c.env u := by
      rw [Option.isNone_eq_false_iff]
      refine ⟨fits_of_checked,fun h => ?_⟩
      rw [checked_of_fits h]
      rfl
    simp only [Bool.and_eq_false_iff, hchecked, Option.some.injEq, forall_eq', PartialMap.containsKey]
    cases (s.users u).isSome <;> simp

/-- A window used up refuses every call whose arithmetic fits. -/
theorem refused_of_exhausted (h : Fits s env u) (hx : Exhausted s env u) : passes s env u = false := by
  obtain ⟨n,start,hentry,hmax,hopen⟩ := hx
  obtain ⟨hstart,hcount⟩ := h n start hentry
  rw [passes, hentry, attempt_within s.maxAttempts n (UInt64.le_iff_toNat_le.mpr hstart) hopen]
  rw [UInt32.le_iff_toNat_le] at hmax
  rw [decide_eq_false_iff_not, UInt32.le_iff_toNat_le, UInt32.toNat_add]
  change ¬ (n.toNat + 1) % 2 ^ 32 ≤ _
  rw [Nat.mod_eq_of_lt (hcount hopen)]
  omega

theorem limiterSafe_iff_fits (crates : Crates) (serverId : String) (calls : List Call) :
    LimiterSafe crates serverId calls ↔ ∀ e ∈ history crates serverId calls, ∀ u,
      reachesLimiter u e = true → Fits e.before e.input.env u := by
  constructor
  · intro hsafe e he u hr
    apply fits_of_checked
    rw [hsafe.exact e he u hr]
    rfl
  · intro hfits
    refine ⟨fun e he u hr => checked_of_fits (hfits e he u hr),?_,?_⟩
    · apply Poison.answered_iff.mpr
      intro e he
      rw [aborts_iff]
      exact fun u hl hu => hfits e he u ((reachesLimiter_iff u e).mpr ⟨hl,hu⟩)
    · intro e he u hr hx
      rw [pastLimiter_of_reaches hr]
      exact refused_of_exhausted (hfits e he u hr) hx

/-- While its arithmetic fits, a user's entry is the window in progress. -/
theorem rateLimits_of_fits {serverId : String} {calls : List Call}
    (h : ∀ e ∈ history crates serverId calls, reachesLimiter u e = true → Fits e.before e.input.env u) :
    ((final crates serverId calls).rateLimits u).map window =
      FixedWindow.state 5 300 none (limiterTimes u (history crates serverId calls)) := by
  induction calls using List.reverseRecOn with
  | nil => rfl
  | append_singleton calls c ih =>
    have hhistory : history crates serverId (calls ++ [c]) = history crates serverId calls ++
        [Machine.event (step crates) (final crates serverId calls) c] := Machine.history_append ..
    have hfinal : final crates serverId (calls ++ [c]) = (step crates (final crates serverId calls) c).2 :=
      Machine.final_append ..
    rw [hhistory] at h ⊢
    obtain ⟨hpast,hlast⟩ := List.forall_mem_append.mp h
    obtain ⟨hmax,hwidth⟩ := limits_final crates serverId calls
    rw [hfinal, (transition crates (final crates serverId calls) c).rateLimits_eq u, hmax, hwidth]
    by_cases hguard : c.request.limitedUser = some u ∧ ((final crates serverId calls).users u).isSome = true
    · have hr := (reachesLimiter_iff u (Machine.event (step crates) (final crates serverId calls) c)).mpr hguard
      have hfits : Fits (final crates serverId calls) c.env u := hlast _ (List.mem_singleton_self _) hr
      have hattempt : window (attempt 5 300 ((final crates serverId calls).rateLimits u) c.env.limitNow).2 =
          (FixedWindow.attempt 5 300 (((final crates serverId calls).rateLimits u).map window)
            c.env.limitNow.toNat).2 := congrArg Prod.snd (attempt_refines_of_fits hmax hwidth hfits)
      rw [limiterTimes_append _ hr, FixedWindow.state_append, if_pos hguard, Option.map_some, hattempt, ih hpast]
      rfl
    · have hr := mt (reachesLimiter_iff u (Machine.event (step crates) (final crates serverId calls) c)).mp hguard
      rw [limiterTimes_append_of_not _ hr, if_neg hguard]
      exact ih hpast

/-- Every call's arithmetic fits exactly if every window can be counted. -/
theorem fits_iff_countable (crates : Crates) (serverId : String) (calls : List Call) (u : String) :
    (∀ e ∈ history crates serverId calls, reachesLimiter u e = true → Fits e.before e.input.env u) ↔
      ∀ w ∈ FixedWindow.windows 300 (limiterTimes u (history crates serverId calls)),
        FixedWindow.Countable (2 ^ 32) w := by
  induction calls using List.reverseRecOn with
  | nil => simp [history, limiterTimes, FixedWindow.windows]
  | append_singleton calls c ih =>
    have hhistory : history crates serverId (calls ++ [c]) = history crates serverId calls ++
        [Machine.event (step crates) (final crates serverId calls) c] := Machine.history_append ..
    rw [hhistory, List.forall_mem_append, List.forall_mem_singleton]
    by_cases hr : reachesLimiter u (Machine.event (step crates) (final crates serverId calls) c) = true
    · rw [limiterTimes_append _ hr, FixedWindow.forall_countable_append 5 (by decide), ← ih]
      refine and_congr_right fun hpast => ?_
      rw [← rateLimits_of_fits hpast]
      simp only [hr, true_implies]
      exact fits_iff_window (limits_final crates serverId calls).2
    · rw [limiterTimes_append_of_not _ hr, ih]
      simp [hr]

/-- A run keeps the promise exactly if, of each user's calls that reached the limiter,
none came before the first of its window and no window held `2 ^ 32` of them. -/
theorem limiter_safe_iff (crates : Crates) (serverId : String) (calls : List Call) :
    LimiterSafe crates serverId calls ↔
      ∀ u, ∀ w ∈ FixedWindow.windows 300 (limiterTimes u (history crates serverId calls)),
        FixedWindow.Countable (2 ^ 32) w := by
  simp only [limiterSafe_iff_fits, ← fits_iff_countable]
  exact ⟨fun h u e he => h e he u,fun h e he u => h u e he⟩

theorem LimiterSafe.refused {serverId : String} {calls : List Call} {c : Call}
    (h : LimiterSafe crates serverId (calls ++ [c])) (hl : c.request.limitedUser = some u)
    (hu : ((final crates serverId calls).users u).isSome = true)
    (hx : Exhausted (final crates serverId calls) c.env u) :
    passes (final crates serverId calls) c.env u = false := by
  have hmem : Machine.event (step crates) (final crates serverId calls) c ∈
      history crates serverId (calls ++ [c]) := by
    rw [history, Machine.history_append]
    exact List.mem_append_right _ (List.mem_singleton_self _)
  have hr : reachesLimiter u (Machine.event (step crates) (final crates serverId calls) c) = true :=
    (reachesLimiter_iff ..).mpr ⟨hl,hu⟩
  have hrefused := h.limited _ hmem u hr hx
  rwa [pastLimiter_of_reaches hr] at hrefused

section
open Transparent

/-- Five calls at one time. -/
def fiveCalls : List Call := sampleAttempts [2000,2000,2000,2000,2000]

theorem final_fiveCalls : final Transparent.crates "example.org" fiveCalls =
    Machine.final (step Transparent.crates) (sampleEnrolled 1001 "alice")
      ([2000,2000,2000,2000,2000].map (issueCall (sampleNonce 0) "alice")) := by
  rw [final, fiveCalls, sampleAttempts, Machine.final_append, final_sampleEnrolled]

theorem fiveCalls_entry :
    (final Transparent.crates "example.org" fiveCalls).rateLimits "alice" = some (5,2000) := by
  rw [final_fiveCalls]
  decide +kernel

theorem fiveCalls_users : ((final Transparent.crates "example.org" fiveCalls).users "alice").isSome = true := by
  rw [final_fiveCalls]
  decide +kernel

/-- One more, after the clock stepped back. -/
def backCall : Call := issueCall (sampleNonce 0) "alice" 1999

private theorem backCall_passes {s : ServerInner} (hentry : s.rateLimits "alice" = some (5,2000))
    (hmax : s.maxAttempts = 5) (hwidth : s.rateWindow = 300) (hu : (s.users "alice").isSome = true) :
    Exhausted s backCall.env "alice" ∧ passes s backCall.env "alice" = true ∧ aborts s backCall = true := by
  refine ⟨⟨5,2000,hentry,?_,?_⟩,?_,?_⟩
  · rw [hmax]
    exact UInt32.le_refl 5
  · rw [hwidth]
    decide
  · rw [passes, hentry, hmax, hwidth]
    decide
  · rw [← Bool.not_eq_false, aborts_iff]
    intro hfits
    exact absurd (hfits "alice" rfl hu 5 2000 hentry).1 (by decide)

/-- It passes, or panics. -/
theorem stepped_back_passes :
    Exhausted (final Transparent.crates "example.org" fiveCalls) backCall.env "alice" ∧
      passes (final Transparent.crates "example.org" fiveCalls) backCall.env "alice" = true ∧
      aborts (final Transparent.crates "example.org" fiveCalls) backCall = true ∧
      ¬ LimiterSafe Transparent.crates "example.org" (fiveCalls ++ [backCall]) := by
  obtain ⟨hmax,hwidth⟩ := limits_final Transparent.crates "example.org" fiveCalls
  obtain ⟨hx,hpasses,haborts⟩ := backCall_passes fiveCalls_entry hmax hwidth fiveCalls_users
  refine ⟨hx,hpasses,haborts,?_⟩
  intro hsafe
  exact absurd (hpasses.symm.trans (hsafe.refused rfl fiveCalls_users hx)) (by decide)

end
end PqAuth.PqAuthServer
