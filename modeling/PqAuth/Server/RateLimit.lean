import PqAuth.Foundation.FixedWindow
import PqAuth.Server.Honest

/-! The limiter of one user is a fixed-window limiter over the clock readings of
that user's calls, as long as its 32-bit counter does not wrap. -/
namespace PqAuth

namespace PqAuthServer
variable {crates : Crates} {serverId : String}

/-- A stored entry by the values of its words. -/
def window (entry : UInt32 × UInt64) : FixedWindow.Window := (entry.1.toNat,entry.2.toNat)

/-- Word arithmetic is exact while the window is not in the future and the
counter fits its word. -/
theorem attempt_refines {maxAttempts : UInt32} {rateWindow now : UInt64} {entry : Option (UInt32 × UInt64)}
    (hstart : ∀ e ∈ entry, e.2.toNat ≤ now.toNat)
    (hfits : (FixedWindow.attempt maxAttempts.toNat rateWindow.toNat (entry.map window) now.toNat).2.1 < 2 ^ 32) :
    ((attempt maxAttempts rateWindow entry now).1,window (attempt maxAttempts rateWindow entry now).2) =
      FixedWindow.attempt maxAttempts.toNat rateWindow.toNat (entry.map window) now.toNat := by
  have hentry : (entry.map window).getD (0,now.toNat) = window (entry.getD (0,now)) := by
    cases entry <;> rfl
  have hsub : (now - (entry.getD (0,now)).2).toNat = now.toNat - (entry.getD (0,now)).2.toNat := by
    apply UInt64.toNat_sub_of_le
    rw [UInt64.le_iff_toNat_le]
    cases entry with
    | none => exact le_rfl
    | some e => exact hstart e rfl
  unfold FixedWindow.attempt at hfits ⊢
  unfold attempt
  simp only [hentry, window, gt_iff_lt, UInt64.lt_iff_toNat_lt, hsub, UInt32.le_iff_toNat_le] at hfits ⊢
  split
  · rfl
  · rename_i hx
    rw [if_neg hx] at hfits
    have hadd : ((entry.getD (0,now)).1 + 1).toNat = (entry.getD (0,now)).1.toNat + 1 := by
      rw [UInt32.toNat_add]
      exact Nat.mod_eq_of_lt hfits
    rw [hadd]

/-- The same along a run of calls whose windows hold fewer than `2 ^ 32` of them. -/
theorem attempt_refines_run {maxAttempts : UInt32} {rateWindow now : UInt64} {entry : Option (UInt32 × UInt64)}
    {times : List ℕ}
    (hstate : entry.map window = FixedWindow.state maxAttempts.toNat rateWindow.toNat none times)
    (hsorted : (times ++ [now.toNat]).Pairwise (· ≤ ·))
    (hfits : ∀ a, (times ++ [now.toNat]).countP (fun t => a ≤ t && t ≤ a + rateWindow.toNat) < 2 ^ 32) :
    ((attempt maxAttempts rateWindow entry now).1,window (attempt maxAttempts rateWindow entry now).2) =
      FixedWindow.attempt maxAttempts.toNat rateWindow.toNat
        (FixedWindow.state maxAttempts.toNat rateWindow.toNat none times) now.toNat := by
  obtain ⟨hs,_,hnow⟩ := List.pairwise_append.mp hsorted
  rw [← hstate]
  apply attempt_refines
  · rintro e rfl
    exact hnow _ (FixedWindow.count_le hs hstate.symm).2 _ (by simp)
  · rw [hstate]
    exact Nat.lt_of_le_of_lt (FixedWindow.count_le hsorted (FixedWindow.state_append ..)).1 (hfits _)

theorem Transition.rateLimits_eq {s s' : ServerInner} {env : Env} {request : Request} {reply : Reply}
    (ht : Transition crates s env request reply s') (u : String) :
    s'.rateLimits u =
      if request.limitedUser = some u ∧ (s.users u).isSome = true then
        some (attempt s.maxAttempts s.rateWindow (s.rateLimits u) env.limitNow).2
      else s.rateLimits u := by
  by_cases hu : u = request.userId
  · subst hu
    cases ht <;> simp_all [Request.limitedUser, Request.userId, counted, afterBegin, afterComplete, afterIssue,
      afterAnswer, logged]
  · have hframe := (Session.mk.inj (ht.frame hu)).2.2.2
    rw [hframe, if_neg]
    rintro ⟨hl,_⟩
    cases request <;> simp_all [Request.limitedUser, Request.userId]

theorem limits_final (crates : Crates) (serverId : String) (calls : List Call) :
    (final crates serverId calls).maxAttempts = 5 ∧ (final crates serverId calls).rateWindow = 300 :=
  Machine.final_invariant (I := fun s : ServerInner => s.maxAttempts = 5 ∧ s.rateWindow = 300)
    (fun s c hi => by
      obtain ⟨hm,hw⟩ := (transition crates s c).limits_eq
      exact ⟨hm.trans hi.1,hw.trans hi.2⟩) ⟨rfl,rfl⟩ calls

/-- The clock readings of the calls for `u` that reached the limiter. -/
def limiterTimes (u : String) (past : List Event) : List ℕ :=
  (past.filter (reachesLimiter u)).map (fun e => e.input.env.limitNow.toNat)

/-- Fewer than `2 ^ 32` of them fall into any window. -/
def CounterFits (u : String) (past : List Event) : Prop :=
  ∀ a, (limiterTimes u past).countP (fun t => a ≤ t && t ≤ a + 300) < 2 ^ 32

theorem limiterTimes_pairwise {calls : List Call} (h : Chronological calls) (u : String) :
    (limiterTimes u (history crates serverId calls)).Pairwise (· ≤ ·) := by
  have hmap : (history crates serverId calls).map (fun e => e.input.env.limitNow.toNat) =
      calls.map (fun c => c.env.limitNow.toNat) := by
    rw [← Machine.history_inputs (step crates) (new serverId) calls, List.map_map]
    exact congrArg _ (by rw [Machine.history_inputs]; rfl)
  have hs := h.limitNow
  rw [← hmap] at hs
  exact hs.sublist (List.filter_sublist.map _)

theorem CounterFits.of_append {u : String} {past more : List Event} (h : CounterFits u (past ++ more)) :
    CounterFits u past := by
  intro a
  have := h a
  rw [limiterTimes, List.filter_append, List.map_append, List.countP_append] at this
  exact Nat.lt_of_le_of_lt (Nat.le_add_right ..) this

theorem reachesLimiter_iff (u : String) (e : Event) :
    reachesLimiter u e = true ↔ e.input.request.limitedUser = some u ∧ (e.before.users u).isSome = true := by
  simp [reachesLimiter, PartialMap.containsKey]

theorem pastLimiter_of_reaches {u : String} {e : Event} (h : reachesLimiter u e = true) :
    pastLimiter u e = passes e.before e.input.env u := by
  obtain ⟨hl,hu⟩ := (reachesLimiter_iff u e).mp h
  rw [Bool.eq_iff_iff, pastLimiter_iff]
  simp [hl, Option.isSome_iff_exists.mp hu]

theorem limiterTimes_append {u : String} {e : Event} (past : List Event) (h : reachesLimiter u e = true) :
    limiterTimes u (past ++ [e]) = limiterTimes u past ++ [e.input.env.limitNow.toNat] := by
  simp [limiterTimes, List.filter_append, h]

theorem limiterTimes_append_of_not {u : String} {e : Event} (past : List Event) (h : ¬ reachesLimiter u e = true) :
    limiterTimes u (past ++ [e]) = limiterTimes u past := by
  simp [limiterTimes, List.filter_append, h]

/-- One user's entry and verdicts are those of the fixed-window limiter. -/
theorem limiter_refines {calls : List Call} (hchron : Chronological calls) {u : String}
    (hfits : CounterFits u (history crates serverId calls)) :
    ((final crates serverId calls).rateLimits u).map window =
      FixedWindow.state 5 300 none (limiterTimes u (history crates serverId calls)) ∧
    ((history crates serverId calls).filter (reachesLimiter u)).map (pastLimiter u) =
      FixedWindow.verdicts 5 300 none (limiterTimes u (history crates serverId calls)) := by
  induction calls using List.reverseRecOn with
  | nil => simp [history, final, new, limiterTimes, FixedWindow.state, FixedWindow.verdicts]
  | append_singleton calls c ih =>
    have hsorted := @limiterTimes_pairwise crates serverId _ hchron u
    have hhistory : history crates serverId (calls ++ [c]) = history crates serverId calls ++
        [Machine.event (step crates) (final crates serverId calls) c] := Machine.history_append ..
    have hfinal : final crates serverId (calls ++ [c]) = (step crates (final crates serverId calls) c).2 :=
      Machine.final_append ..
    rw [hhistory] at hfits hsorted ⊢
    obtain ⟨hstate,hverdicts⟩ := ih hchron.of_append hfits.of_append
    obtain ⟨hmax,hwidth⟩ := limits_final crates serverId calls
    rw [hfinal, (transition crates (final crates serverId calls) c).rateLimits_eq u, List.filter_append,
      List.map_append, hverdicts, hmax, hwidth]
    by_cases hguard : c.request.limitedUser = some u ∧ ((final crates serverId calls).users u).isSome = true
    · have hr := (reachesLimiter_iff u (Machine.event (step crates) (final crates serverId calls) c)).mpr hguard
      rw [CounterFits, limiterTimes_append _ hr] at hfits
      rw [limiterTimes_append _ hr] at hsorted ⊢
      have hattempt : ((attempt 5 300 ((final crates serverId calls).rateLimits u) c.env.limitNow).1,
          window (attempt 5 300 ((final crates serverId calls).rateLimits u) c.env.limitNow).2) =
          FixedWindow.attempt 5 300 (FixedWindow.state 5 300 none
            (limiterTimes u (history crates serverId calls))) c.env.limitNow.toNat :=
        attempt_refines_run hstate hsorted hfits
      obtain ⟨hverdict,hentry⟩ := Prod.ext_iff.mp hattempt
      have hpass : pastLimiter u (Machine.event (step crates) (final crates serverId calls) c) =
          (attempt 5 300 ((final crates serverId calls).rateLimits u) c.env.limitNow).1 := by
        rw [pastLimiter_of_reaches hr, ← hmax, ← hwidth]
        rfl
      rw [FixedWindow.state_append, FixedWindow.verdicts_append, List.filter_singleton, hr, cond_true,
        List.map_singleton, hpass, if_pos hguard]
      exact ⟨congrArg some hentry,congrArg (_ ++ [·]) hverdict⟩
    · have hr := mt (reachesLimiter_iff u (Machine.event (step crates) (final crates serverId calls) c)).mp hguard
      rw [limiterTimes_append_of_not _ hr, if_neg hguard]
      exact ⟨hstate,by simp [hr]⟩

/-- A call for `u` at a clock time in `[a, a + 300]` that passed the limiter. -/
def passesWithin (u : String) (a : ℕ) (e : Event) : Bool :=
  pastLimiter u e && a ≤ e.input.env.limitNow.toNat && e.input.env.limitNow.toNat ≤ a + 300

theorem countP_passesWithin {calls : List Call} (hchron : Chronological calls) {u : String}
    (hfits : CounterFits u (history crates serverId calls)) (a : ℕ) :
    (history crates serverId calls).countP (passesWithin u a) =
      FixedWindow.passed 5 300 none (limiterTimes u (history crates serverId calls)) a := by
  rw [FixedWindow.passed, ← (limiter_refines hchron hfits).2, limiterTimes, List.zip_map', List.countP_map,
    List.countP_filter]
  apply List.countP_congr
  intro e _
  have hreach : pastLimiter u e = true → reachesLimiter u e = true := fun h => (Bool.and_eq_true_iff.mp h).1
  simp only [passesWithin, Function.comp_apply, Bool.and_eq_true]
  exact ⟨fun h => ⟨h,hreach h.1.1⟩,fun h => h.1⟩

/-- At most one short of twice `max_attempts` calls pass in any 300 seconds. -/
theorem passes_within_le (crates : Crates) (serverId : String) {calls : List Call} (hchron : Chronological calls)
    {u : String} (hfits : CounterFits u (history crates serverId calls)) (a : ℕ) :
    (history crates serverId calls).countP (passesWithin u a) ≤ 2 * (new serverId).maxAttempts.toNat - 1 := by
  rw [countP_passesWithin hchron hfits]
  apply FixedWindow.passed_le (by decide) (limiterTimes_pairwise hchron u)

theorem Transition.users_issue {s s' : ServerInner} {env : Env} {u : String} {reply : Reply}
    (ht : Transition crates s env (.issueChallenge u) reply s') : s'.users = s.users := by
  cases ht <;> rfl

private theorem limiterTimes_issue {u : String} {s : ServerInner} {record : EnrollmentRecord}
    (hu : s.users u = some record) (times : List UInt64) :
    limiterTimes u (Machine.history (step crates) s (times.map (issueCall (sampleNonce 0) u))) =
      times.map UInt64.toNat := by
  induction times generalizing s with
  | nil => rfl
  | cons now times ih =>
    have hr : reachesLimiter u (Machine.event (step crates) s (issueCall (sampleNonce 0) u now)) = true :=
      (reachesLimiter_iff ..).mpr ⟨rfl,by simp [Machine.event, hu]⟩
    have husers := (transition crates s (issueCall (sampleNonce 0) u now)).users_issue
    have htail := ih ((congrFun husers u).trans hu)
    rw [limiterTimes] at htail ⊢
    rw [List.map_cons, Machine.history_cons, List.filter_cons_of_pos hr, List.map_cons, htail]
    rfl

/-- Enrollment at 1000, then the given calls. -/
def sampleAttempts (times : List UInt64) : List Call :=
  [beginCall 1000 [1] "alice",completeCall 1001 "alice"] ++ times.map (issueCall (sampleNonce 0) "alice")

theorem limiterTimes_sampleAttempts (times : List UInt64) :
    limiterTimes "alice" (history Transparent.crates "example.org" (sampleAttempts times)) =
      times.map UInt64.toNat := by
  have hnone (s : ServerInner) (c : Call) (hc : c.request.limitedUser = none) :
      ¬ reachesLimiter "alice" (Machine.event (step Transparent.crates) s c) = true := by
    intro hr
    have := hc.symm.trans ((reachesLimiter_iff ..).mp hr).1
    cases this
  rw [history, sampleAttempts, Machine.history_append, limiterTimes, List.filter_append, Machine.history_cons,
    Machine.history_cons, List.filter_cons_of_neg (hnone _ _ rfl), List.filter_cons_of_neg (hnone _ _ rfl),
    final_sampleEnrolled]
  exact limiterTimes_issue (sampleEnrolled_users ..) times

private theorem sampleAttempts_fits {times : List UInt64} (h : times.length < 2 ^ 32) :
    CounterFits "alice" (history Transparent.crates "example.org" (sampleAttempts times)) := by
  intro a
  rw [limiterTimes_sampleAttempts]
  exact Nat.lt_of_le_of_lt List.countP_le_length (by simpa using h)

/-- One call opens a window at 2000; four calls at its end and five just after
it pass within 300 seconds. -/
theorem burst_across_windows :
    let calls := sampleAttempts [2000,2300,2300,2300,2300,2301,2301,2301,2301,2301]
    Chronological calls ∧
      ¬ (history Transparent.crates "example.org" calls).countP (passesWithin "alice" 2001) ≤
        (new "example.org").maxAttempts.toNat := by
  intro calls
  have hchron : Chronological calls := by decide
  refine ⟨hchron,?_⟩
  rw [countP_passesWithin hchron (sampleAttempts_fits (by decide)), limiterTimes_sampleAttempts]
  decide

theorem passes_within_le_burst :
    (history Transparent.crates "example.org" (sampleAttempts [2000,2300,2301,2301])).countP
      (passesWithin "alice" 2001) ≤ 2 * (new "example.org").maxAttempts.toNat - 1 :=
  passes_within_le Transparent.crates "example.org" (by decide) (sampleAttempts_fits (by decide)) 2001

end PqAuthServer
end PqAuth
