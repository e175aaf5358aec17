import PqAuth.Foundation.GreedyWindow
import PqAuth.Server.RateLimit

/-! The limiter alone, called for any users with any limit and width. Its entry
for a user stands for the greedy window that user's calls are in. -/
namespace PqAuth.PqAuthServer

/-- A call of `check_rate_limit`. -/
structure LimiterCall where
  env : Env
  userId : String
  deriving DecidableEq, Repr

def limit (s : ServerInner) (c : LimiterCall) : Except ServerError Unit × ServerInner :=
  (checkRateLimit c.env c.userId).exec s

def LimiterCall.isFor (u : String) (c : LimiterCall) : Bool := c.userId == u

/-- The clock readings of the calls for `u`. -/
def callTimes (u : String) (calls : List LimiterCall) : List ℕ :=
  (calls.filter (LimiterCall.isFor u)).map (fun c => c.env.limitNow.toNat)

/-- What the limiter keeps for one user. -/
structure Limiter where
  maxAttempts : UInt32
  rateWindow : UInt64
  entry : Option (UInt32 × UInt64)

def Limiter.step (l : Limiter) (now : UInt64) : Bool × Limiter :=
  ((attempt l.maxAttempts l.rateWindow l.entry now).1,
    { l with entry := some (attempt l.maxAttempts l.rateWindow l.entry now).2 })

def limiter (u : String) (s : ServerInner) : Limiter := ⟨s.maxAttempts,s.rateWindow,s.rateLimits u⟩

theorem limit_eq (s : ServerInner) (c : LimiterCall) :
    limit s c = (if passes s c.env c.userId then .ok () else .error .rateLimited,counted s c.env c.userId) :=
  exec_checkRateLimit ..

theorem limit_isOk (s : ServerInner) (c : LimiterCall) : (limit s c).1.isOk = passes s c.env c.userId := by
  rw [limit_eq]
  cases passes s c.env c.userId <;> rfl

theorem limiter_step {s : ServerInner} {c : LimiterCall} {u : String} (hc : c.isFor u = true) :
    (limiter u s).step c.env.limitNow = ((limit s c).1.isOk,limiter u (limit s c).2) := by
  obtain rfl : c.userId = u := by simpa [LimiterCall.isFor] using hc
  rw [limit_isOk, limit_eq]
  simp [Limiter.step, limiter, passes, counted]

theorem limiter_other {s : ServerInner} {c : LimiterCall} {u : String} (hc : c.isFor u = false) :
    limiter u (limit s c).2 = limiter u s := by
  have hne : u ≠ c.userId := fun h => by simp [LimiterCall.isFor, h] at hc
  rw [limit_eq]
  simp [limiter, counted, hne]

/-- The calls for a user see that user's entry and no other. -/
theorem outputs_for (s : ServerInner) (u : String) (calls : List LimiterCall) :
    ((Machine.history limit s calls).filter (fun e => e.input.isFor u)).map (fun e => e.output.isOk) =
      (Machine.history Limiter.step (limiter u s)
        ((calls.filter (LimiterCall.isFor u)).map (fun c => c.env.limitNow))).map Machine.Event.output := by
  symm
  apply Machine.outputs_filter
  · exact fun _ _ hc => limiter_step hc
  · exact fun _ _ hc => limiter_other hc

theorem attempt_closed (maxAttempts n : UInt32) {rateWindow start now : UInt64}
    (hx : start.toNat + rateWindow.toNat < now.toNat) :
    attempt maxAttempts rateWindow (some (n,start)) now = (true,1,now) := by
  have hle : start ≤ now := UInt64.le_iff_toNat_le.mpr (by omega)
  exact if_pos ((Words.lt_sub_iff hle).mpr hx)

theorem attempt_within (maxAttempts n : UInt32) {rateWindow start now : UInt64} (hle : start ≤ now)
    (hx : now.toNat ≤ start.toNat + rateWindow.toNat) :
    attempt maxAttempts rateWindow (some (n,start)) now = (decide (n + 1 ≤ maxAttempts),n + 1,start) := by
  exact if_neg (mt (Words.lt_sub_iff hle).mp (Nat.not_lt.mpr hx))

/-- While no window outgrows the counter, an entry and the window in progress
give the same verdicts. -/
theorem outputs_open (maxAttempts : UInt32) (rateWindow : UInt64) {n : UInt32} {start : UInt64} {current : List ℕ}
    {times : List UInt64} (hn : n.toNat = current.length) (hsorted : (start :: times).Pairwise (· ≤ ·))
    (hfew : ∀ window ∈ FixedWindow.greedy rateWindow.toNat start.toNat current (times.map UInt64.toNat),
      window.length < 2 ^ 32) :
    (Machine.history Limiter.step ⟨maxAttempts,rateWindow,some (n,start)⟩ times).map Machine.Event.output =
      FixedWindow.verdicts maxAttempts.toNat rateWindow.toNat (some (current.length,start.toNat))
        (times.map UInt64.toNat) := by
  induction times generalizing n start current with
  | nil => rfl
  | cons now times ih =>
    obtain ⟨hstart,hnext⟩ := List.pairwise_cons.mp hsorted
    rw [List.map_cons] at hfew
    rw [Machine.history_cons, List.map_cons, List.map_cons, FixedWindow.verdicts, Machine.event, Limiter.step]
    rcases Nat.lt_or_ge (start.toNat + rateWindow.toNat) now.toNat with hx | hx
    · rw [FixedWindow.greedy_expired hx] at hfew
      rw [FixedWindow.attempt_expired hx, attempt_closed maxAttempts n hx]
      exact congrArg (true :: ·) (ih rfl hnext fun w hw => hfew w (List.mem_cons_of_mem _ hw))
    · rw [FixedWindow.greedy_open hx] at hfew
      rw [FixedWindow.attempt_open hx, attempt_within maxAttempts n (hstart now List.mem_cons_self) hx]
      -- the window in progress ends up among those that fit the counter
      have hcount : (n + 1).toNat = (current ++ [now.toNat]).length := by
        obtain ⟨w,hw,hle⟩ := @FixedWindow.exists_mem_greedy rateWindow.toNat start.toNat (current ++ [now.toNat])
          (times.map UInt64.toNat)
        have hfits := Nat.lt_of_le_of_lt hle (hfew w hw)
        rw [List.length_append, List.length_singleton] at hfits ⊢
        rw [UInt32.toNat_add, hn]
        exact Nat.mod_eq_of_lt hfits
      have hskip : (start :: times).Pairwise (· ≤ ·) :=
        hsorted.sublist (List.Sublist.cons_cons start (List.sublist_cons_self now times))
      have hrest := ih hcount hskip hfew
      rw [List.length_append, List.length_singleton] at hcount hrest
      have hverdict : decide (n + 1 ≤ maxAttempts) = decide (current.length + 1 ≤ maxAttempts.toNat) := by
        simp only [UInt32.le_iff_toNat_le, hcount]
      rw [hverdict]
      exact congrArg (_ :: ·) hrest

theorem attempt_new (maxAttempts : UInt32) (rateWindow now : UInt64) :
    attempt maxAttempts rateWindow none now = (decide (1 ≤ maxAttempts),1,now) := by
  simp [attempt]

theorem outputs_windows {maxAttempts : UInt32} {rateWindow : UInt64} (hmax : 1 ≤ maxAttempts) {times : List UInt64}
    (hsorted : times.Pairwise (· ≤ ·))
    (hfew : ∀ window ∈ FixedWindow.windows rateWindow.toNat (times.map UInt64.toNat), window.length < 2 ^ 32) :
    (Machine.history Limiter.step ⟨maxAttempts,rateWindow,none⟩ times).map Machine.Event.output =
      (FixedWindow.windows rateWindow.toNat (times.map UInt64.toNat)).flatMap
        (FixedWindow.firstPass maxAttempts.toNat) := by
  have hlimit : 1 ≤ maxAttempts.toNat := UInt32.le_iff_toNat_le.mp hmax
  rw [← FixedWindow.verdicts_windows hlimit]
  cases times with
  | nil => rfl
  | cons start times =>
    have hrest := outputs_open maxAttempts rateWindow (show (1 : UInt32).toNat = [start.toNat].length from rfl)
      hsorted hfew
    rw [Machine.history_cons, List.map_cons, List.map_cons, FixedWindow.verdicts, FixedWindow.attempt_first,
      Machine.event, Limiter.step, attempt_new]
    have hverdict : decide (1 ≤ maxAttempts) = decide (1 ≤ maxAttempts.toNat) := by
      simp only [hmax, hlimit]
    rw [hverdict]
    exact congrArg (_ :: ·) hrest

/-- A refused call was counted in its window and nothing more. -/
theorem refused_counted {s : ServerInner} (hmax : 1 ≤ s.maxAttempts) {c : LimiterCall}
    (h : (limit s c).1.isOk = false) : ∃ n start, s.rateLimits c.userId = some (n,start) ∧
      (limit s c).2.rateLimits c.userId = some (n + 1,start) := by
  rw [limit_isOk, passes] at h
  rw [limit_eq]
  simp only [counted, PartialMap.insert_self]
  cases hentry : s.rateLimits c.userId with
  | none =>
    rw [hentry, attempt_new] at h
    exact absurd hmax (of_decide_eq_false h)
  | some entry =>
    obtain ⟨n,start⟩ := entry
    rw [hentry, attempt, Option.getD_some] at h
    rw [attempt, Option.getD_some]
    split at h
    · cases h
    · rename_i hx
      rw [if_neg hx]
      exact ⟨n,start,rfl,rfl⟩

theorem callTimes_eq (u : String) (calls : List LimiterCall) : callTimes u calls =
    ((calls.filter (LimiterCall.isFor u)).map (fun c => c.env.limitNow)).map UInt64.toNat := by
  rw [callTimes, List.map_map]
  rfl

/-- A user's call passes exactly if it is among the first of its greedy window.
Refused calls leave the window where it is, and other users' calls change nothing. -/
theorem limiter_greedy (s : ServerInner) (u : String) (hmax : 1 ≤ s.maxAttempts) (hfresh : s.rateLimits u = none)
    {calls : List LimiterCall} (hclock : (calls.map (fun c => c.env.limitNow)).Pairwise (· ≤ ·))
    (hfew : ∀ window ∈ FixedWindow.windows s.rateWindow.toNat (callTimes u calls), window.length < 2 ^ 32) :
    (FixedWindow.windows s.rateWindow.toNat (callTimes u calls)).flatten = callTimes u calls ∧
    ((Machine.history limit s calls).filter (fun e => e.input.isFor u)).map (fun e => e.output.isOk) =
      (FixedWindow.windows s.rateWindow.toNat (callTimes u calls)).flatMap
        (FixedWindow.firstPass s.maxAttempts.toNat) ∧
    (∀ e ∈ Machine.history limit s calls, e.output.isOk = false → ∃ n start,
      e.before.rateLimits e.input.userId = some (n,start) ∧
        e.after.rateLimits e.input.userId = some (n + 1,start)) ∧
    ((Machine.history limit s calls).filter (fun e => e.input.isFor u)).map (fun e => e.output.isOk) =
      (Machine.history limit s (calls.filter (LimiterCall.isFor u))).map (fun e => e.output.isOk) := by
  refine ⟨FixedWindow.flatten_windows _,?_,?_,?_⟩
  · have hsorted : ((calls.filter (LimiterCall.isFor u)).map (fun c => c.env.limitNow)).Pairwise (· ≤ ·) :=
      hclock.sublist (List.filter_sublist.map _)
    rw [callTimes_eq] at hfew ⊢
    rw [outputs_for, limiter, hfresh, outputs_windows hmax hsorted hfew]
  · intro e he hrefused
    obtain ⟨k,hk⟩ := List.mem_iff_getElem?.mp he
    have hbefore : 1 ≤ e.before.maxAttempts :=
      Machine.invariant_at (I := fun t : ServerInner => 1 ≤ t.maxAttempts) (fun t c ht => by rwa [limit_eq]) hmax hk
    have hstep := Machine.step_at hk
    have hcounted := @refused_counted e.before hbefore e.input (by rwa [hstep])
    rwa [hstep] at hcounted
  · have hown : (Machine.history limit s (calls.filter (LimiterCall.isFor u))).filter (fun e => e.input.isFor u) =
        Machine.history limit s (calls.filter (LimiterCall.isFor u)) := by
      rw [List.filter_eq_self]
      exact fun e he => (List.mem_filter.mp (Machine.input_mem he)).2
    rw [← hown, outputs_for, outputs_for, List.filter_filter]
    simp only [Bool.and_self]

section

def limiterCall (now : UInt64) (u : String) : LimiterCall := ⟨sampleEnv now [] (sampleNonce 0),u⟩

/-- Three calls in one window of which two pass, and the first of the next. -/
theorem limiter_greedy_two : ((Machine.history limit { new "example.org" with maxAttempts := 2, rateWindow := 10 }
    [limiterCall 5 "alice",limiterCall 6 "bob",limiterCall 15 "alice",limiterCall 15 "alice",
      limiterCall 16 "alice"]).filter (fun e => e.input.isFor "alice")).map (fun e => e.output.isOk) =
        [true,true,false,true] :=
  (limiter_greedy { new "example.org" with maxAttempts := 2, rateWindow := 10 } "alice" (by decide) rfl (by decide)
    (by decide)).2.1

end

end PqAuth.PqAuthServer
