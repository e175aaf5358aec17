import PqAuth.Foundation.LongInterval
import PqAuth.Server.AuditLog
import PqAuth.Server.GreedyWindows
import PqAuth.Server.LimiterArithmetic

/-! The rate limit over long runs, from both sides: how many attempts a guesser
gets in any stretch of time, and that no user is refused without cause. -/
namespace PqAuth.PqAuthServer
variable {crates : Crates} {serverId : String} {calls : List Call} {u : String}

/-- A call for `u` at a clock time in `[a, b]` that passed the limiter. -/
def passesBetween (u : String) (a b : ℕ) (e : Event) : Bool :=
  pastLimiter u e && a ≤ e.input.env.limitNow.toNat && e.input.env.limitNow.toNat ≤ b

theorem countP_passesBetween (hchron : Chronological calls) (hfits : CounterFits u (history crates serverId calls))
    (a b : ℕ) : (history crates serverId calls).countP (passesBetween u a b) =
      FixedWindow.passedBetween 5 300 none (limiterTimes u (history crates serverId calls)) a b := by
  rw [FixedWindow.passedBetween, ← (limiter_refines hchron hfits).2, limiterTimes, List.zip_map', List.countP_map,
    List.countP_filter]
  apply List.countP_congr
  intro e _
  have hreach : pastLimiter u e = true → reachesLimiter u e = true := fun h => (Bool.and_eq_true_iff.mp h).1
  simp only [passesBetween, Function.comp_apply, Bool.and_eq_true]
  exact ⟨fun h => ⟨h,hreach h.1.1⟩,fun h => h.1⟩

theorem countP_passesBetween_le (hchron : Chronological calls)
    (hfits : CounterFits u (history crates serverId calls)) {a b : ℕ} (hab : a ≤ b) :
    (history crates serverId calls).countP (passesBetween u a b) ≤ 5 * ((b - a) / 301 + 2) - 1 := by
  rw [countP_passesBetween hchron hfits]
  exact FixedWindow.passedBetween_le (by decide) (limiterTimes_pairwise hchron u) hab

/-- A verification for `u` with a verdict, whatever the method, at a time in `[a, b]`. -/
def judgedBetween (u : String) (a b : ℕ) (e : Event) : Bool :=
  (match e.input.request with | .verify req => req.userId == u | _ => false) && e.output.isOk &&
    a ≤ e.input.env.limitNow.toNat && e.input.env.limitNow.toNat ≤ b

theorem Transition.judged_inv {s s' : ServerInner} {env : Env} {req : VerifyRequest} {reply : Reply}
    (ht : Transition crates s env (.verify req) reply s') (hok : reply.isOk = true) :
    (∃ record, s.users req.userId = some record) ∧ passes s env req.userId = true := by
  cases ht
  case totp hu hl _ => exact ⟨⟨_,hu⟩,hl⟩
  case answered hu hl _ _ => exact ⟨⟨_,hu⟩,hl⟩
  all_goals cases hok

theorem judged_passes {k : ℕ} {e : Event} (he : (history crates serverId calls)[k]? = some e) {a b : ℕ}
    (h : judgedBetween u a b e = true) : passesBetween u a b e = true := by
  simp only [judgedBetween, Bool.and_eq_true] at h
  obtain ⟨⟨⟨hreq,hok⟩,ha⟩,hb⟩ := h
  simp only [passesBetween, Bool.and_eq_true]
  refine ⟨⟨?_,ha⟩,hb⟩
  split at hreq
  · rename_i req hverify
    obtain rfl : req.userId = u := by simpa using hreq
    have ht := transition_at he
    rw [hverify] at ht
    obtain ⟨hu,hl⟩ := ht.judged_inv hok
    exact (pastLimiter_iff ..).mpr ⟨by rw [hverify]; rfl,hu,hl⟩
  · cases hreq

/-- In any stretch of time a guesser gets five verdicts for each window that
can open in it, and nine more. -/
theorem guesses_le (hchron : Chronological calls) (hfits : CounterFits u (history crates serverId calls))
    {a b : ℕ} (hab : a ≤ b) :
    (history crates serverId calls).countP (judgedBetween u a b) ≤ 5 * ((b - a) / 301) + 9 := by
  have hle := countP_passesBetween_le hchron hfits hab
  have hmono : (history crates serverId calls).countP (judgedBetween u a b) ≤
      (history crates serverId calls).countP (passesBetween u a b) := by
    apply List.countP_mono_left
    intro e he hjudged
    obtain ⟨k,hk⟩ := List.mem_iff_getElem?.mp he
    exact judged_passes hk hjudged
  omega

/-- No window outgrows the counter in a run that is short enough. -/
theorem counterFits_of_length (h : calls.length < 2 ^ 32) : CounterFits u (history crates serverId calls) := by
  intro a
  apply Nat.lt_of_le_of_lt List.countP_le_length
  rw [limiterTimes, List.length_map]
  apply Nat.lt_of_le_of_lt (List.length_filter_le ..)
  rwa [history, Machine.history_length]

/-- A wrong code ten seconds after the enrollment, within the bound for ten minutes. -/
theorem guesses_le_guessed : (history Transparent.crates "example.org" (guessed 100000000)).countP
    (judgedBetween "alice" 1000 1600) ≤ 5 * ((1600 - 1000) / 301) + 9 :=
  guesses_le (by decide) (counterFits_of_length (by decide)) (by decide)

theorem limitNow_le {c d : Call} (hchron : Chronological (calls ++ [c])) (hd : d ∈ calls) :
    d.env.limitNow ≤ c.env.limitNow := by
  rw [Chronological, List.flatMap_append, List.pairwise_append] at hchron
  exact hchron.2.2 _ (List.mem_flatMap.mpr ⟨d,hd,by simp⟩) _ (by simp)

private theorem count_one {n : UInt32} : (n + 1).toNat ≤ n.toNat + 1 := by
  rw [UInt32.toNat_add]
  exact Nat.mod_le _ _

/-- A window opens with the call or goes on. -/
private theorem attempt_cases (maxAttempts : UInt32) (rateWindow : UInt64) (entry : Option (UInt32 × UInt64))
    (now : UInt64) : (attempt maxAttempts rateWindow entry now).2 = (1,now) ∨
      ∃ n start, entry = some (n,start) ∧ (attempt maxAttempts rateWindow entry now).2 = (n + 1,start) := by
  cases entry with
  | none =>
    rw [attempt_new]
    exact Or.inl rfl
  | some entry =>
    obtain ⟨n,start⟩ := entry
    unfold attempt
    rw [Option.getD_some]
    dsimp only
    split
    · exact Or.inl rfl
    · exact Or.inr ⟨n,start,rfl,rfl⟩

/-- An entry counts calls of the run, and its window opened with one of them. -/
theorem entry_bounded {n : UInt32} {start : UInt64}
    (hentry : (final crates serverId calls).rateLimits u = some (n,start)) :
    n.toNat ≤ calls.length ∧ ∃ c ∈ calls, start = c.env.limitNow := by
  induction calls using List.reverseRecOn generalizing n start with
  | nil => simp [final, new] at hentry
  | append_singleton calls c ih =>
    have hfinal : final crates serverId (calls ++ [c]) = (step crates (final crates serverId calls) c).2 :=
      Machine.final_append ..
    obtain ⟨hmax,hwidth⟩ := limits_final crates serverId calls
    rw [hfinal, (transition crates (final crates serverId calls) c).rateLimits_eq u, hmax, hwidth] at hentry
    rw [List.length_append, List.length_singleton]
    split at hentry
    · obtain hnew | ⟨m,opened,hold,hcounted⟩ :=
        attempt_cases 5 300 ((final crates serverId calls).rateLimits u) c.env.limitNow
      · obtain ⟨rfl,rfl⟩ := Prod.mk.inj (hnew.symm.trans (Option.some.inj hentry))
        exact ⟨Nat.le_add_left 1 _,c,by simp,rfl⟩
      · obtain ⟨rfl,rfl⟩ := Prod.mk.inj (hcounted.symm.trans (Option.some.inj hentry))
        obtain ⟨hm,d,hd,hstart⟩ := ih hold
        exact ⟨count_one.trans (Nat.add_le_add_right hm 1),d,List.mem_append_left _ hd,hstart⟩
    · obtain ⟨hn,d,hd,hstart⟩ := ih hentry
      exact ⟨Nat.le_succ_of_le hn,d,List.mem_append_left _ hd,hstart⟩

theorem chronological_at (hchron : Chronological calls) {k : ℕ} {e : Event}
    (he : (history crates serverId calls)[k]? = some e) : Chronological (calls.take k ++ [e.input]) := by
  have hprefix : calls.take (k + 1) = calls.take k ++ [e.input] := by
    rw [List.take_add_one, Machine.input_at he, Option.toList_some]
  rw [← hprefix]
  rw [← List.take_append_drop (k + 1) calls] at hchron
  exact hchron.of_append

/-- A call that passed since `start`. -/
private def passedSince (u : String) (start : UInt64) (e : Event) : Bool :=
  pastLimiter u e && start.toNat ≤ e.input.env.limitNow.toNat

/-- One attempt keeps the count of a window behind its calls that passed, five at most. -/
private theorem passedSince_attempt {past : List Event} {e : Event} {now : UInt64}
    (hnow : e.input.env.limitNow = now) {entry : Option (UInt32 × UInt64)}
    (hpass : pastLimiter u e = (attempt 5 300 entry now).1)
    (hentry : ∀ n start, entry = some (n,start) → start ≤ now ∧ min n.toNat 5 ≤ past.countP (passedSince u start)) :
    min (attempt 5 300 entry now).2.1.toNat 5 ≤
      (past ++ [e]).countP (passedSince u (attempt 5 300 entry now).2.2) := by
  have hcount (start : UInt64) (hstart : start ≤ now) (hp : pastLimiter u e = true) :
      (past ++ [e]).countP (passedSince u start) = past.countP (passedSince u start) + 1 := by
    have hle := UInt64.le_iff_toNat_le.mp hstart
    simp [List.countP_append, passedSince, hp, hnow, hle]
  cases entry with
  | none =>
    rw [attempt_new] at hpass ⊢
    rw [hcount now (UInt64.le_refl _) hpass]
    exact (Nat.min_le_left ..).trans (Nat.le_add_left 1 _)
  | some entry =>
    obtain ⟨n,start⟩ := entry
    obtain ⟨hstart,hmin⟩ := hentry n start rfl
    rcases Nat.lt_or_ge (start.toNat + (300 : UInt64).toNat) now.toNat with hx | hx
    · rw [attempt_closed 5 n hx] at hpass ⊢
      rw [hcount now (UInt64.le_refl _) hpass]
      exact (Nat.min_le_left ..).trans (Nat.le_add_left 1 _)
    · rw [attempt_within 5 n hstart hx] at hpass ⊢
      dsimp only at hpass ⊢
      have hone := @count_one n
      by_cases hlimit : n + 1 ≤ 5
      · rw [hcount start hstart (by rw [hpass]; exact decide_eq_true hlimit)]
        omega
      · rw [UInt32.le_iff_toNat_le] at hlimit
        change ¬ _ ≤ 5 at hlimit
        rw [List.countP_append]
        omega

/-- While a window is in progress, its first five calls passed. -/
private theorem passes_since (hchron : Chronological calls) {n : UInt32} {start : UInt64}
    (hentry : (final crates serverId calls).rateLimits u = some (n,start)) :
    min n.toNat 5 ≤ (history crates serverId calls).countP (passedSince u start) := by
  induction calls using List.reverseRecOn generalizing n start with
  | nil => simp [final, new] at hentry
  | append_singleton calls c ih =>
    have hfinal : final crates serverId (calls ++ [c]) = (step crates (final crates serverId calls) c).2 :=
      Machine.final_append ..
    have hhistory : history crates serverId (calls ++ [c]) = history crates serverId calls ++
        [Machine.event (step crates) (final crates serverId calls) c] := Machine.history_append ..
    obtain ⟨hmax,hwidth⟩ := limits_final crates serverId calls
    rw [hfinal, (transition crates (final crates serverId calls) c).rateLimits_eq u, hmax, hwidth] at hentry
    rw [hhistory]
    split at hentry
    · rename_i hguard
      have hr := (reachesLimiter_iff u (Machine.event (step crates) (final crates serverId calls) c)).mpr hguard
      have hpass : pastLimiter u (Machine.event (step crates) (final crates serverId calls) c) =
          (attempt 5 300 ((final crates serverId calls).rateLimits u) c.env.limitNow).1 := by
        rw [pastLimiter_of_reaches hr, ← hmax, ← hwidth]
        rfl
      have hattempt := @passedSince_attempt u (history crates serverId calls) _ c.env.limitNow rfl _ hpass (by
        intro n start h
        obtain ⟨_,d,hd,rfl⟩ := entry_bounded h
        exact ⟨limitNow_le hchron hd,ih hchron.of_append h⟩)
      rwa [Option.some.inj hentry] at hattempt
    · rw [List.countP_append]
      exact (ih hchron.of_append hentry).trans (Nat.le_add_right ..)

theorem Transition.refused_inv {s s' : ServerInner} {env : Env} {request : Request}
    (ht : Transition crates s env request (.error .rateLimited) s') (hu : request.limitedUser = some u) :
    passes s env u = false := by
  cases ht
  case issueLimited hl => rwa [← Option.some.inj hu]
  case verifyLimited hl => rwa [← Option.some.inj hu]

/-- A call refused has an entry of five counted calls at least, in a window that goes on. -/
private theorem refused_entry {s : ServerInner} {env : Env} (hmax : s.maxAttempts = 5) (hwidth : s.rateWindow = 300)
    (hl : passes s env u = false) (hstart : ∀ n start, s.rateLimits u = some (n,start) → start ≤ env.limitNow) :
    ∃ n start, s.rateLimits u = some (n,start) ∧ 5 ≤ n.toNat ∧ env.limitNow.toNat ≤ start.toNat + 300 := by
  rw [passes, hmax, hwidth] at hl
  cases hentry : s.rateLimits u with
  | none =>
    rw [hentry, attempt_new] at hl
    cases hl
  | some entry =>
    obtain ⟨n,start⟩ := entry
    rw [hentry] at hl
    refine ⟨n,start,rfl,?_⟩
    rcases Nat.lt_or_ge (start.toNat + (300 : UInt64).toNat) env.limitNow.toNat with hx | hx
    · rw [attempt_closed 5 n hx] at hl
      cases hl
    · rw [attempt_within 5 n (hstart n start hentry) hx] at hl
      have hmany := of_decide_eq_false hl
      rw [UInt32.le_iff_toNat_le] at hmany
      change ¬ _ ≤ 5 at hmany
      have hone := @count_one n
      exact ⟨by omega,hx⟩

/-- The limiter stops a call only after five of its user passed within the last 300 seconds. -/
theorem five_passed (hchron : Chronological calls) {k : ℕ} {e : Event}
    (he : (history crates serverId calls)[k]? = some e) (hl : passes e.before e.input.env u = false) :
    5 ≤ ((history crates serverId calls).take k).countP
      (passesBetween u (e.input.env.limitNow.toNat - 300) e.input.env.limitNow.toNat) := by
  have hpast : (history crates serverId calls).take k = history crates serverId (calls.take k) :=
    Machine.history_take ..
  have hnext := chronological_at hchron he
  obtain ⟨hmax,hwidth⟩ := limits_final crates serverId (calls.take k)
  rw [show e.before = final crates serverId (calls.take k) from Machine.before_at he] at hl
  obtain ⟨n,start,hentry,hfive,hopen⟩ := refused_entry hmax hwidth hl (by
    intro n start h
    obtain ⟨_,d,hd,rfl⟩ := entry_bounded h
    exact limitNow_le hnext hd)
  have hmin := passes_since hnext.of_append hentry
  rw [Nat.min_eq_right hfive] at hmin
  rw [hpast]
  refine hmin.trans (List.countP_mono_left ?_)
  intro f hf hpassed
  have hnow := limitNow_le hnext (Machine.input_mem hf)
  rw [UInt64.le_iff_toNat_le] at hnow
  simp only [passedSince, passesBetween, Bool.and_eq_true, decide_eq_true_eq] at hpassed ⊢
  exact ⟨⟨hpassed.1,by omega⟩,hnow⟩

/-- A call is refused only after five calls of its user passed within the last 300 seconds. -/
theorem refusal_justified (hchron : Chronological calls) {k : ℕ} {e : Event}
    (he : (history crates serverId calls)[k]? = some e) (hreq : e.input.request.limitedUser = some u)
    (hrefused : e.output = .error .rateLimited) :
    5 ≤ ((history crates serverId calls).take k).countP
      (passesBetween u (e.input.env.limitNow.toNat - 300) e.input.env.limitNow.toNat) := by
  have ht := transition_at he
  rw [hrefused] at ht
  exact five_passed hchron he (ht.refused_inv hreq)

/-- A sixth call at the end of the window. -/
def sixthCall : Call := issueCall (sampleNonce 0) "alice" 2300

private theorem sixth_refused : (Machine.event (step Transparent.crates)
    (final Transparent.crates "example.org" fiveCalls) sixthCall).output = .error .rateLimited := by
  obtain ⟨record,hu⟩ := Option.isSome_iff_exists.mp fiveCalls_users
  obtain ⟨hmax,hwidth⟩ := limits_final Transparent.crates "example.org" fiveCalls
  have hl : passes (final Transparent.crates "example.org" fiveCalls) sixthCall.env "alice" = false := by
    rw [passes, fiveCalls_entry, hmax, hwidth]
    decide
  have hstep : step Transparent.crates (final Transparent.crates "example.org" fiveCalls) sixthCall = _ :=
    Transition.step_eq (.issueLimited hu hl)
  rw [Machine.event, hstep]

private theorem sixth_event : (history Transparent.crates "example.org" (fiveCalls ++ [sixthCall]))[7]? =
    some (Machine.event (step Transparent.crates) (final Transparent.crates "example.org" fiveCalls) sixthCall) := by
  have hlen : (history Transparent.crates "example.org" fiveCalls).length = 7 := Machine.history_length ..
  rw [history, Machine.history_append, ← hlen]
  exact List.getElem?_concat_length

theorem refusal_justified_sixth :
    5 ≤ ((history Transparent.crates "example.org" (fiveCalls ++ [sixthCall])).take 7).countP
      (passesBetween "alice" (2300 - 300) 2300) := by
  have hchron : Chronological (fiveCalls ++ [sixthCall]) := by decide
  have hfive := refusal_justified (u := "alice") hchron sixth_event rfl sixth_refused
  exact hfive

end PqAuth.PqAuthServer
