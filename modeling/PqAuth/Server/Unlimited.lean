import PqAuth.Server.GreedyWindows

/-! The limiter decides which calls get through and does nothing else. -/
namespace PqAuth.PqAuthServer
variable {crates : Crates} {s s' : ServerInner} {env : Env} {request : Request} {reply : Reply}

/-- A state without what the limiter counted. -/
def forget (s : ServerInner) : ServerInner := { s with rateLimits := PartialMap.empty }

/-- The server without a limiter: it has counted nothing whenever a request comes. -/
def unlimited (crates : Crates) (s : ServerInner) (c : Call) : Reply × ServerInner :=
  ((step crates (forget s) c).1,forget (step crates (forget s) c).2)

def refused : Reply → Bool
  | .error .rateLimited => true
  | _ => false

theorem passes_forget (hmax : 1 ≤ s.maxAttempts) (env : Env) (u : String) : passes (forget s) env u = true := by
  have hentry : (forget s).rateLimits u = none := rfl
  rw [passes, hentry, attempt_new]
  exact decide_eq_true hmax

/-- A call that was not refused goes the same way without the limiter. -/
theorem Transition.unlimited (ht : Transition crates s env request reply s') (hmax : 1 ≤ s.maxAttempts)
    (hreply : reply ≠ .error .rateLimited) :
    ∃ t, Transition crates (forget s) env request reply t ∧ forget t = forget s' := by
  cases ht
  case alreadyEnrolled hu => exact ⟨_,.alreadyEnrolled hu,rfl⟩
  case begun hu => exact ⟨_,.begun hu,rfl⟩
  case noPendingEnrollment hp => exact ⟨_,.noPendingEnrollment hp,rfl⟩
  case enrollmentFailed hp hc => exact ⟨_,.enrollmentFailed hp hc,rfl⟩
  case enrolled hp hc => exact ⟨_,.enrolled hp hc,rfl⟩
  case issueUnknown hu => exact ⟨_,.issueUnknown hu,rfl⟩
  case issueLimited => exact absurd rfl hreply
  case issued hu _ => exact ⟨_,.issued hu (passes_forget hmax ..),rfl⟩
  case verifyUnknown hu => exact ⟨_,.verifyUnknown hu,rfl⟩
  case verifyLimited => exact absurd rfl hreply
  case totp hu _ hv => exact ⟨_,.totp hu (passes_forget hmax ..) hv,rfl⟩
  case noPendingChallenge hu _ hp => exact ⟨_,.noPendingChallenge hu (passes_forget hmax ..) hp,rfl⟩
  case answered hu _ hp ho => exact ⟨_,.answered hu (passes_forget hmax ..) hp ho,rfl⟩

theorem Transition.forget_refused (ht : Transition crates s env request (.error .rateLimited) s') :
    forget s' = forget s := by
  cases ht <;> rfl

theorem Transition.not_refused (ht : Transition crates (forget s) env request reply s') (hmax : 1 ≤ s.maxAttempts) :
    reply ≠ .error .rateLimited := by
  have hpass (u : String) : passes (forget s) env u ≠ false := by
    rw [passes_forget hmax]
    exact Bool.true_eq_false_eq_False
  cases ht
  case issueLimited hl => exact absurd hl (hpass _)
  case verifyLimited hl => exact absurd hl (hpass _)
  all_goals intro hreply; cases hreply

theorem refused_iff : refused reply = true ↔ reply = .error .rateLimited := by
  unfold refused
  split <;> simp_all

theorem maxAttempts_step (s : ServerInner) (c : Call) (h : 1 ≤ s.maxAttempts) :
    1 ≤ (step crates s c).2.maxAttempts := by
  rwa [(transition crates s c).limits_eq.1]

/-- The calls that were not refused leave the server where it would be without a
limiter and get the replies it would give, step by step and whatever the clock
does. Such a server refuses nothing. -/
theorem limiter_filters (crates : Crates) (serverId : String) (calls : List Call) :
    let kept := (history crates serverId calls).filter (fun e => !refused e.output)
    Machine.history (unlimited crates) (new serverId) (kept.map Machine.Event.input) =
      kept.map (Machine.Event.map forget id) ∧
    Machine.final (unlimited crates) (new serverId) (kept.map Machine.Event.input) =
      forget (final crates serverId calls) ∧
    ∀ more, ∀ e ∈ Machine.history (unlimited crates) (new serverId) more, e.output ≠ .error .rateLimited := by
  intro kept
  have hkeep (s : ServerInner) (c : Call) (hmax : 1 ≤ s.maxAttempts)
      (hkept : (!refused (step crates s c).1) = true) :
      unlimited crates (forget s) c = ((step crates s c).1,forget (step crates s c).2) := by
    rw [Bool.not_eq_true', ← Bool.not_eq_true] at hkept
    obtain ⟨t,ht,hforget⟩ := (transition crates s c).unlimited hmax (mt refused_iff.mpr hkept)
    have hstep : step crates (forget (forget s)) c = _ := ht.step_eq
    rw [unlimited, hstep, hforget]
  have hskip (s : ServerInner) (c : Call) (_ : 1 ≤ s.maxAttempts)
      (hrefused : (!refused (step crates s c).1) = false) :
      forget (step crates s c).2 = forget s := by
    rw [Bool.not_eq_false'] at hrefused
    have ht := transition crates s c
    rw [refused_iff.mp hrefused] at ht
    exact ht.forget_refused
  have hlimit : 1 ≤ (new serverId).maxAttempts := (by decide : (1 : UInt32) ≤ 5)
  obtain ⟨hhistory,hfinal⟩ := Machine.history_filter (p := fun e : Event => !refused e.output) maxAttempts_step hkeep
    hskip hlimit calls
  refine ⟨hhistory,hfinal,?_⟩
  intro more e he
  obtain ⟨k,hk⟩ := List.mem_iff_getElem?.mp he
  have hkeeps (s : ServerInner) (c : Call) (h : 1 ≤ s.maxAttempts) : 1 ≤ (unlimited crates s c).2.maxAttempts :=
    maxAttempts_step (forget s) c h
  have hbefore : 1 ≤ e.before.maxAttempts := Machine.invariant_at hkeeps hlimit hk
  have hreply : (step crates (forget e.before) e.input).1 = e.output := congrArg Prod.fst (Machine.step_at hk)
  exact hreply ▸ (transition crates (forget e.before) e.input).not_refused hbefore

end PqAuth.PqAuthServer
