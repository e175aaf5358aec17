import PqAuth.Foundation.Machine

/-! A machine behind a lock. An input that aborts poisons the lock, and then no
input is answered. -/
namespace PqAuth.Poison
variable {σ ι ο : Type*}

def step (aborts : σ → ι → Bool) (step : σ → ι → ο × σ) : Option σ → ι → Option ο × Option σ
  | none, _ => (none,none)
  | some s, i => if aborts s i then (none,none) else (some (step s i).1,some (step s i).2)

/-- Every input is answered if no event of the machine alone aborts. -/
theorem answered_iff {aborts : σ → ι → Bool} {inner : σ → ι → ο × σ} {s : σ} {is : List ι} :
    (∀ e ∈ Machine.history (step aborts inner) (some s) is, e.output.isSome = true) ↔
      ∀ e ∈ Machine.history inner s is, aborts e.before e.input = false := by
  induction is generalizing s with
  | nil => simp
  | cons i is ih =>
    rw [Machine.history_cons, Machine.history_cons, List.forall_mem_cons, List.forall_mem_cons]
    cases ha : aborts s i with
    | true =>
      have houtput : (Machine.event (step aborts inner) (some s) i).output = none := by
        rw [Machine.event, step, if_pos ha]
      rw [houtput]
      simp [Machine.event, ha]
    | false =>
      have hstep : step aborts inner (some s) i = (some (inner s i).1,some (inner s i).2) :=
        if_neg (by rw [ha]; exact Bool.false_ne_true)
      rw [Machine.event, hstep, ih]
      simp [Machine.event, ha]

/-- Then it is also where the machine alone would be. -/
theorem final_eq {aborts : σ → ι → Bool} {inner : σ → ι → ο × σ} {s : σ} {is : List ι}
    (h : ∀ e ∈ Machine.history inner s is, aborts e.before e.input = false) :
    Machine.final (step aborts inner) (some s) is = some (Machine.final inner s is) := by
  induction is generalizing s with
  | nil => rfl
  | cons i is ih =>
    rw [Machine.history_cons, List.forall_mem_cons] at h
    have hstep : step aborts inner (some s) i = (some (inner s i).1,some (inner s i).2) :=
      if_neg (by rw [show aborts s i = false from h.1]; exact Bool.false_ne_true)
    rw [Machine.final_cons, Machine.final_cons, hstep]
    exact ih h.2

theorem final_poisoned (aborts : σ → ι → Bool) (inner : σ → ι → ο × σ) (is : List ι) :
    Machine.final (step aborts inner) none is = none := by
  induction is with
  | nil => rfl
  | cons i is ih => exact ih

/-- A lock that is sound after a run guards what the machine alone reaches. -/
theorem final_of_some {aborts : σ → ι → Bool} {inner : σ → ι → ο × σ} {s t : σ} {is : List ι}
    (h : Machine.final (step aborts inner) (some s) is = some t) : t = Machine.final inner s is := by
  induction is generalizing s with
  | nil => exact (Option.some.inj h).symm
  | cons i is ih =>
    rw [Machine.final_cons, step] at h
    split at h
    · rw [final_poisoned] at h
      cases h
    · exact ih h

theorem history_poisoned (aborts : σ → ι → Bool) (inner : σ → ι → ο × σ) (is : List ι) :
    (Machine.history (step aborts inner) none is).filterMap (fun e => e.output.map (Prod.mk e.input)) = [] := by
  induction is with
  | nil => rfl
  | cons i is ih => exact ih

/-- The inputs that are answered come first, and as the machine alone answers them. -/
theorem history_answered (aborts : σ → ι → Bool) (inner : σ → ι → ο × σ) (s : σ) (is : List ι) :
    ∃ k, (Machine.history (step aborts inner) (some s) is).filterMap (fun e => e.output.map (Prod.mk e.input)) =
      (Machine.history inner s (is.take k)).map (fun e => (e.input,e.output)) := by
  induction is generalizing s with
  | nil => exact ⟨0,rfl⟩
  | cons i is ih =>
    cases ha : aborts s i with
    | true =>
      have hstep : step aborts inner (some s) i = (none,none) := if_pos ha
      refine ⟨0,?_⟩
      rw [Machine.history_cons, List.filterMap_cons, Machine.event, hstep]
      exact history_poisoned ..
    | false =>
      have hstep : step aborts inner (some s) i = (some (inner s i).1,some (inner s i).2) :=
        if_neg (by rw [ha]; exact Bool.false_ne_true)
      obtain ⟨k,hk⟩ := ih (inner s i).2
      refine ⟨k + 1,?_⟩
      rw [Machine.history_cons, List.filterMap_cons, Machine.event, hstep, List.take_succ_cons, Machine.history_cons,
        List.map_cons]
      exact congrArg (_ :: ·) hk

end PqAuth.Poison
