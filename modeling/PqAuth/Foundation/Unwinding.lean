import PqAuth.Foundation.Machine

/-! Two runs compared step by step. The relation is indexed by the inputs still
to come, so it may speak about deadlines and about requests not yet made. -/
namespace PqAuth.Machine
variable {σ τ ι ο : Type*}

/-- The exchanges of a history that an observer of `seen` inputs receives. -/
def exchanges (seen : ι → Bool) (past : List (Event σ ι ο)) : List (ι × ο) :=
  (past.filter (fun e => seen e.input)).map (fun e => (e.input, e.output))

theorem exchanges_cons (seen : ι → Bool) (e : Event σ ι ο) (past : List (Event σ ι ο)) :
    exchanges seen (e :: past) =
      if seen e.input then (e.input, e.output) :: exchanges seen past else exchanges seen past := by
  unfold exchanges
  rw [List.filter_cons]
  split <;> rfl

theorem exchanges_append (seen : ι → Bool) (past : List (Event σ ι ο)) {e : Event σ ι ο} (h : seen e.input = true) :
    exchanges seen (past ++ [e]) = exchanges seen past ++ [(e.input, e.output)] := by
  simp [exchanges, List.filter_append, h]

variable {step₁ : σ → ι → ο × σ} {step₂ : τ → ι → ο × τ}

/-- Hidden inputs may be dropped from the second run when they keep the relation
on their own and every kept input keeps it with equal answers to the observer. -/
theorem unwinding {R : List ι → σ → τ → Prop} {hidden seen : ι → Bool}
    (hseen : ∀ i, seen i → hidden i = false)
    (hskip : ∀ i is s t, hidden i → R (i :: is) s t → R is (step₁ s i).2 t)
    (hkeep : ∀ i is s t, hidden i = false → R (i :: is) s t → R is (step₁ s i).2 (step₂ t i).2)
    (hout : ∀ i is s t, seen i → R (i :: is) s t → (step₁ s i).1 = (step₂ t i).1)
    (is : List ι) {s : σ} {t : τ} (h : R is s t) :
    exchanges seen (history step₁ s is) =
      exchanges seen (history step₂ t (is.filter (fun i => !hidden i))) := by
  induction is generalizing s t with
  | nil => rfl
  | cons i is ih =>
    rw [history_cons, exchanges_cons, List.filter_cons]
    cases hi : hidden i with
    | true =>
      have hs : seen i = false := by
        by_contra hc
        exact absurd (hseen i (by simpa using hc)) (by simp [hi])
      simpa [event, hs] using ih (hskip i is s t hi h)
    | false =>
      have hr := ih (hkeep i is s t hi h)
      simp only [Bool.not_false, if_true, history_cons, exchanges_cons, event, hr]
      cases hs : seen i with
      | true => simp only [if_true, hout i is s t hs h]
      | false => rfl

/-- Runs on inputs that look alike give the same answers if they do so to the
inputs whose answers may be told. -/
theorem lockstep {κ : Type*} {step₁ : σ → ι → ο × σ} {step₂ : τ → κ → ο × τ} {R : σ → τ → Prop} {alike : ι → κ → Prop}
    {told : ι → Bool}
    (hstep : ∀ s t i j, R s t → alike i j → (told i = true → (step₁ s i).1 = (step₂ t j).1) →
      (step₁ s i).1 = (step₂ t j).1 ∧ R (step₁ s i).2 (step₂ t j).2)
    {is : List ι} {js : List κ} (h : List.Forall₂ alike is js) {s : σ} {t : τ} (hR : R s t)
    (htold : List.Forall₂ (fun e f => told e.input = true → e.output = f.output)
      (history step₁ s is) (history step₂ t js)) :
    (history step₁ s is).map Event.output = (history step₂ t js).map Event.output ∧
      R (final step₁ s is) (final step₂ t js) := by
  induction h generalizing s t with
  | nil => exact ⟨rfl, hR⟩
  | @cons i j is js hij _ ih =>
    obtain ⟨hhead, hrest⟩ := List.forall₂_cons.mp htold
    obtain ⟨hout, hnext⟩ := hstep s t i j hR hij hhead
    obtain ⟨houts, hfinal⟩ := ih hnext hrest
    refine ⟨?_, hfinal⟩
    rw [history_cons, history_cons, List.map_cons, List.map_cons, houts]
    exact congrArg (· :: _) hout

end PqAuth.Machine
