import Mathlib.Data.List.Basic
import Mathlib.Data.List.Induction

/-! Runs of a deterministic machine that answers every input. Events keep the
state on both sides, so a history determines every intermediate state. -/
namespace PqAuth.Machine
variable {σ ι ο : Type*}

/-- One answered input, with the states around it. -/
structure Event (σ ι ο : Type*) where
  before : σ
  input : ι
  output : ο
  after : σ

def event (step : σ → ι → ο × σ) (s : σ) (i : ι) : Event σ ι ο :=
  ⟨s, i, (step s i).1, (step s i).2⟩

def final (step : σ → ι → ο × σ) (s : σ) (is : List ι) : σ :=
  is.foldl (fun s i => (step s i).2) s

def history (step : σ → ι → ο × σ) : σ → List ι → List (Event σ ι ο)
  | _, [] => []
  | s, i :: is => event step s i :: history step (step s i).2 is

variable (step : σ → ι → ο × σ)

@[simp] theorem final_nil (s : σ) : final step s [] = s := rfl

@[simp] theorem final_cons (s : σ) (i : ι) (is : List ι) :
    final step s (i :: is) = final step (step s i).2 is := rfl

@[simp] theorem history_nil (s : σ) : history step s [] = [] := rfl

@[simp] theorem history_cons (s : σ) (i : ι) (is : List ι) :
    history step s (i :: is) = event step s i :: history step (step s i).2 is := rfl

theorem final_append (s : σ) (is js : List ι) :
    final step s (is ++ js) = final step (final step s is) js := by
  simp only [final, List.foldl_append]

theorem history_append (s : σ) (is js : List ι) :
    history step s (is ++ js) = history step s is ++ history step (final step s is) js := by
  induction is generalizing s with
  | nil => rfl
  | cons i is ih => simp only [List.cons_append, history_cons, final_cons, ih]

@[simp] theorem history_length (s : σ) (is : List ι) : (history step s is).length = is.length := by
  induction is generalizing s with
  | nil => rfl
  | cons i is ih => simp only [history_cons, List.length_cons, ih]

theorem history_inputs (s : σ) (is : List ι) : (history step s is).map Event.input = is := by
  induction is generalizing s with
  | nil => rfl
  | cons i is ih => simp only [history_cons, List.map_cons, ih, event]

theorem history_take (s : σ) (is : List ι) (k : ℕ) :
    (history step s is).take k = history step s (is.take k) := by
  induction is generalizing s k with
  | nil => simp
  | cons i is ih =>
    cases k with
    | zero => rfl
    | succ k => simp only [history_cons, List.take_succ_cons, ih]

theorem getElem?_history (s : σ) (is : List ι) (k : ℕ) :
    (history step s is)[k]? = (is[k]?).map (event step (final step s (is.take k))) := by
  induction is generalizing s k with
  | nil => simp
  | cons i is ih =>
    cases k with
    | zero => rfl
    | succ k => exact ih _ _

/-- The answer at a position, from the state its prefix reaches. -/
theorem output_at (s : σ) (is : List ι) (k : ℕ) :
    ((history step s is).map Event.output)[k]? = (is[k]?).map (fun i => (step (final step s (is.take k)) i).1) := by
  rw [List.getElem?_map, getElem?_history, Option.map_map]
  rfl

variable {step}

/-- The event at a position is the step taken from the state its prefix reaches. -/
theorem event_at {s : σ} {is : List ι} {k : ℕ} {e : Event σ ι ο}
    (h : (history step s is)[k]? = some e) :
    e = event step (final step s (is.take k)) e.input := by
  rw [getElem?_history] at h
  obtain ⟨i, _, rfl⟩ := Option.map_eq_some_iff.mp h
  rfl

theorem input_at {s : σ} {is : List ι} {k : ℕ} {e : Event σ ι ο}
    (h : (history step s is)[k]? = some e) : is[k]? = some e.input := by
  rw [← history_inputs step s is, List.getElem?_map, h]
  rfl

theorem input_mem {s : σ} {is : List ι} {e : Event σ ι ο} (h : e ∈ history step s is) : e.input ∈ is := by
  rw [← history_inputs step s is]
  exact List.mem_map_of_mem h

theorem before_at {s : σ} {is : List ι} {k : ℕ} {e : Event σ ι ο}
    (h : (history step s is)[k]? = some e) : e.before = final step s (is.take k) := by
  rw [event_at h]
  rfl

theorem step_at {s : σ} {is : List ι} {k : ℕ} {e : Event σ ι ο}
    (h : (history step s is)[k]? = some e) : step e.before e.input = (e.output, e.after) := by
  rw [event_at h]
  rfl

/-- Consecutive events share the state between them. -/
theorem consecutive {s : σ} {is : List ι} {k : ℕ} {e f : Event σ ι ο}
    (he : (history step s is)[k]? = some e) (hf : (history step s is)[k + 1]? = some f) :
    f.before = e.after := by
  induction is generalizing s k with
  | nil => simp at he
  | cons i is ih =>
    cases k with
    | succ k => exact ih (by simpa using he) (by simpa using hf)
    | zero =>
      obtain rfl : event step s i = e := by simpa using he
      rw [history_cons, List.getElem?_cons_succ] at hf
      exact before_at hf

/-- A step-preserved property of states holds at the end of every run. -/
theorem final_invariant {I : σ → Prop} (hstep : ∀ s i, I s → I (step s i).2) {s : σ} (h : I s)
    (is : List ι) : I (final step s is) := by
  induction is generalizing s with
  | nil => exact h
  | cons i is ih => exact ih (hstep s i h)

theorem invariant_at {I : σ → Prop} (hstep : ∀ s i, I s → I (step s i).2) {s : σ} (h : I s)
    {is : List ι} {k : ℕ} {e : Event σ ι ο} (he : (history step s is)[k]? = some e) : I e.before := by
  rw [before_at he]
  exact final_invariant hstep h _

/-- Induction along a run for properties that relate the past events to the
state they reached. -/
theorem history_invariant {J : List (Event σ ι ο) → σ → Prop} {s : σ} (h : J [] s)
    (hstep : ∀ past t i, J past t → J (past ++ [event step t i]) (step t i).2) (is : List ι) :
    J (history step s is) (final step s is) := by
  induction is using List.reverseRecOn with
  | nil => exact h
  | append_singleton is i ih =>
    rw [history_append, final_append]
    exact hstep _ _ _ ih

theorem history_invariant_at {J : List (Event σ ι ο) → σ → Prop} {s : σ} (h : J [] s)
    (hstep : ∀ past t i, J past t → J (past ++ [event step t i]) (step t i).2) {is : List ι} {k : ℕ}
    {e : Event σ ι ο} (he : (history step s is)[k]? = some e) :
    J ((history step s is).take k) e.before := by
  rw [before_at he, history_take]
  exact history_invariant h hstep _

/-- What one event establishes and every event strictly between preserves
still holds when a later event starts. -/
theorem carried {Q : σ → Prop} {s : σ} {is : List ι} {j k : ℕ} {e f : Event σ ι ο}
    (hjk : j < k) (he : (history step s is)[j]? = some e) (hf : (history step s is)[k]? = some f)
    (hq : Q e.after)
    (hkeep : ∀ m g, j < m → m < k → (history step s is)[m]? = some g → Q g.before → Q g.after) :
    Q f.before := by
  obtain ⟨d, rfl⟩ := Nat.exists_eq_add_of_lt hjk
  induction d generalizing f with
  | zero => rw [consecutive he hf]; exact hq
  | succ d ih =>
    have hlt : j + d + 1 < (history step s is).length := by
      have := (List.getElem?_eq_some_iff.mp hf).1
      omega
    have hg := List.getElem?_eq_getElem hlt
    have hb := ih (by omega) hg (fun m g hm hk => hkeep m g hm (by omega))
    rw [consecutive hg hf]
    exact hkeep _ _ (by omega) (by omega) hg hb

/-- The same, up to the end of the run. -/
theorem carried_final {Q : σ → Prop} {s : σ} {is : List ι} {j : ℕ} {e : Event σ ι ο}
    (he : (history step s is)[j]? = some e) (hq : Q e.after)
    (hkeep : ∀ m g, j < m → (history step s is)[m]? = some g → Q g.before → Q g.after) :
    Q (final step s is) := by
  induction is using List.reverseRecOn with
  | nil => simp at he
  | append_singleton is i ih =>
    have hlen := history_length step s is
    have hold {m : ℕ} (hm : m < is.length) : (history step s (is ++ [i]))[m]? = (history step s is)[m]? := by
      rw [history_append, List.getElem?_append_left (by omega)]
    have hlast : (history step s (is ++ [i]))[is.length]? = some (event step (final step s is) i) := by
      rw [history_append, List.getElem?_append_right (by omega), hlen]
      simp
    rw [final_append, final_cons, final_nil]
    rcases Nat.lt_or_ge j is.length with hj | hj
    · refine hkeep is.length _ hj hlast (ih (hold hj ▸ he) ?_)
      intro m g hm hg
      exact hkeep m g hm (by rw [hold (hlen ▸ (List.getElem?_eq_some_iff.mp hg).1)]; exact hg)
    · have hjlen : j = is.length := by
        have := (List.getElem?_eq_some_iff.mp he).1
        simp only [history_length, List.length_append, List.length_singleton] at this
        omega
      obtain rfl := Option.some.inj (hlast.symm.trans (hjlen ▸ he))
      exact hq

/-- Events that exclude each other happen at most once in a run. -/
theorem countP_le_one {p : Event σ ι ο → Bool} {past : List (Event σ ι ο)}
    (h : ∀ (i j : ℕ) e f, i < j → past[i]? = some e → past[j]? = some f → p e → ¬ p f) : past.countP p ≤ 1 := by
  induction past with
  | nil => simp
  | cons e past ih =>
    have htail := ih (fun i j e f hij he hf => h (i + 1) (j + 1) e f (by omega) he hf)
    rw [List.countP_cons]
    split
    · rename_i hp
      have hnone : past.countP p = 0 := by
        rw [List.countP_eq_zero]
        intro f hf
        obtain ⟨j, hj⟩ := List.mem_iff_getElem?.mp hf
        exact h 0 (j + 1) e f (by omega) rfl hj hp
      omega
    · omega

section
variable {τ κ : Type*} {step' : τ → κ → ο × τ} {abs : σ → τ} {f : ι → κ}

def Event.map (abs : σ → τ) (f : ι → κ) (e : Event σ ι ο) : Event τ κ ο :=
  ⟨abs e.before, f e.input, e.output, abs e.after⟩

/-- A machine that steps alike on abstracted states and inputs runs alike. -/
theorem history_map (h : ∀ s i, step' (abs s) (f i) = ((step s i).1, abs (step s i).2)) (s : σ) (is : List ι) :
    history step' (abs s) (is.map f) = (history step s is).map (Event.map abs f) := by
  induction is generalizing s with
  | nil => rfl
  | cons i is ih =>
    rw [List.map_cons, history_cons, history_cons, List.map_cons, h, ih, event, h]
    rfl

theorem final_map (h : ∀ s i, step' (abs s) (f i) = ((step s i).1, abs (step s i).2)) (s : σ) (is : List ι) :
    final step' (abs s) (is.map f) = abs (final step s is) := by
  induction is generalizing s with
  | nil => rfl
  | cons i is ih => rw [List.map_cons, final_cons, h, ih, final_cons]

/-- A machine that follows some of the inputs and ignores the others runs on
those alone. The output may be abstracted too. -/
theorem outputs_filter {ω : Type*} {step' : τ → κ → ω × τ} {g : ο → ω} {p : ι → Bool}
    (h : ∀ s i, p i = true → step' (abs s) (f i) = (g (step s i).1, abs (step s i).2))
    (hskip : ∀ s i, p i = false → abs (step s i).2 = abs s) (s : σ) (is : List ι) :
    (history step' (abs s) ((is.filter p).map f)).map Event.output =
      ((history step s is).filter (fun e => p e.input)).map (fun e => g e.output) := by
  induction is generalizing s with
  | nil => rfl
  | cons i is ih =>
    have hrest := ih (step s i).2
    cases hp : p i with
    | true =>
      have hstep := h s i hp
      simp only [history_cons, List.filter_cons, event, hp, if_true, List.map_cons, hstep, hrest]
    | false =>
      rw [hskip s i hp] at hrest
      simp only [history_cons, List.filter_cons, event, hp, Bool.false_eq_true, if_false, hrest]

/-- A machine that passes some of its inputs on, and answers the others itself,
runs as the machine behind it does on what it passes on. -/
theorem history_filterMap {ω : Type*} {front : σ → ι → ω × σ} {back : σ → κ → ο × σ} {f : ι → Option κ} {g : ο → ω}
    (h : ∀ s i k, f i = some k → front s i = (g (back s k).1, (back s k).2))
    (hskip : ∀ s i, f i = none → (front s i).2 = s) (s : σ) (is : List ι) :
    ((history front s is).filter (fun e => (f e.input).isSome)).map Event.output =
      (history back s (is.filterMap f)).map (fun e => g e.output) ∧
    final front s is = final back s (is.filterMap f) := by
  induction is generalizing s with
  | nil => exact ⟨rfl, rfl⟩
  | cons i is ih =>
    have hrest := ih (front s i).2
    cases hf : f i with
    | none =>
      rw [hskip s i hf] at hrest
      simpa [event, hf, hskip s i hf] using hrest
    | some k =>
      rw [h s i k hf] at hrest
      simpa [event, hf, h s i k hf] using hrest

/-- A machine that agrees on the events kept, and is not concerned by the others,
goes through the same states on the inputs of those kept. -/
theorem history_filter {step' : τ → ι → ο × τ} {p : Event σ ι ο → Bool} {I : σ → Prop}
    (hI : ∀ s i, I s → I (step s i).2)
    (h : ∀ s i, I s → p (event step s i) = true → step' (abs s) i = ((step s i).1, abs (step s i).2))
    (hskip : ∀ s i, I s → p (event step s i) = false → abs (step s i).2 = abs s) {s : σ} (hs : I s) (is : List ι) :
    history step' (abs s) (((history step s is).filter p).map Event.input) =
        ((history step s is).filter p).map (Event.map abs id) ∧
      final step' (abs s) (((history step s is).filter p).map Event.input) = abs (final step s is) := by
  induction is generalizing s with
  | nil => exact ⟨rfl, rfl⟩
  | cons i is ih =>
    have hrest := ih (hI s i hs)
    rw [history_cons, final_cons]
    cases hp : p (event step s i) with
    | true =>
      have hstep := h s i hs hp
      rw [List.filter_cons_of_pos hp, List.map_cons, List.map_cons, history_cons, final_cons]
      simp only [event, hstep]
      exact ⟨congrArg (_ :: ·) hrest.1, hrest.2⟩
    | false =>
      rw [hskip s i hs hp] at hrest
      rw [List.filter_cons_of_neg (by rw [hp]; exact Bool.false_ne_true)]
      exact hrest

end

end PqAuth.Machine
