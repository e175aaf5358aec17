import Mathlib.Data.List.Induction
import Mathlib.Order.Interval.Set.Basic

/-! A limiter with windows that open at the first attempt after the last window
closed. Attempts beyond the limit are refused and still counted. -/
namespace PqAuth.FixedWindow

/-- Attempts counted so far and the time the window opened. -/
abbrev Window := ℕ × ℕ

/-- One attempt: whether it passes, and the window afterwards. -/
def attempt (limit width : ℕ) (window : Option Window) (now : ℕ) : Bool × Window :=
  let window := window.getD (0,now)
  if width < now - window.2 then (true,1,now)
  else (window.1 + 1 ≤ limit,window.1 + 1,window.2)

def state (limit width : ℕ) (window : Option Window) (times : List ℕ) : Option Window :=
  times.foldl (fun window now => some (attempt limit width window now).2) window

/-- The verdicts on attempts made at the given times. -/
def verdicts (limit width : ℕ) : Option Window → List ℕ → List Bool
  | _, [] => []
  | window, now :: times =>
    (attempt limit width window now).1 :: verdicts limit width (some (attempt limit width window now).2) times

/-- The attempts in a closed interval of one width that passed. -/
def passed (limit width : ℕ) (window : Option Window) (times : List ℕ) (a : ℕ) : ℕ :=
  (times.zip (verdicts limit width window times)).countP (fun p => p.2 && a ≤ p.1 && p.1 ≤ a + width)

variable {limit width : ℕ}

theorem attempt_expired {n start now : ℕ} (h : start + width < now) :
    attempt limit width (some (n,start)) now = (true,1,now) := by
  simp only [attempt, Option.getD_some]
  rw [if_pos (by omega)]

theorem attempt_open {n start now : ℕ} (h : now ≤ start + width) :
    attempt limit width (some (n,start)) now = (decide (n + 1 ≤ limit),n + 1,start) := by
  simp only [attempt, Option.getD_some]
  rw [if_neg (by omega)]

theorem attempt_first (now : ℕ) : attempt limit width none now = (decide (1 ≤ limit),1,now) := by
  simp [attempt]

theorem state_append (window : Option Window) (times : List ℕ) (now : ℕ) :
    state limit width window (times ++ [now]) =
      some (attempt limit width (state limit width window times) now).2 := by
  simp [state, List.foldl_append]

@[simp] theorem verdicts_length (window : Option Window) (times : List ℕ) :
    (verdicts limit width window times).length = times.length := by
  induction times generalizing window with
  | nil => rfl
  | cons now times ih => simp [verdicts, ih]

theorem verdicts_append (window : Option Window) (times : List ℕ) (now : ℕ) :
    verdicts limit width window (times ++ [now]) =
      verdicts limit width window times ++ [(attempt limit width (state limit width window times) now).1] := by
  induction times generalizing window with
  | nil => rfl
  | cons t times ih =>
    simp only [List.cons_append, verdicts, ih]
    rfl

theorem passed_cons (window : Option Window) (now : ℕ) (times : List ℕ) (a : ℕ) :
    passed limit width window (now :: times) a =
      passed limit width (some (attempt limit width window now).2) times a +
        if (attempt limit width window now).1 && a ≤ now && now ≤ a + width then 1 else 0 := by
  simp only [passed, verdicts, List.zip_cons_cons, List.countP_cons]

private theorem passed_expired {n start now : ℕ} (h : start + width < now) (times : List ℕ) (a : ℕ) :
    passed limit width (some (n,start)) (now :: times) a =
      passed limit width (some (1,now)) times a + if a ≤ now ∧ now ≤ a + width then 1 else 0 := by
  simp [passed_cons, attempt_expired h]

private theorem passed_counted {n start now : ℕ} (h : now ≤ start + width) (times : List ℕ) (a : ℕ) :
    passed limit width (some (n,start)) (now :: times) a =
      passed limit width (some (n + 1,start)) times a +
        if n + 1 ≤ limit ∧ a ≤ now ∧ now ≤ a + width then 1 else 0 := by
  simp [passed_cons, attempt_open h, and_assoc]

/-- Nothing passes before the attempts begin. -/
theorem passed_eq_zero (window : Option Window) {times : List ℕ} {a : ℕ} (h : ∀ t ∈ times, a + width < t) :
    passed limit width window times a = 0 := by
  rw [passed, List.countP_eq_zero]
  rintro ⟨t,ok⟩ hmem
  have ht := h t (List.of_mem_zip hmem).1
  simp
  omega

private def Later (start : ℕ) (times : List ℕ) : Prop := (start :: times).Pairwise (· ≤ ·)

private theorem later_cons {start now : ℕ} {times : List ℕ} (h : Later start (now :: times)) :
    start ≤ now ∧ Later start times ∧ Later now times := by
  obtain ⟨hstart,htimes⟩ := List.pairwise_cons.mp h
  refine ⟨hstart now (by simp),List.pairwise_cons.mpr ⟨?_,(List.pairwise_cons.mp htimes).2⟩,htimes⟩
  exact fun t ht => hstart t (by simp [ht])

/-- An interval that starts before the window is bounded by what the window has left. -/
theorem passed_before {times : List ℕ} {start n a : ℕ} (hl : Later start times) (ha : a ≤ start) :
    passed limit width (some (n,start)) times a ≤ limit - n := by
  induction times generalizing n with
  | nil => simp [passed, verdicts]
  | cons now times ih =>
    obtain ⟨hnow,hrest,hnext⟩ := later_cons hl
    rcases Nat.lt_or_ge (start + width) now with hx | hx
    · rw [passed_eq_zero]
      · omega
      · intro t ht
        rcases List.mem_cons.mp ht with rfl | ht
        · omega
        · have := (List.pairwise_cons.mp hnext).1 t ht
          omega
    · have := @ih (n + 1) hrest
      rw [passed_counted hx]
      split <;> omega

/-- An interval that starts within the window may also reach into the next one. -/
theorem passed_within (hlimit : 1 ≤ limit) {times : List ℕ} {start n a : ℕ} (hl : Later start times)
    (ha : a ≤ start + width) : passed limit width (some (n,start)) times a ≤ (limit - n) + limit := by
  induction times generalizing n with
  | nil => simp [passed, verdicts]
  | cons now times ih =>
    obtain ⟨hnow,hrest,hnext⟩ := later_cons hl
    rcases Nat.lt_or_ge (start + width) now with hx | hx
    · have := @passed_before limit width times now 1 a hnext (by omega)
      rw [passed_expired hx]
      split <;> omega
    · have := @ih (n + 1) hrest
      rw [passed_counted hx]
      split <;> omega

/-- An interval meets at most two windows, and not the attempt that opened the
first of them if it reaches the second. -/
theorem passed_open (hlimit : 1 ≤ limit) {times : List ℕ} {start n a : ℕ} (hl : Later start times) (hn : 1 ≤ n) :
    passed limit width (some (n,start)) times a ≤ 2 * limit - 1 := by
  induction times generalizing n start with
  | nil => simp [passed, verdicts]
  | cons now times ih =>
    obtain ⟨hnow,hrest,hnext⟩ := later_cons hl
    rcases Nat.lt_or_ge (start + width) now with hx | hx
    · rw [passed_expired hx]
      rcases Nat.lt_or_ge now a with ha | ha
      · rw [if_neg (by omega)]
        exact ih hnext le_rfl
      · have := @passed_before limit width times now 1 a hnext ha
        split <;> omega
    · rw [passed_counted hx]
      split
      · have := @passed_within limit width hlimit times start (n + 1) a hrest (by omega)
        omega
      · exact ih hrest (by omega)

/-- At most one short of twice the limit passes in any interval of one width. -/
theorem passed_le (hlimit : 1 ≤ limit) {times : List ℕ} (hs : times.Pairwise (· ≤ ·)) (a : ℕ) :
    passed limit width none times a ≤ 2 * limit - 1 := by
  cases times with
  | nil => simp [passed, verdicts]
  | cons now times =>
    rw [passed_cons, attempt_first]
    dsimp only
    rcases Nat.lt_or_ge now a with ha | ha
    · rw [if_neg (by simp; omega)]
      exact passed_open hlimit hs le_rfl
    · have := @passed_before limit width times now 1 a hs ha
      split <;> omega

/-- The counter is at most the number of attempts made within the window, which
one of the attempts opened. -/
theorem count_le {times : List ℕ} (hs : times.Pairwise (· ≤ ·)) {n start : ℕ}
    (h : state limit width none times = some (n,start)) :
    n ≤ times.countP (fun t => start ≤ t && t ≤ start + width) ∧ start ∈ times := by
  induction times using List.reverseRecOn generalizing n start with
  | nil => simp [state] at h
  | append_singleton times now ih =>
    obtain ⟨hs,_,hnow⟩ := List.pairwise_append.mp hs
    rw [state_append] at h
    rw [List.countP_append]
    have hopens : n = 1 → start = now →
        n ≤ times.countP (fun t => start ≤ t && t ≤ start + width) +
          [now].countP (fun t => start ≤ t && t ≤ start + width) ∧ start ∈ times ++ [now] := by
      rintro rfl rfl
      exact ⟨by simp,by simp⟩
    cases hw : state limit width none times with
    | none =>
      rw [hw, attempt_first] at h
      obtain ⟨rfl,rfl⟩ := Prod.mk.inj (Option.some.inj h)
      exact hopens rfl rfl
    | some window =>
      obtain ⟨m,opened⟩ := window
      obtain ⟨hm,hmem⟩ := ih hs hw
      rw [hw] at h
      rcases Nat.lt_or_ge (opened + width) now with hx | hx
      · rw [attempt_expired hx] at h
        obtain ⟨rfl,rfl⟩ := Prod.mk.inj (Option.some.inj h)
        exact hopens rfl rfl
      · rw [attempt_open hx] at h
        obtain ⟨rfl,rfl⟩ := Prod.mk.inj (Option.some.inj h)
        have hle := hnow opened hmem now (by simp)
        exact ⟨by simp [hle, hx]; omega,by simp [hmem]⟩

end PqAuth.FixedWindow
