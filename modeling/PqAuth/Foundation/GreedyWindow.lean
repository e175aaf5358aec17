import Mathlib.Data.List.Basic
import PqAuth.Foundation.FixedWindow

/-! The windows of a fixed-window limiter as a partition of the attempts: one
opens a window, all within its width belong to it, the next opens another. -/
namespace PqAuth.FixedWindow

/-- The windows from one that opened at `start` and has its attempts so far in `current`. -/
def greedy (width start : ℕ) (current : List ℕ) : List ℕ → List (List ℕ)
  | [] => [current]
  | now :: times =>
    if now ≤ start + width then greedy width start (current ++ [now]) times
    else current :: greedy width now [now] times

def windows (width : ℕ) : List ℕ → List (List ℕ)
  | [] => []
  | start :: times => greedy width start [start] times

/-- No attempt is before the one that opened the window, and there are fewer than `bound`. -/
def Countable (bound : ℕ) (window : List ℕ) : Prop :=
  (∀ start ∈ window.head?, ∀ t ∈ window, start ≤ t) ∧ window.length < bound

/-- In each window the first attempts pass, up to the limit. -/
def firstPass (limit : ℕ) (window : List ℕ) : List Bool := window.mapIdx fun i _ => decide (i < limit)

variable {limit width : ℕ}

theorem greedy_open {start now : ℕ} (h : now ≤ start + width) (current times : List ℕ) :
    greedy width start current (now :: times) = greedy width start (current ++ [now]) times := by
  rw [greedy, if_pos h]

theorem greedy_expired {start now : ℕ} (h : start + width < now) (current times : List ℕ) :
    greedy width start current (now :: times) = current :: greedy width now [now] times := by
  rw [greedy, if_neg (by omega)]

theorem flatten_greedy (start : ℕ) (current times : List ℕ) :
    (greedy width start current times).flatten = current ++ times := by
  induction times generalizing start current with
  | nil => simp [greedy]
  | cons now times ih =>
    rcases Nat.lt_or_ge (start + width) now with hx | hx
    · rw [greedy_expired hx, List.flatten_cons, ih, List.singleton_append]
    · rw [greedy_open hx, ih, List.append_assoc, List.singleton_append]

/-- The windows are all of the attempts, in order. -/
theorem flatten_windows (times : List ℕ) : (windows width times).flatten = times := by
  cases times with
  | nil => rfl
  | cons start times => exact flatten_greedy start [start] times

/-- The window in progress becomes one of the windows. -/
theorem exists_mem_greedy (start : ℕ) (current times : List ℕ) :
    ∃ window ∈ greedy width start current times, current.length ≤ window.length := by
  induction times generalizing start current with
  | nil => exact ⟨current,List.mem_singleton_self _,le_rfl⟩
  | cons now times ih =>
    rcases Nat.lt_or_ge (start + width) now with hx | hx
    · rw [greedy_expired hx]
      exact ⟨current,List.mem_cons_self,le_rfl⟩
    · obtain ⟨window,hmem,hle⟩ := ih start (current ++ [now])
      rw [greedy_open hx]
      exact ⟨window,hmem,by rw [List.length_append] at hle; omega⟩

/-- The window in progress is the last one. One attempt more belongs to it or opens another. -/
theorem greedy_append (start : ℕ) (rest times : List ℕ) : ∃ closed opened last,
    greedy width start (start :: rest) times = closed ++ [opened :: last] ∧
    state limit width (some (rest.length + 1,start)) times = some (last.length + 1,opened) ∧
    ∀ now, greedy width start (start :: rest) (times ++ [now]) =
      if now ≤ opened + width then closed ++ [opened :: last ++ [now]] else closed ++ [opened :: last,[now]] := by
  induction times generalizing start rest with
  | nil => exact ⟨[],start,rest,rfl,rfl,fun _ => rfl⟩
  | cons t times ih =>
    rcases Nat.lt_or_ge (start + width) t with hx | hx
    · obtain ⟨closed,opened,last,hwindows,hstate,hnext⟩ := ih t []
      refine ⟨(start :: rest) :: closed,opened,last,?_,?_,?_⟩
      · rw [greedy_expired hx, hwindows, List.cons_append]
      · rw [state, List.foldl_cons, attempt_expired hx]
        exact hstate
      · intro now
        rw [List.cons_append, greedy_expired hx, hnext]
        split <;> rfl
    · obtain ⟨closed,opened,last,hwindows,hstate,hnext⟩ := ih start (rest ++ [t])
      rw [List.length_append, List.length_singleton] at hstate
      refine ⟨closed,opened,last,?_,?_,?_⟩
      · rw [greedy_open hx, List.cons_append, hwindows]
      · rw [state, List.foldl_cons, attempt_open hx]
        exact hstate
      · intro now
        rw [List.cons_append, greedy_open hx, List.cons_append, hnext]

variable {bound : ℕ}

theorem countable_singleton (hbound : 1 < bound) (now : ℕ) : Countable bound [now] := by
  simp [Countable, hbound]

theorem countable_append (opened now : ℕ) (last : List ℕ) : Countable bound (opened :: last ++ [now]) ↔
    Countable bound (opened :: last) ∧ opened ≤ now ∧ last.length + 1 + 1 < bound := by
  rw [Countable, Countable, List.length_append, List.length_singleton, List.length_cons]
  simp only [List.cons_append, List.head?_cons, Option.mem_some_iff, forall_eq', List.forall_mem_cons,
    List.forall_mem_append]
  constructor
  · rintro ⟨⟨hself,hlast,hnow,_⟩,hlen⟩
    exact ⟨⟨⟨hself,hlast⟩,by omega⟩,hnow,hlen⟩
  · rintro ⟨⟨⟨hself,hlast⟩,_⟩,hnow,hlen⟩
    exact ⟨⟨hself,hlast,hnow,List.forall_mem_nil _⟩,hlen⟩

/-- An attempt more keeps every window countable if it is not before the window in
progress and, where it belongs to it, finds room in the count. -/
theorem forall_countable_append (limit : ℕ) (hbound : 1 < bound) (times : List ℕ) (now : ℕ) :
    (∀ window ∈ windows width (times ++ [now]), Countable bound window) ↔
      (∀ window ∈ windows width times, Countable bound window) ∧
      ∀ n start, state limit width none times = some (n,start) →
        start ≤ now ∧ (now ≤ start + width → n + 1 < bound) := by
  cases times with
  | nil => simp [windows, greedy, state, countable_singleton hbound]
  | cons first times =>
    obtain ⟨closed,opened,last,hwindows,hstate,hnext⟩ := @greedy_append limit width first [] times
    have hstate' : state limit width none (first :: times) = some (last.length + 1,opened) := by
      rw [state, List.foldl_cons, attempt_first]
      exact hstate
    have hroom : (∀ n start, state limit width none (first :: times) = some (n,start) →
        start ≤ now ∧ (now ≤ start + width → n + 1 < bound)) ↔
        opened ≤ now ∧ (now ≤ opened + width → last.length + 1 + 1 < bound) := by
      simp [hstate']
    rw [hroom, List.cons_append, windows, windows, hnext, hwindows]
    split
    · rename_i hopen
      simp only [List.forall_mem_append, List.forall_mem_singleton, countable_append, and_assoc, hopen, true_implies]
    · rename_i hx
      have hle : opened ≤ now := by omega
      simp [countable_singleton hbound, hle, hx, or_imp, forall_and]

theorem firstPass_append (window : List ℕ) (now : ℕ) :
    firstPass limit (window ++ [now]) = firstPass limit window ++ [decide (window.length < limit)] := by
  simp [firstPass, List.mapIdx_append]

/-- The count of a window in progress stands for its attempts. -/
theorem verdicts_greedy (hlimit : 1 ≤ limit) (start : ℕ) (current times : List ℕ) :
    firstPass limit current ++ verdicts limit width (some (current.length,start)) times =
      (greedy width start current times).flatMap (firstPass limit) := by
  induction times generalizing start current with
  | nil => simp [greedy, verdicts]
  | cons now times ih =>
    rcases Nat.lt_or_ge (start + width) now with hx | hx
    · have hopened : firstPass limit [now] = [true] := by simp [firstPass]; omega
      have hnext := ih now [now]
      rw [hopened, List.singleton_append, List.length_singleton] at hnext
      rw [verdicts, attempt_expired hx, greedy_expired hx, List.flatMap_cons, ← hnext]
    · have hnext := ih start (current ++ [now])
      rw [firstPass_append, List.append_assoc, List.length_append, List.length_singleton,
        List.singleton_append] at hnext
      rw [verdicts, attempt_open hx, greedy_open hx, ← hnext]
      rfl

/-- An attempt passes exactly if it is among the first of its window. -/
theorem verdicts_windows (hlimit : 1 ≤ limit) (times : List ℕ) :
    verdicts limit width none times = (windows width times).flatMap (firstPass limit) := by
  cases times with
  | nil => rfl
  | cons start times =>
    rw [windows, ← verdicts_greedy hlimit, verdicts, attempt_first]
    rfl

end PqAuth.FixedWindow
