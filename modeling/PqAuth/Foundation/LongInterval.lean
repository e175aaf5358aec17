import PqAuth.Foundation.FixedWindow

/-! What a fixed-window limiter lets through in an interval of any length, and
what a refusal says about the recent past. -/
namespace PqAuth.FixedWindow
variable {limit width : ℕ}

/-- The attempts in a closed interval that passed. -/
def passedBetween (limit width : ℕ) (window : Option Window) (times : List ℕ) (a b : ℕ) : ℕ :=
  (times.zip (verdicts limit width window times)).countP (fun p => p.2 && a ≤ p.1 && p.1 ≤ b)

/-- The room for the windows that open from `x` to `b`. -/
def room (limit width b x : ℕ) : ℕ := if x ≤ b then limit * ((b - x) / (width + 1) + 1) else 0

theorem room_anti {b x y : ℕ} (h : x ≤ y) : room limit width b y ≤ room limit width b x := by
  unfold room
  by_cases hy : y ≤ b
  · rw [if_pos hy, if_pos (h.trans hy)]
    apply Nat.mul_le_mul_left
    have := Nat.div_le_div_right (c := width + 1) (Nat.sub_le_sub_left h b)
    omega
  · rw [if_neg hy]
    exact Nat.zero_le _

/-- A window takes a full share of the room. -/
theorem room_next {b x : ℕ} (h : x ≤ b) : limit + room limit width b (x + width + 1) = room limit width b x := by
  rw [room, room, if_pos h]
  split
  · rename_i hnext
    have hsub : b - x = b - (x + width + 1) + (width + 1) := by omega
    have hdiv : (b - x) / (width + 1) = (b - (x + width + 1)) / (width + 1) + 1 := by
      rw [hsub, Nat.add_div_right _ (Nat.succ_pos width)]
    rw [hdiv, Nat.mul_add_one limit (_ + 1), Nat.add_comm]
  · rename_i hlast
    have hdiv : (b - x) / (width + 1) = 0 := Nat.div_eq_of_lt (by omega)
    rw [hdiv, Nat.zero_add, Nat.mul_one, Nat.add_zero]

private theorem between_expired {n start now : ℕ} (h : start + width < now) (times : List ℕ) (a b : ℕ) :
    passedBetween limit width (some (n,start)) (now :: times) a b =
      passedBetween limit width (some (1,now)) times a b + if a ≤ now ∧ now ≤ b then 1 else 0 := by
  simp [passedBetween, verdicts, attempt_expired h, List.countP_cons]

private theorem between_counted {n start now : ℕ} (h : now ≤ start + width) (times : List ℕ) (a b : ℕ) :
    passedBetween limit width (some (n,start)) (now :: times) a b =
      passedBetween limit width (some (n + 1,start)) times a b +
        if n + 1 ≤ limit ∧ a ≤ now ∧ now ≤ b then 1 else 0 := by
  simp [passedBetween, verdicts, attempt_open h, List.countP_cons, and_assoc]

theorem passedBetween_eq_zero (window : Option Window) {times : List ℕ} {a b : ℕ} (h : ∀ t ∈ times, b < t) :
    passedBetween limit width window times a b = 0 := by
  rw [passedBetween, List.countP_eq_zero]
  rintro ⟨t,ok⟩ hmem
  have ht := h t (List.of_mem_zip hmem).1
  simp
  omega

/-- A window has what it has left, and the windows after it open from `x` on. -/
theorem passedBetween_rest (hlimit : 1 ≤ limit) {times : List ℕ} (hs : times.Pairwise (· ≤ ·)) {n start a b x : ℕ}
    (hx : ∀ t ∈ times, start + width < t → x ≤ t) :
    passedBetween limit width (some (n,start)) times a b ≤ (limit - n) + room limit width b x := by
  induction times generalizing n start x with
  | nil => simp [passedBetween, verdicts]
  | cons now times ih =>
    obtain ⟨hlater,hs⟩ := List.pairwise_cons.mp hs
    rcases Nat.lt_or_ge (start + width) now with hexp | hopen
    · rw [between_expired hexp]
      rcases Nat.lt_or_ge b now with hb | hb
      · rw [passedBetween_eq_zero _ (fun t ht => Nat.lt_of_lt_of_le hb (hlater t ht)), if_neg (by omega)]
        exact Nat.zero_le _
      · -- a new window opens, at `x` or later
        have hnew := @ih hs 1 now (now + width + 1) (fun t _ ht => ht)
        have hshare := @room_next limit width b now hb
        have hroom : room limit width b now ≤ room limit width b x := room_anti (hx now List.mem_cons_self hexp)
        split <;> omega
    · have hrest := @ih hs (n + 1) start x (fun t ht => hx t (List.mem_cons_of_mem _ ht))
      rw [between_counted hopen]
      split <;> omega

/-- The interval may begin inside a window whose first attempt came before it. -/
theorem passedBetween_open (hlimit : 1 ≤ limit) {times : List ℕ} (hs : times.Pairwise (· ≤ ·)) {n start a b : ℕ}
    (hn : 1 ≤ n) : passedBetween limit width (some (n,start)) times a b ≤ (limit - 1) + room limit width b a := by
  induction times generalizing n start with
  | nil => simp [passedBetween, verdicts]
  | cons now times ih =>
    rcases Nat.lt_or_ge now a with ha | ha
    · obtain ⟨hlater,hs⟩ := List.pairwise_cons.mp hs
      rcases Nat.lt_or_ge (start + width) now with hexp | hopen
      · rw [between_expired hexp, if_neg (by omega)]
        exact ih hs le_rfl
      · rw [between_counted hopen, if_neg (by omega)]
        exact ih hs (by omega)
    · -- from here on everything lies in the interval or after it
      have hfrom : ∀ t ∈ now :: times, start + width < t → a ≤ t := by
        intro t ht _
        rcases List.mem_cons.mp ht with rfl | ht
        · exact ha
        · exact ha.trans ((List.pairwise_cons.mp hs).1 t ht)
      have := @passedBetween_rest limit width hlimit _ hs n start a b a hfrom
      omega

/-- In any interval the limiter lets through a share for each window that can
open in it and one for the window before, less the attempt that opened that one. -/
theorem passedBetween_le (hlimit : 1 ≤ limit) {times : List ℕ} (hs : times.Pairwise (· ≤ ·)) {a b : ℕ} (hab : a ≤ b) :
    passedBetween limit width none times a b ≤ limit * ((b - a) / (width + 1) + 2) - 1 := by
  have hroom : (limit - 1) + room limit width b a = limit * ((b - a) / (width + 1) + 2) - 1 := by
    rw [room, if_pos hab, show (b - a) / (width + 1) + 2 = (b - a) / (width + 1) + 1 + 1 by omega,
      Nat.mul_add limit ((b - a) / (width + 1) + 1) 1]
    omega
  rw [← hroom]
  cases times with
  | nil => simp [passedBetween, verdicts]
  | cons now times =>
    obtain ⟨hlater,hs'⟩ := List.pairwise_cons.mp hs
    have hfirst : passedBetween limit width none (now :: times) a b =
        passedBetween limit width (some (1,now)) times a b + if a ≤ now ∧ now ≤ b then 1 else 0 := by
      simp [passedBetween, verdicts, attempt_first, List.countP_cons, hlimit]
    rw [hfirst]
    rcases Nat.lt_or_ge now a with ha | ha
    · rw [if_neg (by omega)]
      exact passedBetween_open hlimit hs' le_rfl
    · rcases Nat.lt_or_ge b now with hb | hb
      · rw [passedBetween_eq_zero _ (fun t ht => Nat.lt_of_lt_of_le hb (hlater t ht)), if_neg (by omega)]
        exact Nat.zero_le _
      · have hnew := @passedBetween_rest limit width hlimit times hs' 1 now a b (now + width + 1) (fun t _ ht => ht)
        have hshare := @room_next limit width b now hb
        have hroom := @room_anti limit width b a now ha
        split <;> omega

end PqAuth.FixedWindow
