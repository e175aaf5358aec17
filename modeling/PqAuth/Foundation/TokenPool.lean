import Mathlib.Data.Multiset.AddSub
import PqAuth.Foundation.Machine

/-! A pool of tokens that can each be spent once. Equal tokens are as many as
their multiplicity. -/
namespace PqAuth.TokenPool
variable {α : Type*} [DecidableEq α]

/-- Spending succeeds when the token is there, and takes one of its kind. -/
def spend (pool : Multiset α) (token : α) : Bool × Multiset α := (decide (token ∈ pool),pool.erase token)

/-- The spendings of a token that succeeded. -/
def spent (token : α) (e : Machine.Event (Multiset α) α Bool) : Bool := e.input = token && e.output

/-- As many succeed as there are, and no more than were tried. -/
theorem countP_spent (pool : Multiset α) (tokens : List α) (token : α) :
    (Machine.history spend pool tokens).countP (spent token) = min (tokens.count token) (pool.count token) := by
  induction tokens generalizing pool with
  | nil => simp
  | cons t tokens ih =>
    rw [Machine.history_cons, List.countP_cons, ih, spend]
    by_cases h : token = t
    · subst h
      rw [Multiset.count_erase_self, List.count_cons_self]
      by_cases hmem : token ∈ pool
      · have hpos := Multiset.count_pos.mpr hmem
        simp only [spent, Machine.event, spend, hmem, decide_true, Bool.and_self, if_true]
        omega
      · simp [spent, Machine.event, spend, hmem]
    · have hne : t ≠ token := Ne.symm h
      rw [Multiset.count_erase_of_ne h, List.count_cons_of_ne hne]
      simp [spent, Machine.event, hne]

/-- Tokens that are all there are all spent, in any order, and no others go. -/
theorem spend_all {pool : Multiset α} {tokens : List α} (h : (tokens : Multiset α) ≤ pool) :
    (∀ e ∈ Machine.history spend pool tokens, e.output = true) ∧
      Machine.final spend pool tokens = pool - (tokens : Multiset α) := by
  induction tokens generalizing pool with
  | nil => simp
  | cons t tokens ih =>
    have hmem : t ∈ pool := Multiset.mem_of_le h (by simp)
    have hrest : (tokens : Multiset α) ≤ pool.erase t := by
      rw [← Multiset.erase_cons_head t (tokens : Multiset α), Multiset.cons_coe]
      exact Multiset.erase_le_erase t h
    obtain ⟨hspent,hfinal⟩ := ih hrest
    rw [Machine.history_cons, Machine.final_cons, List.forall_mem_cons]
    refine ⟨⟨decide_eq_true hmem,hspent⟩,hfinal.trans ?_⟩
    rw [← Multiset.cons_coe]
    exact (Multiset.sub_cons ..).symm

end PqAuth.TokenPool
