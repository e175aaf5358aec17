import Mathlib.Data.Set.Card
import PqAuth.Source.PqTotp
import PqAuth.Source.Transparent

/-! The codes that verification accepts at a time. The lower end of the tolerance
saturates; the upper end is a plain addition. -/
namespace PqAuth.PqTotp
open Words
variable {xof : Xof} {secret : Bytes} {timestamp window : UInt64}

/-- A step the tolerance window covers. -/
def Candidate (timestamp window s : UInt64) : Prop := absDiff s (timestamp / timeStep) ≤ window

instance (timestamp window s : UInt64) : Decidable (Candidate timestamp window s) :=
  inferInstanceAs (Decidable (_ ≤ _))

/-- No addition of the verification overflows. -/
abbrev Fits (timestamp window : UInt64) : Prop := (timestamp / timeStep).toNat + window.toNat < 2 ^ 64

theorem toNat_last (h : Fits timestamp window) :
    (timestamp / timeStep + window).toNat = (timestamp / timeStep).toNat + window.toNat := by
  rw [UInt64.toNat_add]
  exact Nat.mod_eq_of_lt h

/-- The loop runs through the candidates. -/
theorem mem_steps_iff (h : Fits timestamp window) (s : UInt64) :
    s ∈ steps (saturatingSub (timestamp / timeStep) window) (timestamp / timeStep + window) ↔
      Candidate timestamp window s := by
  rw [mem_steps, Candidate, UInt64.le_iff_toNat_le, UInt64.le_iff_toNat_le, UInt64.le_iff_toNat_le,
    toNat_saturatingSub, toNat_absDiff, toNat_last h]
  omega

theorem verify_iff_candidate (h : Fits timestamp window) (code : UInt32) :
    verify xof secret code timestamp window = true ↔
      ∃ s, Candidate timestamp window s ∧ generateAtStep xof secret s = code := by
  rw [verify_iff]
  refine exists_congr fun s => ?_
  rw [← and_assoc, ← mem_steps, mem_steps_iff h]

theorem Candidate.mono {smaller s : UInt64} (hle : smaller ≤ window) (h : Candidate timestamp smaller s) :
    Candidate timestamp window s := UInt64.le_trans h hle

theorem Fits.mono {smaller : UInt64} (hle : smaller ≤ window) (h : Fits timestamp window) :
    Fits timestamp smaller := by
  rw [UInt64.le_iff_toNat_le] at hle
  unfold Fits at h ⊢
  omega

/-- Every accepted code belongs to a step of the loop. -/
theorem accepted_ncard_le (xof : Xof) (secret : Bytes) (timestamp window : UInt64) :
    {code | verify xof secret code timestamp window = true}.ncard ≤ 2 * window.toNat + 1 := by
  let codes := (steps (saturatingSub (timestamp / timeStep) window) (timestamp / timeStep + window)).map
    (generateAtStep xof secret)
  have hsub : {code | verify xof secret code timestamp window = true} ⊆ (codes.toFinset : Set UInt32) := by
    intro code hcode
    obtain ⟨s,hlow,hhigh,hs⟩ := (verify_iff ..).mp hcode
    simp only [List.coe_toFinset, Set.mem_ofPred_eq, codes, List.mem_map]
    exact ⟨s,(mem_steps ..).mpr ⟨hlow,hhigh⟩,hs⟩
  have hlen : codes.length ≤ 2 * window.toNat + 1 := by
    rw [List.length_map, steps_length, toNat_saturatingSub, UInt64.toNat_add]
    have hc := (timestamp / timeStep).toNat_lt
    have hw := window.toNat_lt
    omega
  calc {code | verify xof secret code timestamp window = true}.ncard
      _ ≤ (codes.toFinset : Set UInt32).ncard := Set.ncard_le_ncard hsub (Finset.finite_toSet _)
      _ = codes.toFinset.card := Set.ncard_coe_finset _
      _ ≤ codes.length := List.toFinset_card_le _
      _ ≤ 2 * window.toNat + 1 := hlen

theorem accepted_lt {code : UInt32} (h : verify xof secret code timestamp window = true) : code.toNat < 10 ^ 8 := by
  obtain ⟨s,_,_,rfl⟩ := (verify_iff ..).mp h
  exact generateAtStep_lt ..

/-- What verification promises for a secret, a time and a tolerance. A build with
overflow checks returns the same verdict. -/
structure Exact (xof : Xof) (secret : Bytes) (timestamp window : UInt64) : Prop where
  verdict : ∀ code, ∃ accepted, verifyChecked xof secret code timestamp window = some accepted ∧
    verify xof secret code timestamp window = accepted ∧
    (accepted = true ↔ ∃ s, Candidate timestamp window s ∧ generateAtStep xof secret s = code)
  monotone : ∀ smaller ≤ window, ∀ code, verify xof secret code timestamp smaller = true →
    verify xof secret code timestamp window = true
  few : {code | verify xof secret code timestamp window = true}.ncard ≤ 2 * window.toNat + 1
  short : ∀ code, verify xof secret code timestamp window = true → code.toNat < 10 ^ 8

/-- The promise is kept exactly when the current step plus the tolerance fits a word. -/
theorem exact_iff (xof : Xof) (secret : Bytes) (timestamp window : UInt64) :
    Exact xof secret timestamp window ↔ Fits timestamp window := by
  constructor
  · intro h
    obtain ⟨accepted,hchecked,_⟩ := h.verdict 0
    rw [verifyChecked_eq] at hchecked
    by_contra hlarge
    rw [if_neg hlarge] at hchecked
    cases hchecked
  · intro hfits
    refine ⟨?_,?_,accepted_ncard_le ..,fun code => accepted_lt⟩
    · intro code
      refine ⟨verify xof secret code timestamp window,?_,rfl,verify_iff_candidate hfits code⟩
      rw [verifyChecked_eq]
      exact if_pos hfits
    · intro smaller hle code hsmall
      obtain ⟨s,hs,hcode⟩ := (verify_iff_candidate (hfits.mono hle) code).mp hsmall
      exact (verify_iff_candidate hfits code).mpr ⟨s,hs.mono hle,hcode⟩

/-- The largest tolerance panics or, without overflow checks, rejects the code of
the current step. -/
theorem largest_window_rejects :
    let secret : Bytes := List.replicate 15 0
    let code := generate Transparent.shake256 secret 30
    verify Transparent.shake256 secret code 30 0 = true ∧
      verify Transparent.shake256 secret code 30 18446744073709551615 = false ∧
      ¬ Exact Transparent.shake256 secret 30 18446744073709551615 := by
  intro secret code
  have hnarrow : verify Transparent.shake256 secret code 30 0 = true := by decide
  have hwide : verify Transparent.shake256 secret code 30 18446744073709551615 = false := by decide
  refine ⟨hnarrow,hwide,?_⟩
  intro h
  have hmono := h.monotone 0 (by decide) code hnarrow
  rw [hwide] at hmono
  cases hmono

end PqAuth.PqTotp
