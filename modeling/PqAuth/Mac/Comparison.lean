import PqAuth.Source.Recovery

/-! The comparison behind every decision on a tag, a code or a stored hash is
equality of byte strings, lengths included. -/
namespace PqAuth.ShakeMac
variable {xof : Xof}

theorem Context.verify_iff (context : Context) (message tag : Bytes) :
    context.verify xof message tag = true ↔ tag = (context.mac xof message).val := by
  unfold Context.verify
  rw [verifyMac_iff, eq_comm]

/-- A shorter, longer or different string is rejected, whatever it has in common
with the expected one. -/
theorem comparison_exact :
    (∀ a b : Bytes, verifyMac a b = true ↔ a = b) ∧
    (∀ (xof : Xof) (context : Context) (message tag : Bytes), context.verify xof message tag = true ↔
      tag.length = 32 ∧ tag = (context.mac xof message).val) ∧
    (∀ (lib : RecoveryLibrary) (code : String) (stored : List HashedRecoveryCode),
      (∀ idx, Recovery.verifyCode lib code stored = some idx ↔
        Recovery.FirstAvailable (Recovery.hashCode lib code).hash stored idx) ∧
      (Recovery.verifyCode lib code stored = none ↔
        ∀ h ∈ stored, ¬ Recovery.Available (Recovery.hashCode lib code).hash h)) := by
  refine ⟨verifyMac_iff,?_,?_⟩
  · intro xof context message tag
    rw [context.verify_iff]
    constructor
    · rintro rfl
      exact ⟨(context.mac xof message).property,rfl⟩
    · exact fun h => h.2
  · intro lib code stored
    exact ⟨fun idx => Recovery.verifyCode_eq_some_iff,Recovery.verifyCode_eq_none_iff⟩

end PqAuth.ShakeMac
