import PqAuth.Foundation.Decimal
import PqAuth.Foundation.Headline
import PqAuth.Source.Server

/-! The texts of errors, which are all that a client of the service gets to see
of them. They tell all errors apart. -/
namespace PqAuth

theorem DilithiumError.toString_injective : Function.Injective DilithiumError.toString := by
  intro a b h
  cases a <;> cases b <;> first | rfl | exact absurd h (by decide)

theorem KyberError.toString_injective : Function.Injective KyberError.toString := by
  intro a b h
  cases a <;> cases b <;> first | rfl | exact absurd h (by decide)

namespace ChallengeError

def headlines : List String :=
  ["challenge expired","challenge already used (replay attack)","signature verification failed: ",
    "timestamp out of range"]

def kind : ChallengeError → Fin headlines.length
  | .expired => ⟨0,by decide⟩
  | .replay => ⟨1,by decide⟩
  | .signatureFailed _ => ⟨2,by decide⟩
  | .timestampOutOfRange => ⟨3,by decide⟩

def detail : ChallengeError → String
  | .signatureFailed e => e.toString
  | _ => ""

theorem toString_eq (e : ChallengeError) : e.toString = headlines.get e.kind ++ e.detail := by
  cases e <;> rfl

theorem toString_injective : Function.Injective ChallengeError.toString := by
  refine Headline.injective (by decide) toString_eq ?_
  intro a b hkind hdetail
  cases a <;> cases b <;> first
    | rfl
    | exact congrArg _ (DilithiumError.toString_injective hdetail)
    | simp [kind] at hkind

end ChallengeError

/-- Two lengths as they stand in a message. -/
def lengths (expected got : ℕ) : String := expected.repr ++ ("," ++ (" got " ++ (got.repr ++ (")" ++ ""))))

theorem lengths_eq (head : String) (expected got : ℕ) :
    head ++ expected.repr ++ ", got " ++ got.repr ++ ")" = head ++ lengths expected got := by
  have hcomma : ", got " = "," ++ " got " := rfl
  rw [lengths, hcomma, String.append_empty]
  simp only [String.append_assoc]

theorem lengths_inj {expected got expected' got' : ℕ} (h : lengths expected got = lengths expected' got') :
    expected = expected' ∧ got = got' := by
  obtain ⟨hexpected,hrest⟩ := @Decimal.toString_append_inj expected expected' ',' _ _ (by decide) h
  exact ⟨hexpected,(@Decimal.toString_append_inj got got' ')' _ _ (by decide) ((String.append_right_inj _).mp hrest)).1⟩

namespace EnrollmentError

def headlines : List String :=
  ["Kyber error: ","invalid server identity","invalid ciphertext length (expected ",
    "invalid Dilithium public key length (expected "]

def kind : EnrollmentError → Fin headlines.length
  | .kyber _ => ⟨0,by decide⟩
  | .invalidServerIdentity => ⟨1,by decide⟩
  | .invalidCiphertextLength .. => ⟨2,by decide⟩
  | .invalidPublicKeyLength .. => ⟨3,by decide⟩

def detail : EnrollmentError → String
  | .kyber e => e.toString
  | .invalidServerIdentity => ""
  | .invalidCiphertextLength expected got => lengths expected got
  | .invalidPublicKeyLength expected got => lengths expected got

theorem toString_eq (e : EnrollmentError) : e.toString = headlines.get e.kind ++ e.detail := by
  cases e with
  | kyber e => rfl
  | invalidServerIdentity => rfl
  | invalidCiphertextLength expected got => exact lengths_eq ..
  | invalidPublicKeyLength expected got => exact lengths_eq ..

theorem toString_injective : Function.Injective EnrollmentError.toString := by
  refine Headline.injective (by decide) toString_eq ?_
  intro a b hkind hdetail
  cases a <;> cases b <;> first
    | rfl
    | exact congrArg _ (KyberError.toString_injective hdetail)
    | (obtain ⟨rfl,rfl⟩ := lengths_inj hdetail; rfl)
    | simp [kind] at hkind

end EnrollmentError

namespace ServerError

def headlines : List String :=
  ["user not found: ","user already enrolled: ","no pending enrollment for user: ","no pending challenge for user: ",
    "enrollment failed: ","challenge verification failed: ","rate limited"]

def kind : ServerError → Fin headlines.length
  | .userNotFound _ => ⟨0,by decide⟩
  | .userAlreadyEnrolled _ => ⟨1,by decide⟩
  | .noPendingEnrollment _ => ⟨2,by decide⟩
  | .noPendingChallenge _ => ⟨3,by decide⟩
  | .enrollmentFailed _ => ⟨4,by decide⟩
  | .challengeFailed _ => ⟨5,by decide⟩
  | .rateLimited => ⟨6,by decide⟩

def detail : ServerError → String
  | .userNotFound userId => userId
  | .userAlreadyEnrolled userId => userId
  | .noPendingEnrollment userId => userId
  | .noPendingChallenge userId => userId
  | .enrollmentFailed e => e.toString
  | .challengeFailed e => e.toString
  | .rateLimited => ""

theorem toString_eq (e : ServerError) : e.toString = headlines.get e.kind ++ e.detail := by
  cases e <;> rfl

/-- The text of an error determines the error, whatever user names and lengths it quotes. -/
theorem toString_injective : Function.Injective ServerError.toString := by
  refine Headline.injective (by decide) toString_eq ?_
  intro a b hkind hdetail
  cases a <;> cases b <;> first
    | rfl
    | exact congrArg _ hdetail
    | exact congrArg _ (EnrollmentError.toString_injective hdetail)
    | exact congrArg _ (ChallengeError.toString_injective hdetail)
    | simp [kind] at hkind

end ServerError
end PqAuth
