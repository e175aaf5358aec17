import Mathlib.Data.Option.Basic
import Mathlib.Tactic.Common

/-! Signature schemes and their conjunction: a signature of fixed length followed
by one of another scheme, where both have to verify. -/
namespace PqAuth

/-- Signatures are strings over an alphabet. Signing may refuse its key. -/
structure SignatureScheme (Symbol Message : Type) where
  PublicKey : Type
  SecretKey : Type
  Coins : Type
  Matching : PublicKey → SecretKey → Prop
  sign : SecretKey → Message → Coins → Option (List Symbol)
  Verifies : PublicKey → Message → List Symbol → Prop

namespace SignatureScheme
variable {Symbol Message : Type}

/-- A scheme verifies its own signatures. -/
def Correct (s : SignatureScheme Symbol Message) : Prop :=
  ∀ pk sk, s.Matching pk sk → ∀ message coins, ∃ signature, s.sign sk message coins = some signature ∧
    s.Verifies pk message signature

/-- All signatures made have one length. -/
def Fixed (s : SignatureScheme Symbol Message) (n : ℕ) : Prop :=
  ∀ sk message coins signature, s.sign sk message coins = some signature → signature.length = n

/-- Both schemes sign the message; the first signature is cut off at its length. -/
def conj (a b : SignatureScheme Symbol Message) (m n : ℕ) : SignatureScheme Symbol Message where
  PublicKey := a.PublicKey × b.PublicKey
  SecretKey := a.SecretKey × b.SecretKey
  Coins := a.Coins × b.Coins
  Matching pk sk := a.Matching pk.1 sk.1 ∧ b.Matching pk.2 sk.2
  sign sk message coins := do
    let left ← a.sign sk.1 message coins.1
    let right ← b.sign sk.2 message coins.2
    return left ++ right
  Verifies pk message signature := signature.length = m + n ∧
    a.Verifies pk.1 message (signature.take m) ∧ b.Verifies pk.2 message (signature.drop m)

variable {a b : SignatureScheme Symbol Message} {m n : ℕ}

theorem conj_verifies_append {pk : (conj a b m n).PublicKey} {message : Message} {left right : List Symbol}
    (hl : left.length = m) (hr : right.length = n) :
    (conj a b m n).Verifies pk message (left ++ right) ↔
      a.Verifies pk.1 message left ∧ b.Verifies pk.2 message right := by
  simp only [conj]
  rw [List.take_left' hl, List.drop_left' hl, List.length_append, hl, hr]
  exact and_iff_right rfl

/-- The conjunction is correct when its parts are and their lengths are fixed. -/
theorem conj_correct (ha : a.Correct) (hb : b.Correct) (hla : a.Fixed m) (hlb : b.Fixed n) :
    (conj a b m n).Correct := by
  intro pk sk hmatching message coins
  obtain ⟨left,hleft,hvl⟩ := ha _ _ hmatching.1 message coins.1
  obtain ⟨right,hright,hvr⟩ := hb _ _ hmatching.2 message coins.2
  refine ⟨left ++ right,?_,?_⟩
  · simp only [conj, hleft, hright]
    rfl
  · rw [conj_verifies_append (hla _ _ _ _ hleft) (hlb _ _ _ _ hright)]
    exact ⟨hvl,hvr⟩

end SignatureScheme
end PqAuth
