import PqAuth.Source.Crates

/-! `dilithium.rs`: the wrapper around Dilithium3. -/
namespace PqAuth

inductive DilithiumError where
  | verificationFailed
  | invalidPublicKey
  | invalidSecretKey
  | invalidSignature
  deriving DecidableEq, Repr

def DilithiumError.toString : DilithiumError → String
  | .verificationFailed => "signature verification failed"
  | .invalidPublicKey => "invalid public key length"
  | .invalidSecretKey => "invalid secret key length"
  | .invalidSignature => "invalid signature length"

/-- A Dilithium3 keypair, in bytes. -/
structure DilithiumKeypair where
  publicKey : Bytes
  secretKey : Bytes
  deriving DecidableEq, Repr

namespace Dilithium

def publicKeySize : ℕ := 1952
def signatureSize : ℕ := 3309

variable (dilithium : Dilithium3)

def generate (seed : Bytes) : DilithiumKeypair :=
  let (pk,sk) := dilithium.keypair seed
  ⟨dilithium.publicKey.asBytes pk,dilithium.secretKey.asBytes sk⟩

def sign (kp : DilithiumKeypair) (message coins : Bytes) : Except DilithiumError Bytes :=
  match dilithium.secretKey.fromBytes kp.secretKey with
  | none => .error .invalidSecretKey
  | some sk => .ok (dilithium.signature.asBytes (dilithium.detachedSign message sk coins))

/-- Verify a detached signature with a public key. -/
def verifyDetached (publicKey message signature : Bytes) : Except DilithiumError Unit :=
  match dilithium.publicKey.fromBytes publicKey with
  | none => .error .invalidPublicKey
  | some pk =>
    match dilithium.signature.fromBytes signature with
    | none => .error .invalidSignature
    | some sig =>
      if dilithium.verifyDetachedSignature sig message pk then .ok () else .error .verificationFailed

variable {dilithium}

theorem sign_generate (he : dilithium.Encodings) (seed message coins : Bytes) :
    sign dilithium (generate dilithium seed) message coins =
      .ok (dilithium.signature.asBytes (dilithium.detachedSign message (dilithium.keypair seed).2 coins)) := by
  simp [sign, generate, he.secretKey]

/-- The key decodes, the signature decodes, and the signature verifies under the key. -/
theorem verifyDetached_ok_iff (publicKey message signature : Bytes) :
    verifyDetached dilithium publicKey message signature = .ok () ↔
      ∃ pk, dilithium.publicKey.fromBytes publicKey = some pk ∧
        ∃ sig, dilithium.signature.fromBytes signature = some sig ∧
          dilithium.verifyDetachedSignature sig message pk = true := by
  unfold verifyDetached
  cases dilithium.publicKey.fromBytes publicKey with
  | none => simp
  | some pk =>
    cases dilithium.signature.fromBytes signature with
    | none => simp
    | some sig => simp

/-- What the holder of a generated key signs verifies under its public key. -/
theorem verifyDetached_sign (he : dilithium.Encodings) (hc : dilithium.Correct)
    {seed message coins signature : Bytes}
    (h : sign dilithium (generate dilithium seed) message coins = .ok signature) :
    verifyDetached dilithium (generate dilithium seed).publicKey message signature = .ok () := by
  rw [sign_generate he] at h
  obtain rfl := Except.ok.inj h
  rw [verifyDetached_ok_iff]
  exact ⟨_,he.publicKey _,_,he.signature ..,hc seed message coins⟩

end Dilithium
end PqAuth
