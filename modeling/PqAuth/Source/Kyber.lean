import PqAuth.Source.Crates

/-! `kyber.rs`: the wrapper around Kyber768. -/
namespace PqAuth

inductive KyberError where
  | invalidPublicKey
  | invalidSecretKey
  | invalidCiphertext
  | decapsulationFailed
  deriving DecidableEq, Repr

def KyberError.toString : KyberError → String
  | .invalidPublicKey => "invalid public key"
  | .invalidSecretKey => "invalid secret key"
  | .invalidCiphertext => "invalid ciphertext"
  | .decapsulationFailed => "decapsulation failed"

/-- A Kyber768 keypair, in bytes. -/
structure KyberKeypair where
  publicKey : Bytes
  secretKey : Bytes
  deriving DecidableEq, Repr

/-- Result of encapsulation. -/
structure Encapsulated where
  ciphertext : Bytes
  sharedSecret : Bytes
  deriving DecidableEq, Repr

namespace Kyber

def secretKeySize : ℕ := 2400
def ciphertextSize : ℕ := 1088
def sharedSecretSize : ℕ := 32

variable (kyber : Kyber768)

/-- Generate a new keypair from the drawn randomness. -/
def generate (seed : Bytes) : KyberKeypair :=
  let (pk,sk) := kyber.keypair seed
  ⟨kyber.publicKey.asBytes pk,kyber.secretKey.asBytes sk⟩

def decapsulate (kp : KyberKeypair) (ciphertext : Bytes) : Except KyberError Bytes :=
  match kyber.secretKey.fromBytes kp.secretKey with
  | none => .error .invalidSecretKey
  | some sk =>
    match kyber.ciphertext.fromBytes ciphertext with
    | none => .error .invalidCiphertext
    | some ct => .ok (kyber.sharedSecret (kyber.decapsulate ct sk))

def encapsulate (publicKey coins : Bytes) : Except KyberError Encapsulated :=
  match kyber.publicKey.fromBytes publicKey with
  | none => .error .invalidPublicKey
  | some pk =>
    let (ss,ct) := kyber.encapsulate pk coins
    .ok ⟨kyber.ciphertext.asBytes ct,kyber.sharedSecret ss⟩

variable {kyber}

/-- Implicit rejection: well-sized inputs always decapsulate to 32 bytes. -/
theorem decapsulate_ok (hs : kyber.Sizes) {kp : KyberKeypair} {ciphertext : Bytes}
    (hk : kp.secretKey.length = secretKeySize) (hc : ciphertext.length = ciphertextSize) :
    ∃ ss, decapsulate kyber kp ciphertext = .ok ss ∧ ss.length = sharedSecretSize := by
  obtain ⟨sk,hsk⟩ := Option.isSome_iff_exists.mp ((hs.secretKey.fromBytes_isSome _).mpr hk)
  obtain ⟨ct,hct⟩ := Option.isSome_iff_exists.mp ((hs.ciphertext.fromBytes_isSome _).mpr hc)
  exact ⟨kyber.sharedSecret (kyber.decapsulate ct sk),by simp [decapsulate, hsk, hct],hs.sharedSecret _⟩

theorem generate_secretKey_length (hs : kyber.Sizes) (seed : Bytes) :
    (generate kyber seed).secretKey.length = secretKeySize := hs.secretKey.length_asBytes _

theorem encapsulate_generate (hs : kyber.Sizes) (seed coins : Bytes) :
    encapsulate kyber (generate kyber seed).publicKey coins =
      .ok ⟨kyber.ciphertext.asBytes (kyber.encapsulate (kyber.keypair seed).1 coins).2,
        kyber.sharedSecret (kyber.encapsulate (kyber.keypair seed).1 coins).1⟩ := by
  simp [encapsulate, generate, hs.publicKey.fromBytes_asBytes]

/-- The owner of a generated key recovers what was encapsulated to it. -/
theorem decapsulate_encapsulate (hs : kyber.Sizes) (hc : kyber.Correct) {seed coins : Bytes}
    {enc : Encapsulated} (h : encapsulate kyber (generate kyber seed).publicKey coins = .ok enc) :
    decapsulate kyber (generate kyber seed) enc.ciphertext = .ok enc.sharedSecret := by
  rw [encapsulate_generate hs] at h
  obtain rfl := Except.ok.inj h
  simp [decapsulate, generate, hs.secretKey.fromBytes_asBytes, hs.ciphertext.fromBytes_asBytes, hc seed coins]

end Kyber
end PqAuth
