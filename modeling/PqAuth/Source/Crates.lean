import PqAuth.Foundation.Words

/-! The third-party crates the program calls, as parameters. Randomness is an
explicit byte string. The propositions below are documented behaviour of the
crates; a theorem names the ones it needs. -/
namespace PqAuth

/-- The `hex` crate. -/
structure Hex where
  encode : Bytes → String
  decode : String → Option Bytes

def Hex.RoundTrip (hex : Hex) : Prop := ∀ b, hex.decode (hex.encode b) = some b

/-- `sha3::Shake256`: the bytes squeezed from an absorbed input. -/
abbrev Xof := Bytes → ℕ → UInt8

/-- The `as_bytes` and `from_bytes` of `pqcrypto_traits`. -/
structure Wire (α : Type) where
  asBytes : α → Bytes
  fromBytes : Bytes → Option α

/-- Conversions check the length and nothing else. -/
structure Wire.Sized {α : Type} (w : Wire α) (n : ℕ) : Prop where
  length_asBytes : ∀ a, (w.asBytes a).length = n
  fromBytes_asBytes : ∀ a, w.fromBytes (w.asBytes a) = some a
  fromBytes_isSome : ∀ b, (w.fromBytes b).isSome ↔ b.length = n

/-- `pqcrypto_kyber::kyber768`. -/
structure Kyber768 where
  PublicKey : Type
  SecretKey : Type
  Ciphertext : Type
  SharedSecret : Type
  publicKey : Wire PublicKey
  secretKey : Wire SecretKey
  ciphertext : Wire Ciphertext
  sharedSecret : SharedSecret → Bytes
  keypair : Bytes → PublicKey × SecretKey
  encapsulate : PublicKey → Bytes → SharedSecret × Ciphertext
  decapsulate : Ciphertext → SecretKey → SharedSecret

structure Kyber768.Sizes (kyber : Kyber768) : Prop where
  publicKey : kyber.publicKey.Sized 1184
  secretKey : kyber.secretKey.Sized 2400
  ciphertext : kyber.ciphertext.Sized 1088
  sharedSecret : ∀ ss, (kyber.sharedSecret ss).length = 32

/-- Decapsulation with the matching secret key returns the encapsulated secret. -/
def Kyber768.Correct (kyber : Kyber768) : Prop :=
  ∀ seed coins, kyber.decapsulate (kyber.encapsulate (kyber.keypair seed).1 coins).2 (kyber.keypair seed).2 =
    (kyber.encapsulate (kyber.keypair seed).1 coins).1

/-- `pqcrypto_dilithium::dilithium3`. -/
structure Dilithium3 where
  PublicKey : Type
  SecretKey : Type
  DetachedSignature : Type
  publicKey : Wire PublicKey
  secretKey : Wire SecretKey
  signature : Wire DetachedSignature
  keypair : Bytes → PublicKey × SecretKey
  detachedSign : Bytes → SecretKey → Bytes → DetachedSignature
  verifyDetachedSignature : DetachedSignature → Bytes → PublicKey → Bool

/-- Keys and signatures survive their encoding, and a detached signature has its size. -/
structure Dilithium3.Encodings (dilithium : Dilithium3) : Prop where
  publicKey : ∀ pk, dilithium.publicKey.fromBytes (dilithium.publicKey.asBytes pk) = some pk
  secretKey : ∀ sk, dilithium.secretKey.fromBytes (dilithium.secretKey.asBytes sk) = some sk
  signature : ∀ message sk coins,
    dilithium.signature.fromBytes (dilithium.signature.asBytes (dilithium.detachedSign message sk coins)) =
      some (dilithium.detachedSign message sk coins)
  length_signature : ∀ message sk coins,
    (dilithium.signature.asBytes (dilithium.detachedSign message sk coins)).length = 3309

/-- A signature verifies under the public key matching the signing key. -/
def Dilithium3.Correct (dilithium : Dilithium3) : Prop :=
  ∀ seed message coins, dilithium.verifyDetachedSignature
    (dilithium.detachedSign message (dilithium.keypair seed).2 coins) message (dilithium.keypair seed).1 = true

/-- `ed25519_dalek`. Sizes are part of the types; only a public key may be refused. -/
structure Ed25519 where
  SigningKey : Type
  VerifyingKey : Type
  Signature : Type
  generate : Bytes → SigningKey
  signingKey : FixedBytes 32 → SigningKey
  signingKeyBytes : SigningKey → FixedBytes 32
  verifyingKey : SigningKey → VerifyingKey
  verifyingKeyBytes : VerifyingKey → FixedBytes 32
  verifyingKeyFromBytes : FixedBytes 32 → Option VerifyingKey
  signature : FixedBytes 64 → Signature
  signatureBytes : Signature → FixedBytes 64
  sign : SigningKey → Bytes → Signature
  verify : VerifyingKey → Bytes → Signature → Bool

structure Ed25519.Encodings (ed25519 : Ed25519) : Prop where
  signingKey : ∀ sk, ed25519.signingKey (ed25519.signingKeyBytes sk) = sk
  verifyingKey : ∀ sk, ed25519.verifyingKeyFromBytes (ed25519.verifyingKeyBytes (ed25519.verifyingKey sk)) =
    some (ed25519.verifyingKey sk)
  signature : ∀ sig, ed25519.signature (ed25519.signatureBytes sig) = sig

/-- A signature verifies under the public key derived from the signing key. -/
def Ed25519.Correct (ed25519 : Ed25519) : Prop :=
  ∀ sk message, ed25519.verify (ed25519.verifyingKey sk) message (ed25519.sign sk message) = true

inductive Argon2Algorithm where
  | argon2d
  | argon2i
  | argon2id
  deriving DecidableEq, Repr

inductive Argon2Version where
  | v0x10
  | v0x13
  deriving DecidableEq, Repr

/-- `argon2`. The key is a function of the parameters, the password and the salt. -/
structure Argon2 where
  Params : Type
  params : UInt32 → UInt32 → UInt32 → Option ℕ → Except String Params
  hashPasswordInto : Argon2Algorithm → Argon2Version → Params → Bytes → Bytes → (n : ℕ) →
    Except String (FixedBytes n)

/-- `aes_gcm::Aes256Gcm`. A nonce is taken from a slice by a conversion that
panics, here `none`; a key of another size is an error. -/
structure Aes256Gcm where
  Cipher : Type
  Nonce : Type
  newFromSlice : Bytes → Except String Cipher
  nonceFromSlice : Bytes → Option Nonce
  encrypt : Cipher → Nonce → Bytes → Except String Bytes
  decrypt : Cipher → Nonce → Bytes → Except String Bytes

structure Aes256Gcm.Sizes (aes : Aes256Gcm) : Prop where
  newFromSlice : ∀ key, (∃ cipher, aes.newFromSlice key = .ok cipher) ↔ key.length = 32
  nonceFromSlice : ∀ bytes, (aes.nonceFromSlice bytes).isSome ↔ bytes.length = 12

/-- Decryption undoes encryption under the same key and nonce. -/
def Aes256Gcm.Correct (aes : Aes256Gcm) : Prop :=
  ∀ cipher nonce plaintext ciphertext, aes.encrypt cipher nonce plaintext = .ok ciphertext →
    aes.decrypt cipher nonce ciphertext = .ok plaintext

/-- What decrypts is what encryption gives for it: the tag is recomputed from the
plaintext's own ciphertext. -/
def Aes256Gcm.Authentic (aes : Aes256Gcm) : Prop :=
  ∀ cipher nonce plaintext ciphertext, aes.decrypt cipher nonce ciphertext = .ok plaintext →
    aes.encrypt cipher nonce plaintext = .ok ciphertext

/-- Everything the server takes from outside the repository. -/
structure Crates where
  hex : Hex
  shake256 : Xof
  kyber768 : Kyber768
  dilithium3 : Dilithium3

end PqAuth
