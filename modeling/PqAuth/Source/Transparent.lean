import PqAuth.Source.Challenge
import PqAuth.Source.Recovery

/-! Primitives that hide nothing but satisfy every assumption made of the crates,
so the assumptions are consistent and runs can be computed. -/
namespace PqAuth.Transparent

/-- Cut or fill up with zeros. -/
def pad (n : ℕ) (b : Bytes) : Bytes := (b ++ List.replicate n 0).take n

@[simp] theorem pad_length (n : ℕ) (b : Bytes) : (pad n b).length = n := by
  simp only [pad, List.length_take, List.length_append, List.length_replicate]
  omega

theorem take_pad {m n : ℕ} (h : m ≤ n) (b : Bytes) : (pad n b).take m = pad m b := by
  unfold pad
  rw [List.take_take, min_eq_left h, List.take_append, List.take_append, List.take_replicate, List.take_replicate]
  congr 2
  omega

abbrev Sized (n : ℕ) := {b : Bytes // b.length = n}

def sized (n : ℕ) (b : Bytes) : Sized n := ⟨pad n b,pad_length n b⟩

def wire (n : ℕ) : Wire (Sized n) where
  asBytes := Subtype.val
  fromBytes b := if h : b.length = n then some ⟨b,h⟩ else none

theorem wire_sized (n : ℕ) : (wire n).Sized n where
  length_asBytes a := a.property
  fromBytes_asBytes a := by simp [wire, a.property]
  fromBytes_isSome b := by
    simp only [wire]
    split <;> simp [*]

/-- Keys are their seed; the ciphertext is the coins in clear. -/
def kyber768 : Kyber768 where
  PublicKey := Sized 1184
  SecretKey := Sized 2400
  Ciphertext := Sized 1088
  SharedSecret := Sized 32
  publicKey := wire 1184
  secretKey := wire 2400
  ciphertext := wire 1088
  sharedSecret := Subtype.val
  keypair seed := (sized 1184 seed,sized 2400 seed)
  encapsulate pk coins := (sized 32 (List.zipWith (· ^^^ ·) (pk.val.take 32) (pad 32 coins)),sized 1088 coins)
  decapsulate ct sk := sized 32 (List.zipWith (· ^^^ ·) (sk.val.take 32) (ct.val.take 32))

theorem kyber768_sizes : kyber768.Sizes :=
  ⟨wire_sized 1184,wire_sized 2400,wire_sized 1088,fun ss => ss.property⟩

theorem kyber768_correct : kyber768.Correct := by
  intro seed coins
  simp only [kyber768, sized]
  rw [take_pad (by decide), take_pad (by decide), take_pad (by decide)]

/-- A signature is the key's first bytes followed by the message. -/
def dilithium3 : Dilithium3 where
  PublicKey := Sized 1952
  SecretKey := Sized 4032
  DetachedSignature := Sized 3309
  publicKey := wire 1952
  secretKey := wire 4032
  signature := wire 3309
  keypair seed := (sized 1952 seed,sized 4032 seed)
  detachedSign message sk _ := sized 3309 (sk.val.take 32 ++ message)
  verifyDetachedSignature sig message pk := sig == sized 3309 (pk.val.take 32 ++ message)

theorem dilithium3_encodings : dilithium3.Encodings :=
  ⟨(wire_sized 1952).fromBytes_asBytes,(wire_sized 4032).fromBytes_asBytes,
    fun _ _ _ => (wire_sized 3309).fromBytes_asBytes _,fun _ _ _ => (wire_sized 3309).length_asBytes _⟩

theorem dilithium3_correct : dilithium3.Correct := by
  intro seed message coins
  simp only [dilithium3, sized, beq_iff_eq]
  rw [take_pad (by decide), take_pad (by decide)]

/-- The public key is the secret key, and signs as above. -/
def ed25519 : Ed25519 where
  SigningKey := Sized 32
  VerifyingKey := Sized 32
  Signature := Sized 64
  generate seed := sized 32 seed
  signingKey := id
  signingKeyBytes := id
  verifyingKey := id
  verifyingKeyBytes := id
  verifyingKeyFromBytes b := some b
  signature := id
  signatureBytes := id
  sign sk message := sized 64 (sk.val ++ message)
  verify pk message sig := sig == sized 64 (pk.val ++ message)

theorem ed25519_encodings : ed25519.Encodings := ⟨fun _ => rfl,fun _ => rfl,fun _ => rfl⟩

theorem ed25519_correct : ed25519.Correct := by
  intro sk message
  simp only [ed25519, beq_iff_eq]
  rfl

/-- The key is the salt followed by the password, cut to its length. Short salts are refused. -/
def argon2 : Argon2 where
  Params := Unit
  params _ _ _ _ := .ok ()
  hashPasswordInto _ _ _ password salt n :=
    if salt.length < 8 then .error "salt is too short" else .ok ⟨pad n (salt ++ password),pad_length n _⟩

/-- The ciphertext shows key and nonce before the plaintext. -/
def aes256Gcm : Aes256Gcm where
  Cipher := Sized 32
  Nonce := Sized 12
  newFromSlice key := if h : key.length = 32 then .ok ⟨key,h⟩ else .error "Invalid Length"
  nonceFromSlice bytes := if h : bytes.length = 12 then some ⟨bytes,h⟩ else none
  encrypt cipher nonce plaintext := .ok (cipher.val ++ nonce.val ++ plaintext)
  decrypt cipher nonce ciphertext :=
    if ciphertext.take 44 = cipher.val ++ nonce.val then .ok (ciphertext.drop 44) else .error "aead::Error"

theorem aes256Gcm_sizes : aes256Gcm.Sizes where
  newFromSlice key := by
    simp only [aes256Gcm]
    split <;> simp [*]
  nonceFromSlice bytes := by
    simp only [aes256Gcm]
    split <;> simp [*]

theorem aes256Gcm_correct : aes256Gcm.Correct := by
  intro cipher nonce plaintext ciphertext h
  obtain rfl := Except.ok.inj h
  have hlen : (cipher.val ++ nonce.val).length = 44 := by
    rw [List.length_append, cipher.property, nonce.property]
  simp only [aes256Gcm]
  rw [List.take_left' hlen, List.drop_left' hlen, if_pos rfl]

theorem aes256Gcm_authentic : aes256Gcm.Authentic := by
  intro cipher nonce plaintext ciphertext h
  simp only [aes256Gcm] at h ⊢
  split at h
  · rename_i htag
    rw [← Except.ok.inj h, ← htag, List.take_append_drop]
  · cases h

/-- Squeezes what was absorbed after the nineteen bytes of the seed domain. -/
def shake256 : Xof := fun input i => input.getD (19 + i) 0

def digit (n : ℕ) : Char := if n < 10 then Char.ofNat (48 + n) else Char.ofNat (87 + n)

def value (c : Char) : Option ℕ :=
  if '0' ≤ c ∧ c ≤ '9' then some (c.toNat - 48)
  else if 'a' ≤ c ∧ c ≤ 'f' then some (c.toNat - 87)
  else if 'A' ≤ c ∧ c ≤ 'F' then some (c.toNat - 55)
  else none

def hexDigits : Bytes → List Char
  | [] => []
  | b :: bytes => digit (b.toNat / 16) :: digit (b.toNat % 16) :: hexDigits bytes

def fromHexDigits : List Char → Option Bytes
  | [] => some []
  | [_] => none
  | high :: low :: digits => do
    let h ← value high
    let l ← value low
    let bytes ← fromHexDigits digits
    return UInt8.ofNat (16 * h + l) :: bytes

/-- Lower-case output, either case as input, an even number of digits. -/
def hex : Hex where
  encode bytes := String.ofList (hexDigits bytes)
  decode s := fromHexDigits s.toList

private theorem value_digit : ∀ n < 16, value (digit n) = some n := by
  decide

theorem hex_roundTrip : hex.RoundTrip := by
  intro bytes
  simp only [hex, String.toList_ofList]
  induction bytes with
  | nil => rfl
  | cons b bytes ih =>
    have hb := b.toNat_lt
    have hv : 16 * (b.toNat / 16) + b.toNat % 16 = b.toNat := Nat.div_add_mod ..
    rw [hexDigits, fromHexDigits, value_digit _ (by omega), value_digit _ (by omega), ih]
    change some (UInt8.ofNat (16 * (b.toNat / 16) + b.toNat % 16) :: bytes) = _
    rw [hv, UInt8.ofNat_toNat]

def crates : Crates := ⟨hex,shake256,kyber768,dilithium3⟩

/-- Case mapping of the ASCII letters alone. -/
def recoveryLibrary : RecoveryLibrary := ⟨hex,shake256,fun c => [c.toUpper]⟩

theorem recoveryLibrary_uppercasesAscii : recoveryLibrary.UppercasesAscii := fun _ _ => rfl

def keypair : DilithiumKeypair := Dilithium.generate dilithium3 [1]

theorem keypair_publicKey_length : keypair.publicKey.length = Dilithium.publicKeySize := pad_length 1952 [1]

/-- The holder's signed answer, with the nonce field left to whoever sends it. -/
def respond (challenge : Challenge) (nonce : Nonce) (clientTime : UInt64) : ChallengeResponse :=
  ⟨nonce,clientTime,(dilithium3.detachedSign (challenge.signingPayload clientTime) (dilithium3.keypair [1]).2 []).val⟩

theorem respondToChallenge_eq (c : Challenge) (clientTime : UInt64) :
    respondToChallenge dilithium3 keypair c clientTime [] = .ok (respond c c.nonce clientTime) := by
  unfold respondToChallenge
  rw [keypair, Dilithium.sign_generate dilithium3_encodings]
  rfl

/-- The nonce field is not signed. -/
theorem acceptable_respond {c : Challenge} {clientTime now skew : UInt64} (hx : c.isExpired now = false)
    (hk : Words.absDiff clientTime now ≤ skew) (nonce : Nonce) :
    ChallengeVerifier.Acceptable dilithium3 skew c (respond c nonce clientTime) keypair.publicKey now := by
  have hr := respondToChallenge_eq c clientTime
  exact (ChallengeVerifier.acceptable_respondToChallenge dilithium3_encodings dilithium3_correct hr hx hk).2.2

end PqAuth.Transparent
