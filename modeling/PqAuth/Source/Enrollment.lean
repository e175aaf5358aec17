import PqAuth.Source.Dilithium
import PqAuth.Source.Kyber
import PqAuth.Source.ShakeMac

/-! `enrollment.rs`: the key exchange that gives client and server one seed. -/
namespace PqAuth

inductive EnrollmentError where
  | kyber (e : KyberError)
  | invalidServerIdentity
  | invalidCiphertextLength (expected got : ℕ)
  | invalidPublicKeyLength (expected got : ℕ)
  deriving DecidableEq, Repr

def EnrollmentError.toString : EnrollmentError → String
  | .kyber e => "Kyber error: " ++ e.toString
  | .invalidServerIdentity => "invalid server identity"
  | .invalidCiphertextLength expected got =>
    "invalid ciphertext length (expected " ++ expected.repr ++ ", got " ++ got.repr ++ ")"
  | .invalidPublicKeyLength expected got =>
    "invalid Dilithium public key length (expected " ++ expected.repr ++ ", got " ++ got.repr ++ ")"

/-- Server-side enrollment state. -/
structure ServerEnrollment where
  kyberPublicKey : Bytes
  kyberSecretKey : Bytes
  serverId : String
  deriving DecidableEq, Repr

/-- Data sent from server to client to initiate enrollment. -/
structure EnrollmentChallenge where
  kyberPublicKey : Bytes
  serverId : String
  deriving DecidableEq, Repr

/-- Data sent from client to server to complete enrollment. -/
structure EnrollmentResponse where
  ciphertext : Bytes
  dilithiumPublicKey : Bytes
  deriving DecidableEq, Repr

/-- Completed enrollment record stored by the server. -/
structure EnrollmentRecord where
  dilithiumPublicKey : Bytes
  totpSeed : Bytes
  serverId : String
  deriving DecidableEq, Repr

/-- Client-side enrollment result. -/
structure ClientEnrollment where
  totpSeed : Bytes
  serverId : String
  deriving DecidableEq, Repr

namespace Enrollment
variable (crates : Crates)

def totpSeedDomain : Bytes := "pqauth-totp-seed-v1".toUTF8.data.toList

def totpSeedLen : ℕ := 32

/-- The string hashed to a seed: domain, shared secret, server identity. -/
def seedInput (sharedSecret : Bytes) (serverId : String) : Bytes :=
  totpSeedDomain ++ sharedSecret ++ serverId.toUTF8.data.toList

def deriveTotpSeed (sharedSecret : Bytes) (serverId : String) : Bytes :=
  ShakeMac.shake256 crates.shake256 (seedInput sharedSecret serverId) totpSeedLen

/-- Create a new enrollment session. -/
def new (serverId : String) (seed : Bytes) : ServerEnrollment :=
  let kp := Kyber.generate crates.kyber768 seed
  ⟨kp.publicKey,kp.secretKey,serverId⟩

def challenge (enrollment : ServerEnrollment) : EnrollmentChallenge :=
  ⟨enrollment.kyberPublicKey,enrollment.serverId⟩

/-- Complete enrollment using the client's response. -/
def complete (enrollment : ServerEnrollment) (response : EnrollmentResponse) :
    Except EnrollmentError EnrollmentRecord :=
  if response.ciphertext.length != Kyber.ciphertextSize then
    .error (.invalidCiphertextLength Kyber.ciphertextSize response.ciphertext.length)
  else if response.dilithiumPublicKey.length != Dilithium.publicKeySize then
    .error (.invalidPublicKeyLength Dilithium.publicKeySize response.dilithiumPublicKey.length)
  else
    let kp : KyberKeypair := ⟨enrollment.kyberPublicKey,enrollment.kyberSecretKey⟩
    match Kyber.decapsulate crates.kyber768 kp response.ciphertext with
    | .error e => .error (.kyber e)
    | .ok sharedSecret =>
      .ok ⟨response.dilithiumPublicKey,deriveTotpSeed crates sharedSecret enrollment.serverId,enrollment.serverId⟩

/-- The client's side. Encapsulation draws its own randomness. -/
def clientEnroll (challenge : EnrollmentChallenge) (dilithiumPublicKey coins : Bytes) :
    Except EnrollmentError (EnrollmentResponse × ClientEnrollment) :=
  if challenge.serverId.isEmpty then .error .invalidServerIdentity
  else
    match Kyber.encapsulate crates.kyber768 challenge.kyberPublicKey coins with
    | .error e => .error (.kyber e)
    | .ok encapsulated =>
      let totpSeed := deriveTotpSeed crates encapsulated.sharedSecret challenge.serverId
      .ok (⟨encapsulated.ciphertext,dilithiumPublicKey⟩,⟨totpSeed,challenge.serverId⟩)

@[simp] theorem deriveTotpSeed_length (sharedSecret : Bytes) (serverId : String) :
    (deriveTotpSeed crates sharedSecret serverId).length = totpSeedLen := by
  simp [deriveTotpSeed]

variable {crates}

/-- Everything a successful completion checked and stored. -/
theorem complete_ok {enrollment : ServerEnrollment} {response : EnrollmentResponse}
    {record : EnrollmentRecord} (h : complete crates enrollment response = .ok record) :
    response.ciphertext.length = Kyber.ciphertextSize ∧
    response.dilithiumPublicKey.length = Dilithium.publicKeySize ∧
    ∃ sharedSecret, Kyber.decapsulate crates.kyber768
        ⟨enrollment.kyberPublicKey,enrollment.kyberSecretKey⟩ response.ciphertext = .ok sharedSecret ∧
      record = ⟨response.dilithiumPublicKey,deriveTotpSeed crates sharedSecret enrollment.serverId,
        enrollment.serverId⟩ := by
  unfold complete at h
  split at h
  · cases h
  · rename_i hct
    split at h
    · cases h
    · rename_i hpk
      simp only at h
      split at h
      · cases h
      · rename_i ss hss
        exact ⟨by simpa using hct,by simpa using hpk,ss,hss,(Except.ok.inj h).symm⟩

/-- Completion fails exactly on a wrongly sized field. -/
theorem complete_error_iff (hs : crates.kyber768.Sizes) {enrollment : ServerEnrollment}
    (hk : enrollment.kyberSecretKey.length = Kyber.secretKeySize) (response : EnrollmentResponse) :
    (∃ e, complete crates enrollment response = .error e) ↔
      ¬ (response.ciphertext.length = Kyber.ciphertextSize ∧
        response.dilithiumPublicKey.length = Dilithium.publicKeySize) := by
  constructor
  · rintro ⟨e,he⟩ ⟨hct,hpk⟩
    have hkp : (⟨enrollment.kyberPublicKey,enrollment.kyberSecretKey⟩ : KyberKeypair).secretKey.length =
        Kyber.secretKeySize := hk
    obtain ⟨ss,hss,_⟩ := Kyber.decapsulate_ok hs hkp hct
    simp [complete, hct, hpk, hss] at he
  · intro hbad
    cases hr : complete crates enrollment response with
    | error e => exact ⟨e,rfl⟩
    | ok record => exact absurd ⟨(complete_ok hr).1,(complete_ok hr).2.1⟩ hbad

/-- An honest client's answer. -/
theorem clientEnroll_ok {challenge : EnrollmentChallenge} {dilithiumPublicKey coins : Bytes}
    {response : EnrollmentResponse} {client : ClientEnrollment}
    (h : clientEnroll crates challenge dilithiumPublicKey coins = .ok (response,client)) :
    ∃ enc, Kyber.encapsulate crates.kyber768 challenge.kyberPublicKey coins = .ok enc ∧
      response = ⟨enc.ciphertext,dilithiumPublicKey⟩ ∧
      client = ⟨deriveTotpSeed crates enc.sharedSecret challenge.serverId,challenge.serverId⟩ := by
  unfold clientEnroll at h
  split at h
  · cases h
  · split at h
    · cases h
    · rename_i enc henc
      obtain ⟨hr,hc⟩ := Prod.mk.inj (Except.ok.inj h)
      exact ⟨enc,henc,hr.symm,hc.symm⟩

/-- Both sides hold the client's seed and key when the completed session owns
the public key the client encapsulated to. -/
theorem complete_clientEnroll (hs : crates.kyber768.Sizes) (hc : crates.kyber768.Correct)
    {serverId : String} {seed dilithiumPublicKey coins : Bytes} {response : EnrollmentResponse}
    {client : ClientEnrollment} {record : EnrollmentRecord}
    (hclient : clientEnroll crates (challenge (new crates serverId seed)) dilithiumPublicKey coins =
      .ok (response,client))
    (hrecord : complete crates (new crates serverId seed) response = .ok record) :
    record.totpSeed = client.totpSeed ∧ record.dilithiumPublicKey = dilithiumPublicKey := by
  obtain ⟨enc,henc,rfl,rfl⟩ := clientEnroll_ok hclient
  obtain ⟨_,_,ss,hss,rfl⟩ := complete_ok hrecord
  have hd := Kyber.decapsulate_encapsulate hs hc henc
  obtain rfl : enc.sharedSecret = ss := Except.ok.inj (hd.symm.trans hss)
  exact ⟨rfl,rfl⟩

end Enrollment
end PqAuth
