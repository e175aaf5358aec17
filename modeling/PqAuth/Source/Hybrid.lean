import PqAuth.Source.Dilithium

/-! `hybrid.rs`: signatures by Ed25519 and Dilithium3 together. -/
namespace PqAuth

inductive HybridError where
  | ed25519Failed
  | dilithiumFailed (e : DilithiumError)
  | invalidSignatureLength (expected got : ℕ)
  | invalidEd25519PublicKey
  | invalidEd25519SecretKey
  deriving DecidableEq, Repr

/-- Both keypairs, in bytes. -/
structure HybridKeypair where
  ed25519Public : Bytes
  ed25519Secret : Bytes
  dilithiumPublic : Bytes
  dilithiumSecret : Bytes
  deriving DecidableEq, Repr

structure HybridPublicKey where
  ed25519 : Bytes
  dilithium : Bytes
  deriving DecidableEq, Repr

namespace Hybrid
open Words
variable (ed25519 : Ed25519) (dilithium : Dilithium3)

def ed25519SigSize : ℕ := 64

def hybridSigSize : ℕ := ed25519SigSize + Dilithium.signatureSize

def generate (edSeed dilSeed : Bytes) : HybridKeypair :=
  let edSigning := ed25519.generate edSeed
  let edVerifying := ed25519.verifyingKey edSigning
  let dil := Dilithium.generate dilithium dilSeed
  ⟨(ed25519.verifyingKeyBytes edVerifying).val,(ed25519.signingKeyBytes edSigning).val,dil.publicKey,dil.secretKey⟩

def publicKey (kp : HybridKeypair) : HybridPublicKey := ⟨kp.ed25519Public,kp.dilithiumPublic⟩

/-- The Ed25519 signature followed by the Dilithium signature. -/
def sign (kp : HybridKeypair) (message coins : Bytes) : Except HybridError Bytes :=
  match tryInto 32 kp.ed25519Secret with
  | none => .error .invalidEd25519SecretKey
  | some edSecret =>
    let edSigning := ed25519.signingKey edSecret
    let edSig := ed25519.sign edSigning message
    let dilKp : DilithiumKeypair := ⟨kp.dilithiumPublic,kp.dilithiumSecret⟩
    match Dilithium.sign dilithium dilKp message coins with
    | .error e => .error (.dilithiumFailed e)
    | .ok dilSig => .ok ((ed25519.signatureBytes edSig).val ++ dilSig)

/-- The checks that follow the split, in order. -/
def verifyHalves (publicKey : HybridPublicKey) (message edSigBytes dilSigBytes : Bytes) : Except HybridError Unit :=
  match tryInto 32 publicKey.ed25519 with
  | none => .error .invalidEd25519PublicKey
  | some edPubBytes =>
    match ed25519.verifyingKeyFromBytes edPubBytes with
    | none => .error .invalidEd25519PublicKey
    | some edVerifying =>
      match tryInto 64 edSigBytes with
      | none => .error .ed25519Failed
      | some edSigArr =>
        let edSig := ed25519.signature edSigArr
        if ed25519.verify edVerifying message edSig then
          match Dilithium.verifyDetached dilithium publicKey.dilithium message dilSigBytes with
          | .error e => .error (.dilithiumFailed e)
          | .ok () => .ok ()
        else .error .ed25519Failed

/-- Verify against a public key; `none` is a panic of the split. -/
def verifyHybrid (publicKey : HybridPublicKey) (message signature : Bytes) : Option (Except HybridError Unit) :=
  if signature.length != hybridSigSize then
    some (.error (.invalidSignatureLength hybridSigSize signature.length))
  else do
    let (edSigBytes,dilSigBytes) ← splitAt ed25519SigSize signature
    return verifyHalves ed25519 dilithium publicKey message edSigBytes dilSigBytes

def verify (kp : HybridKeypair) (message signature : Bytes) : Option (Except HybridError Unit) :=
  verifyHybrid ed25519 dilithium (publicKey kp) message signature

variable {ed25519 dilithium}

theorem verifyHybrid_of_length {signature : Bytes} (h : signature.length = hybridSigSize)
    (publicKey : HybridPublicKey) (message : Bytes) :
    verifyHybrid ed25519 dilithium publicKey message signature = some (verifyHalves ed25519 dilithium publicKey message
      (signature.take ed25519SigSize) (signature.drop ed25519SigSize)) := by
  have hsplit : ed25519SigSize ≤ signature.length := h ▸ Nat.le_add_right ..
  unfold verifyHybrid
  rw [if_neg (by simpa using h), splitAt_of_le hsplit]
  rfl

theorem verifyHybrid_of_length_ne {signature : Bytes} (h : signature.length ≠ hybridSigSize)
    (publicKey : HybridPublicKey) (message : Bytes) :
    verifyHybrid ed25519 dilithium publicKey message signature =
      some (.error (.invalidSignatureLength hybridSigSize signature.length)) := by
  unfold verifyHybrid
  exact if_pos (bne_iff_ne.mpr h)

/-- A valid key of 32 bytes decides the 64 bytes of a signature. -/
def Ed25519Decides (ed25519 : Ed25519) (key message signature : Bytes) (verdict : Bool) : Prop :=
  ∃ (keyArray : FixedBytes 32) (sigArray : FixedBytes 64) (vk : ed25519.VerifyingKey),
    key = keyArray.val ∧ ed25519.verifyingKeyFromBytes keyArray = some vk ∧ signature = sigArray.val ∧
      ed25519.verify vk message (ed25519.signature sigArray) = verdict

theorem ed25519Decides_iff {key message signature : Bytes} {verdict : Bool} :
    Ed25519Decides ed25519 key message signature verdict ↔
      ∃ keyArray sigArray vk, tryInto 32 key = some keyArray ∧ ed25519.verifyingKeyFromBytes keyArray = some vk ∧
        tryInto 64 signature = some sigArray ∧ ed25519.verify vk message (ed25519.signature sigArray) = verdict := by
  simp only [tryInto_eq_some]
  rfl

theorem Ed25519Decides.unique {key message signature : Bytes} {verdict verdict' : Bool}
    (h : Ed25519Decides ed25519 key message signature verdict)
    (h' : Ed25519Decides ed25519 key message signature verdict') : verdict = verdict' := by
  obtain ⟨keyArray,sigArray,vk,rfl,hvk,rfl,rfl⟩ := h
  obtain ⟨keyArray',sigArray',vk',hkey,hvk',hsig,rfl⟩ := h'
  obtain rfl := Subtype.ext hkey
  obtain rfl := Subtype.ext hsig
  rw [hvk] at hvk'
  rw [Option.some.inj hvk']

/-- Where the checks end, with all 64 bytes of the first half at hand. -/
theorem verifyHalves_cases (publicKey : HybridPublicKey) (message right : Bytes) {left : Bytes}
    (hleft : left.length = 64) :
    ((∀ verdict, ¬ Ed25519Decides ed25519 publicKey.ed25519 message left verdict) ∧
      verifyHalves ed25519 dilithium publicKey message left right = .error .invalidEd25519PublicKey) ∨
    (Ed25519Decides ed25519 publicKey.ed25519 message left false ∧
      verifyHalves ed25519 dilithium publicKey message left right = .error .ed25519Failed) ∨
    (Ed25519Decides ed25519 publicKey.ed25519 message left true ∧
      verifyHalves ed25519 dilithium publicKey message left right =
        (Dilithium.verifyDetached dilithium publicKey.dilithium message right).mapError .dilithiumFailed) := by
  simp only [ed25519Decides_iff]
  unfold verifyHalves
  cases hsig : tryInto 64 left with
  | none => exact absurd hleft (tryInto_eq_none.mp hsig)
  | some sigArray =>
    cases hkey : tryInto 32 publicKey.ed25519 with
    | none => simp
    | some keyArray =>
      cases hvk : ed25519.verifyingKeyFromBytes keyArray with
      | none => simp [hvk]
      | some vk =>
        cases hv : ed25519.verify vk message (ed25519.signature sigArray) with
        | false =>
          refine Or.inr (Or.inl ⟨⟨keyArray,sigArray,vk,rfl,hvk,rfl,hv⟩,?_⟩)
          simp only [hvk, hv, Bool.false_eq_true, if_false]
        | true =>
          refine Or.inr (Or.inr ⟨⟨keyArray,sigArray,vk,rfl,hvk,rfl,hv⟩,?_⟩)
          simp only [hvk, hv, if_true]
          cases Dilithium.verifyDetached dilithium publicKey.dilithium message right with
          | error e => rfl
          | ok accepted => rfl

/-- Neither half is skipped. -/
theorem verifyHalves_ok_iff (publicKey : HybridPublicKey) (message right : Bytes) {left : Bytes}
    (hleft : left.length = 64) :
    verifyHalves ed25519 dilithium publicKey message left right = .ok () ↔
      Ed25519Decides ed25519 publicKey.ed25519 message left true ∧
        Dilithium.verifyDetached dilithium publicKey.dilithium message right = .ok () := by
  rcases @verifyHalves_cases ed25519 dilithium publicKey message right left hleft with
    ⟨hnone,he⟩ | ⟨hfalse,he⟩ | ⟨htrue,he⟩
  · rw [he]
    exact iff_of_false (by simp) (fun h => hnone true h.1)
  · rw [he]
    exact iff_of_false (by simp) (fun h => absurd (hfalse.unique h.1) (by simp))
  · rw [he, and_iff_right htrue]
    cases Dilithium.verifyDetached dilithium publicKey.dilithium message right <;> simp [Except.mapError]

/-- With all 64 bytes at hand only the signature itself can be at fault. -/
theorem verifyHalves_ed25519Failed_iff (publicKey : HybridPublicKey) (message right : Bytes) {left : Bytes}
    (hleft : left.length = 64) :
    verifyHalves ed25519 dilithium publicKey message left right = .error .ed25519Failed ↔
      Ed25519Decides ed25519 publicKey.ed25519 message left false := by
  rcases @verifyHalves_cases ed25519 dilithium publicKey message right left hleft with
    ⟨hnone,he⟩ | ⟨hfalse,he⟩ | ⟨htrue,he⟩
  · rw [he]
    exact iff_of_false (by simp) (hnone false)
  · rw [he]
    exact iff_of_true rfl hfalse
  · rw [he]
    refine iff_of_false ?_ (fun h => absurd (htrue.unique h) (by simp))
    cases Dilithium.verifyDetached dilithium publicKey.dilithium message right <;> simp [Except.mapError]

end Hybrid
end PqAuth
