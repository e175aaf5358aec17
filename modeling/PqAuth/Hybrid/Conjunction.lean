import PqAuth.Foundation.SignatureScheme
import PqAuth.Source.Hybrid
import PqAuth.Source.Transparent

/-! The hybrid scheme is the conjunction of its two components, cut after the
Ed25519 signature. -/
namespace PqAuth.Hybrid
open Words
variable {ed25519 : Ed25519} {dilithium : Dilithium3}

/-- Ed25519 over byte strings, as the source calls it. -/
def ed25519Scheme (ed25519 : Ed25519) : SignatureScheme UInt8 Bytes where
  PublicKey := Bytes
  SecretKey := Bytes
  Coins := Unit
  Matching pk sk := ∃ secret : FixedBytes 32, sk = secret.val ∧
    pk = (ed25519.verifyingKeyBytes (ed25519.verifyingKey (ed25519.signingKey secret))).val
  sign sk message _ := (tryInto 32 sk).map (fun secret =>
    (ed25519.signatureBytes (ed25519.sign (ed25519.signingKey secret) message)).val)
  Verifies pk message signature := Ed25519Decides ed25519 pk message signature true

def dilithiumScheme (dilithium : Dilithium3) : SignatureScheme UInt8 Bytes where
  PublicKey := Bytes
  SecretKey := DilithiumKeypair
  Coins := Bytes
  Matching pk kp := pk = kp.publicKey ∧ ∃ seed, kp = Dilithium.generate dilithium seed
  sign kp message coins := (Dilithium.sign dilithium kp message coins).toOption
  Verifies pk message signature := Dilithium.verifyDetached dilithium pk message signature = .ok ()

theorem ed25519Scheme_fixed : (ed25519Scheme ed25519).Fixed ed25519SigSize := by
  intro sk message coins signature h
  obtain ⟨secret,_,rfl⟩ := Option.map_eq_some_iff.mp h
  exact (ed25519.signatureBytes _).property

theorem ed25519Scheme_correct (he : ed25519.Encodings) (hc : ed25519.Correct) : (ed25519Scheme ed25519).Correct := by
  rintro pk sk ⟨secret,rfl,rfl⟩ message coins
  refine ⟨(ed25519.signatureBytes (ed25519.sign (ed25519.signingKey secret) message)).val,?_,?_⟩
  · simp only [ed25519Scheme, tryInto_val, Option.map_some]
  · refine ⟨_,_,_,rfl,he.verifyingKey _,rfl,?_⟩
    rw [he.signature]
    exact hc _ _

theorem dilithiumScheme_fixed (he : dilithium.Encodings) :
    (dilithiumScheme dilithium).Fixed Dilithium.signatureSize := by
  intro kp message coins signature h
  simp only [dilithiumScheme, Dilithium.sign] at h
  split at h
  · cases h
  · obtain rfl := Option.some.inj h
    exact he.length_signature ..

theorem dilithiumScheme_correct (he : dilithium.Encodings) (hc : dilithium.Correct) :
    (dilithiumScheme dilithium).Correct := by
  rintro pk kp ⟨rfl,seed,rfl⟩ message coins
  have hsign := Dilithium.sign_generate he seed message coins
  refine ⟨_,?_,Dilithium.verifyDetached_sign he hc hsign⟩
  simp only [dilithiumScheme, hsign]
  rfl

/-- What the source implements. -/
abbrev scheme (ed25519 : Ed25519) (dilithium : Dilithium3) : SignatureScheme UInt8 Bytes :=
  SignatureScheme.conj (ed25519Scheme ed25519) (dilithiumScheme dilithium) ed25519SigSize Dilithium.signatureSize

def dilithiumKeypair (kp : HybridKeypair) : DilithiumKeypair := ⟨kp.dilithiumPublic,kp.dilithiumSecret⟩

/-- Signing puts the halves in the order in which verification cuts them. -/
theorem sign_ok_iff (kp : HybridKeypair) (message coins signature : Bytes) :
    sign ed25519 dilithium kp message coins = .ok signature ↔
      (scheme ed25519 dilithium).sign (kp.ed25519Secret,dilithiumKeypair kp) message ((),coins) = some signature := by
  simp only [sign, scheme, SignatureScheme.conj, ed25519Scheme, dilithiumScheme, dilithiumKeypair]
  cases tryInto 32 kp.ed25519Secret with
  | none => simp
  | some secret =>
    cases Dilithium.sign dilithium ⟨kp.dilithiumPublic,kp.dilithiumSecret⟩ message coins with
    | error e => simp [Except.toOption]
    | ok right => simp [Except.toOption]

theorem extract_left (signature : Bytes) : signature.extract 0 64 = signature.take ed25519SigSize := rfl

theorem extract_left_length {signature : Bytes} (h : signature.length = 3373) :
    (signature.extract 0 64).length = 64 := by
  rw [extract_left, List.length_take, h]
  rfl

theorem extract_right {signature : Bytes} (h : signature.length = 3373) :
    signature.extract 64 3373 = signature.drop ed25519SigSize := by
  rw [List.extract_eq_take_drop]
  apply List.take_of_length_le
  rw [List.length_drop, h]

theorem verifyHybrid_iff (publicKey : HybridPublicKey) (message signature : Bytes) :
    verifyHybrid ed25519 dilithium publicKey message signature = some (.ok ()) ↔
      (scheme ed25519 dilithium).Verifies (publicKey.ed25519,publicKey.dilithium) message signature := by
  by_cases hlen : signature.length = hybridSigSize
  · have hleft := extract_left_length hlen
    rw [verifyHybrid_of_length hlen, Option.some_inj, ← extract_left, verifyHalves_ok_iff _ _ _ hleft]
    exact (and_iff_right hlen).symm
  · rw [verifyHybrid_of_length_ne hlen]
    simp only [Option.some_inj, reduceCtorEq, false_iff]
    exact fun h => hlen h.1

/-- Each public half belongs to the secret half beside it. -/
def Matching (ed25519 : Ed25519) (dilithium : Dilithium3) (kp : HybridKeypair) : Prop :=
  (scheme ed25519 dilithium).Matching (kp.ed25519Public,kp.dilithiumPublic) (kp.ed25519Secret,dilithiumKeypair kp)

theorem generate_matching (he : ed25519.Encodings) (edSeed dilSeed : Bytes) :
    Matching ed25519 dilithium (generate ed25519 dilithium edSeed dilSeed) := by
  refine ⟨⟨ed25519.signingKeyBytes (ed25519.generate edSeed),rfl,?_⟩,rfl,dilSeed,rfl⟩
  rw [he.signingKey]
  rfl

theorem verify_sign (hee : ed25519.Encodings) (hec : ed25519.Correct) (hde : dilithium.Encodings)
    (hdc : dilithium.Correct) {kp : HybridKeypair} (hkp : Matching ed25519 dilithium kp) (message coins : Bytes) :
    ∃ signature, sign ed25519 dilithium kp message coins = .ok signature ∧
      verify ed25519 dilithium kp message signature = some (.ok ()) := by
  have hcorrect := SignatureScheme.conj_correct (ed25519Scheme_correct hee hec) (dilithiumScheme_correct hde hdc)
    ed25519Scheme_fixed (dilithiumScheme_fixed hde)
  obtain ⟨signature,hsign,hverifies⟩ := hcorrect _ _ hkp message ((),coins)
  exact ⟨signature,(sign_ok_iff ..).mpr hsign,(verifyHybrid_iff ..).mpr hverifies⟩

/-- Acceptance, in terms of the components. -/
structure Accepted (ed25519 : Ed25519) (dilithium : Dilithium3) (publicKey : HybridPublicKey)
    (message signature : Bytes) : Prop where
  length : signature.length = 3373
  ed25519 : Ed25519Decides ed25519 publicKey.ed25519 message (signature.extract 0 64) true
  dilithium : ∃ pk, dilithium.publicKey.fromBytes publicKey.dilithium = some pk ∧
    ∃ sig, dilithium.signature.fromBytes (signature.extract 64 3373) = some sig ∧
      dilithium.verifyDetachedSignature sig message pk = true

theorem verifyHybrid_ok_iff_accepted (publicKey : HybridPublicKey) (message signature : Bytes) :
    verifyHybrid ed25519 dilithium publicKey message signature = some (.ok ()) ↔
      Accepted ed25519 dilithium publicKey message signature := by
  rw [verifyHybrid_iff]
  constructor
  · rintro ⟨hlen,hed,hdil⟩
    have hright := extract_right hlen
    refine ⟨hlen,hed,(Dilithium.verifyDetached_ok_iff ..).mp ?_⟩
    rw [hright]
    exact hdil
  · rintro ⟨hlen,hed,hdil⟩
    refine ⟨hlen,hed,?_⟩
    rw [extract_right hlen] at hdil
    exact (Dilithium.verifyDetached_ok_iff ..).mpr hdil

theorem verifyHybrid_ed25519Failed_iff (publicKey : HybridPublicKey) (message signature : Bytes) :
    verifyHybrid ed25519 dilithium publicKey message signature = some (.error .ed25519Failed) ↔
      signature.length = 3373 ∧ Ed25519Decides ed25519 publicKey.ed25519 message (signature.extract 0 64) false := by
  by_cases hlen : signature.length = 3373
  · have hleft := extract_left_length hlen
    rw [verifyHybrid_of_length hlen, Option.some_inj, ← extract_left, verifyHalves_ed25519Failed_iff _ _ _ hleft]
    exact (and_iff_right hlen).symm
  · rw [verifyHybrid_of_length_ne hlen]
    simp [hlen]

theorem verifyHybrid_isSome (publicKey : HybridPublicKey) (message signature : Bytes) :
    (verifyHybrid ed25519 dilithium publicKey message signature).isSome := by
  by_cases hlen : signature.length = hybridSigSize
  · rw [verifyHybrid_of_length hlen]
    rfl
  · rw [verifyHybrid_of_length_ne hlen]
    rfl

/-- The cut and the conversion of the first half succeed on every signature of the right length. -/
theorem split_converts {signature : Bytes} (h : signature.length = 3373) :
    splitAt ed25519SigSize signature = some (signature.extract 0 64,signature.extract 64 3373) ∧
      ∃ half, tryInto 64 (signature.extract 0 64) = some half := by
  refine ⟨?_,⟨_,extract_left_length h⟩,tryInto_eq_some.mpr rfl⟩
  rw [extract_left, extract_right h]
  apply splitAt_of_le
  rw [h]
  decide

/-- Verification never panics, accepts exactly what both components accept, blames
Ed25519 for nothing but a signature that does not verify, and accepts what was
signed under a matching keypair. -/
theorem hybrid_strict_conjunction (ed25519 : Ed25519) (dilithium : Dilithium3) :
    (∀ (publicKey : HybridPublicKey) (message signature : Bytes), ∃ outcome,
      verifyHybrid ed25519 dilithium publicKey message signature = some outcome ∧
      (outcome = .ok () ↔ Accepted ed25519 dilithium publicKey message signature) ∧
      (outcome = .error .ed25519Failed ↔ signature.length = 3373 ∧
        Ed25519Decides ed25519 publicKey.ed25519 message (signature.extract 0 64) false)) ∧
    (∀ signature : Bytes, signature.length = 3373 →
      splitAt ed25519SigSize signature = some (signature.extract 0 64,signature.extract 64 3373) ∧
        ∃ half, tryInto 64 (signature.extract 0 64) = some half) ∧
    (ed25519.Encodings → ed25519.Correct → dilithium.Encodings → dilithium.Correct →
      ∀ (kp : HybridKeypair) (message coins : Bytes), Matching ed25519 dilithium kp →
        ∃ signature, sign ed25519 dilithium kp message coins = .ok signature ∧
          verify ed25519 dilithium kp message signature = some (.ok ())) := by
  refine ⟨?_,fun signature => split_converts,
    fun hee hec hde hdc kp message coins hkp => verify_sign hee hec hde hdc hkp message coins⟩
  intro publicKey message signature
  obtain ⟨outcome,ho⟩ := Option.isSome_iff_exists.mp
    (@verifyHybrid_isSome ed25519 dilithium publicKey message signature)
  refine ⟨outcome,ho,?_,?_⟩
  · rw [← verifyHybrid_ok_iff_accepted, ho, Option.some_inj]
  · rw [← @verifyHybrid_ed25519Failed_iff ed25519 dilithium, ho, Option.some_inj]

/-- A generated keypair signs a message and verifies it. -/
theorem hybrid_strict_conjunction_generated :
    let kp := generate Transparent.ed25519 Transparent.dilithium3 [1] [2]
    ∃ signature, sign Transparent.ed25519 Transparent.dilithium3 kp [3,4] [5] = .ok signature ∧
      verify Transparent.ed25519 Transparent.dilithium3 kp [3,4] signature = some (.ok ()) :=
  (hybrid_strict_conjunction Transparent.ed25519 Transparent.dilithium3).2.2 Transparent.ed25519_encodings
    Transparent.ed25519_correct Transparent.dilithium3_encodings Transparent.dilithium3_correct _ _ _
    (generate_matching Transparent.ed25519_encodings [1] [2])

end PqAuth.Hybrid
