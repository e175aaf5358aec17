import PqAuth.Server.ChallengeLogin

/-! Fields that arrive as text. Malformed hex is read as an empty string or a
zero nonce, so a later check has to refuse each default. -/
namespace PqAuth.PqAuthServer
variable {crates : Crates}

/-- A field that holds the hex of `n` bytes. -/
def HexOf (crates : Crates) (n : ℕ) (field : String) : Prop :=
  ∃ bytes, crates.hex.decode field = some bytes ∧ bytes.length = n

/-- A nonce field that holds the hex of the challenge waiting for the user. -/
def NamesPending (crates : Crates) (s : ServerInner) (u nonce : String) : Prop :=
  ∃ challenge, s.pendingChallenges u = some challenge ∧ crates.hex.decode nonce = some challenge.nonce.val

/-- Malformed or mismatching fields neither enroll nor log in. -/
structure FieldsRefused (crates : Crates) (s : ServerInner) (c : Call) : Prop where
  enrollment : ∀ req, c.request = .enrollComplete req →
    ¬ (HexOf crates Kyber.ciphertextSize req.ciphertext ∧
      HexOf crates Dilithium.publicKeySize req.dilithiumPublicKey) →
    (∃ e, (step crates s c).1 = .error e) ∧ (step crates s c).2.users = s.users
  verification : ∀ u nonce ct sig, c.request = .verify ⟨u,.challenge nonce ct sig⟩ →
    (crates.hex.decode sig = none ∨ ¬ NamesPending crates s u nonce) →
    ∀ message, (step crates s c).1 ≠ .ok (.verify ⟨true,message⟩)

/-- A response that passes every check but names a nonce other than the pending
one, and none that is remembered. -/
def Misnamed (crates : Crates) (s : ServerInner) (env : Env) (request : Request) : Prop :=
  ∃ u nonce ct sig record challenge, request = .verify ⟨u,.challenge nonce ct sig⟩ ∧
    s.users u = some record ∧ passes s env u = true ∧ s.pendingChallenges u = some challenge ∧
    crates.hex.decode nonce ≠ some challenge.nonce.val ∧
    ChallengeVerifier.Acceptable crates.dilithium3 s.verifier.maxClockSkew challenge
      (decodeResponse crates nonce ct sig) record.dilithiumPublicKey env.ts ∧
    (s.verifier.clearExpired env.ts).usedNonces (decodeResponse crates nonce ct sig).nonce = none

theorem hexOf_of_length {n : ℕ} {field : String} (h : ((crates.hex.decode field).getD []).length = n + 1) :
    HexOf crates (n + 1) field := by
  cases hd : crates.hex.decode field with
  | none => rw [hd] at h; cases h
  | some bytes => exact ⟨bytes,hd,by rwa [hd] at h⟩

/-- Completion checks the lengths of what it reads, and no default has them. -/
theorem Transition.completed_hexOf {s s' : ServerInner} {env : Env} {req : EnrollCompleteRequest} {reply : Reply}
    (ht : Transition crates s env (.enrollComplete req) reply s') :
    (HexOf crates Kyber.ciphertextSize req.ciphertext ∧
        HexOf crates Dilithium.publicKeySize req.dilithiumPublicKey) ∨
      ((∃ e, reply = .error e) ∧ s'.users = s.users) := by
  cases ht
  case enrolled enrollment record _ hc =>
    obtain ⟨hct,hpk,_⟩ := Enrollment.complete_ok hc
    exact Or.inl ⟨hexOf_of_length hct,hexOf_of_length hpk⟩
  all_goals exact Or.inr ⟨⟨_,rfl⟩,rfl⟩

theorem Misnamed.not_refused {s : ServerInner} {c : Call} (h : Misnamed crates s c.env c.request) :
    ¬ FieldsRefused crates s c := by
  obtain ⟨u,nonce,ct,sig,record,challenge,hreq,hu,hl,hp,hother,hacceptable,hunused⟩ := h
  intro hrefused
  have hnames : ¬ NamesPending crates s u nonce := by
    rintro ⟨challenge',hp',hnonce⟩
    obtain rfl : challenge = challenge' := Option.some.inj (hp.symm.trans hp')
    exact hother hnonce
  have ht := transition crates s c
  rw [hreq] at ht
  have hreply := (ht.deterministic (.answered hu hl hp rfl)).1
  rw [ChallengeVerifier.verify_of_acceptable hacceptable hunused] at hreply
  exact hrefused.verification u nonce ct sig hreq (Or.inr hnames) _ hreply

/-- In every reachable state a request with malformed or mismatching fields is
refused, unless the nonce field is all that is wrong with a response. -/
theorem fields_refused_iff (hempty : ∀ publicKey message,
      Dilithium.verifyDetached crates.dilithium3 publicKey message [] ≠ .ok ()) (serverId : String)
    (calls : List Call) (c : Call) :
    FieldsRefused crates (final crates serverId calls) c ↔
      ¬ Misnamed crates (final crates serverId calls) c.env c.request := by
  constructor
  · exact fun hrefused hmisnamed => hmisnamed.not_refused hrefused
  · intro hnot
    have ht := transition crates (final crates serverId calls) c
    constructor
    · intro req hreq hfields
      rw [hreq] at ht
      exact ht.completed_hexOf.resolve_left hfields
    · intro u nonce ct sig hreq hfields message hreply
      rw [hreq, hreply] at ht
      obtain ⟨record,challenge,hu,hl,hp,hacceptable,hunused⟩ := ht.accepted_inv
      rcases hfields with hsig | hnames
      -- a malformed signature is read as the empty one
      · apply hempty record.dilithiumPublicKey (challenge.signingPayload ct)
        simpa [decodeResponse, hsig] using hacceptable.2.2
      · have hother : crates.hex.decode nonce ≠ some challenge.nonce.val := fun h => hnames ⟨challenge,hp,h⟩
        exact hnot ⟨u,nonce,ct,sig,record,challenge,hreq,hu,hl,hp,hother,hacceptable,hunused⟩

section
open Transparent

theorem empty_signature_rejected (publicKey message : Bytes) :
    Dilithium.verifyDetached dilithium3 publicKey message [] ≠ .ok () := by
  have hnone : dilithium3.signature.fromBytes [] = none := rfl
  rw [Dilithium.verifyDetached, hnone]
  cases dilithium3.publicKey.fromBytes publicKey <;> simp

/-- Neither the nonce nor the signature is hex. -/
def unreadableAnswer : Call := ⟨sampleEnv 2003 [] (sampleNonce 0),.verify ⟨"alice",.challenge "" 2003 "zz"⟩⟩

/-- What is read as the empty signature verifies nothing. -/
theorem fields_refused_unreadable :
    (step Transparent.crates (final Transparent.crates "example.org" sampleIssued) unreadableAnswer).1 ≠
      .ok (.verify ⟨true,"Challenge-response verified"⟩) := by
  have hunread : Transparent.crates.hex.decode "zz" = none := by decide +kernel
  have hrefused : FieldsRefused Transparent.crates (final Transparent.crates "example.org" sampleIssued)
      unreadableAnswer := by
    apply (fields_refused_iff empty_signature_rejected "example.org" sampleIssued _).mpr
    rintro ⟨u,nonce,ct,sig,record,challenge,hreq,_,_,_,_,hacceptable,_⟩
    simp only [unreadableAnswer, Request.verify.injEq, VerifyRequest.mk.injEq, VerifyMethod.challenge.injEq] at hreq
    obtain ⟨rfl,rfl,rfl,rfl⟩ := hreq
    have hverified := hacceptable.2.2
    simp only [decodeResponse, hunread] at hverified
    exact empty_signature_rejected _ _ hverified
  exact hrefused.verification "alice" "" 2003 "zz" rfl (Or.inl hunread) _

/-- The holder's signature with an empty nonce field. -/
def unnamedAnswer : Call :=
  ⟨sampleEnv 2003 [] (sampleNonce 0),
    .verify ⟨"alice",.challenge "" 2003 (hex.encode (respond ⟨sampleNonce 1,2000⟩ (sampleNonce 0) 2003).signature)⟩⟩

theorem empty_nonce_accepted : ¬ FieldsRefused Transparent.crates
    (final Transparent.crates "example.org" sampleIssued) unnamedAnswer := by
  have hdecode : decodeResponse Transparent.crates "" 2003
      (hex.encode (respond ⟨sampleNonce 1,2000⟩ (sampleNonce 0) 2003).signature) =
        respond ⟨sampleNonce 1,2000⟩ (sampleNonce 0) 2003 := by
    rw [decodeResponse, Transparent.crates, hex_roundTrip]
    rfl
  apply Misnamed.not_refused
  refine ⟨"alice",_,_,_,sampleRecord,_,rfl,sampleIssued_users,?_,sampleIssued_pending,by decide,?_,?_⟩
  · rw [final_sampleIssued]
    decide +kernel
  · rw [hdecode, final_sampleIssued]
    exact acceptable_respond (by decide) (by decide) _
  · rw [hdecode, final_sampleIssued]
    rfl

end
end PqAuth.PqAuthServer
