import PqAuth.Foundation.PartialMap
import PqAuth.Source.Dilithium

/-! `challenge.rs`: challenge-response authentication with replay prevention. -/
namespace PqAuth
open Words

/-- Challenge validity window in seconds. -/
def challengeValiditySecs : UInt64 := 300

inductive ChallengeError where
  | expired
  | replay
  | signatureFailed (e : DilithiumError)
  | timestampOutOfRange
  deriving DecidableEq, Repr

def ChallengeError.toString : ChallengeError → String
  | .expired => "challenge expired"
  | .replay => "challenge already used (replay attack)"
  | .signatureFailed e => "signature verification failed: " ++ e.toString
  | .timestampOutOfRange => "timestamp out of range"

/-- A 32-byte nonce. -/
abbrev Nonce := {bytes : Bytes // bytes.length = 32}

/-- Conversion to a fixed array; any other length becomes the zero nonce. -/
def Nonce.ofBytes (bytes : Bytes) : Nonce :=
  if h : bytes.length = 32 then ⟨bytes,h⟩ else ⟨List.replicate 32 0,List.length_replicate⟩

@[simp] theorem Nonce.ofBytes_val (n : Nonce) : Nonce.ofBytes n.val = n := by
  simp [Nonce.ofBytes, n.property]

/-- A challenge issued by the server. -/
structure Challenge where
  nonce : Nonce
  issuedAt : UInt64
  deriving DecidableEq, Repr

/-- A client's response to a challenge. -/
structure ChallengeResponse where
  nonce : Nonce
  clientTimestamp : UInt64
  signature : Bytes
  deriving DecidableEq, Repr

namespace Challenge

/-- The message to be signed: nonce, then the client's timestamp. -/
def signingPayload (challenge : Challenge) (clientTimestamp : UInt64) : Bytes :=
  challenge.nonce.val ++ toBeBytes clientTimestamp

def isExpired (challenge : Challenge) (currentTimestamp : UInt64) : Bool :=
  saturatingSub currentTimestamp challenge.issuedAt > challengeValiditySecs

theorem isExpired_iff (challenge : Challenge) (now : UInt64) :
    challenge.isExpired now = true ↔ challenge.issuedAt.toNat + 300 < now.toNat := by
  simp only [isExpired, gt_iff_lt, decide_eq_true_eq, UInt64.lt_iff_toNat_lt, toNat_saturatingSub]
  change 300 < _ ↔ _
  omega

theorem isExpired_eq_false (challenge : Challenge) (now : UInt64) :
    challenge.isExpired now = false ↔ now.toNat ≤ challenge.issuedAt.toNat + 300 := by
  rw [← Bool.not_eq_true, isExpired_iff, not_lt]

end Challenge

/-- Client-side: sign a challenge. -/
def respondToChallenge (dilithium : Dilithium3) (keypair : DilithiumKeypair) (challenge : Challenge)
    (clientTimestamp : UInt64) (coins : Bytes) : Except DilithiumError ChallengeResponse :=
  match Dilithium.sign dilithium keypair (challenge.signingPayload clientTimestamp) coins with
  | .error e => .error e
  | .ok signature => .ok ⟨challenge.nonce,clientTimestamp,signature⟩

/-- Server-side verifier with replay prevention: consumed nonces with the issue
time of their challenge. -/
structure ChallengeVerifier where
  usedNonces : PartialMap Nonce UInt64
  maxClockSkew : UInt64

namespace ChallengeVerifier

def new (maxClockSkew : UInt64) : ChallengeVerifier := ⟨PartialMap.empty,maxClockSkew⟩

/-- Issue times at or before the horizon are forgotten. -/
def horizon (maxClockSkew currentTimestamp : UInt64) : UInt64 :=
  saturatingSub (saturatingSub currentTimestamp challengeValiditySecs) maxClockSkew

def clearExpired (verifier : ChallengeVerifier) (currentTimestamp : UInt64) : ChallengeVerifier :=
  { verifier with
    usedNonces := verifier.usedNonces.retain
      (fun _ issuedAt => issuedAt > horizon verifier.maxClockSkew currentTimestamp) }

/-- Verify a challenge response. -/
def verify (dilithium : Dilithium3) (verifier : ChallengeVerifier) (challenge : Challenge)
    (response : ChallengeResponse) (publicKey : Bytes) (currentTimestamp : UInt64) :
    Except ChallengeError Unit × ChallengeVerifier :=
  let verifier := verifier.clearExpired currentTimestamp
  if challenge.isExpired currentTimestamp then (.error .expired,verifier)
  else if verifier.usedNonces.containsKey response.nonce then (.error .replay,verifier)
  else if absDiff response.clientTimestamp currentTimestamp > verifier.maxClockSkew then
    (.error .timestampOutOfRange,verifier)
  else
    match Dilithium.verifyDetached dilithium publicKey
        (challenge.signingPayload response.clientTimestamp) response.signature with
    | .error e => (.error (.signatureFailed e),verifier)
    | .ok () =>
      (.ok (),{ verifier with usedNonces := verifier.usedNonces.insert response.nonce challenge.issuedAt })

/-- The checks that depend on the request alone: all but the nonce lookup. -/
def Acceptable (dilithium : Dilithium3) (maxClockSkew : UInt64) (challenge : Challenge)
    (response : ChallengeResponse) (publicKey : Bytes) (now : UInt64) : Prop :=
  challenge.isExpired now = false ∧ absDiff response.clientTimestamp now ≤ maxClockSkew ∧
    Dilithium.verifyDetached dilithium publicKey (challenge.signingPayload response.clientTimestamp)
      response.signature = .ok ()

instance (dilithium : Dilithium3) (maxClockSkew : UInt64) (challenge : Challenge) (response : ChallengeResponse)
    (publicKey : Bytes) (now : UInt64) :
    Decidable (Acceptable dilithium maxClockSkew challenge response publicKey now) :=
  inferInstanceAs (Decidable (_ ∧ _ ∧ _ = _))

theorem toNat_horizon (skew now : UInt64) :
    (horizon skew now).toNat = now.toNat - 300 - skew.toNat := by
  simp only [horizon, toNat_saturatingSub]
  rfl

theorem horizon_mono (skew : UInt64) {now later : UInt64} (h : now ≤ later) :
    horizon skew now ≤ horizon skew later := by
  simp only [UInt64.le_iff_toNat_le, toNat_horizon] at h ⊢
  omega

@[simp] theorem clearExpired_maxClockSkew (v : ChallengeVerifier) (now : UInt64) :
    (v.clearExpired now).maxClockSkew = v.maxClockSkew := rfl

theorem clearExpired_eq_some (v : ChallengeVerifier) (now : UInt64) (n : Nonce) (t : UInt64) :
    (v.clearExpired now).usedNonces n = some t ↔
      v.usedNonces n = some t ∧ horizon v.maxClockSkew now < t := by
  simp [clearExpired, PartialMap.retain_eq_some]

theorem clearExpired_eq_none (v : ChallengeVerifier) (now : UInt64) {n : Nonce}
    (h : v.usedNonces n = none) : (v.clearExpired now).usedNonces n = none := by
  simp [clearExpired, PartialMap.retain_apply, h]

variable {dilithium : Dilithium3}

/-- A response is accepted exactly when it passes its own checks and its nonce
survives neither earlier use nor pruning; only then is the nonce recorded. -/
theorem verify_cases (v : ChallengeVerifier) (c : Challenge) (r : ChallengeResponse) (pk : Bytes)
    (now : UInt64) :
    (Acceptable dilithium v.maxClockSkew c r pk now ∧ (v.clearExpired now).usedNonces r.nonce = none ∧
      verify dilithium v c r pk now = (.ok (),{ v.clearExpired now with
        usedNonces := (v.clearExpired now).usedNonces.insert r.nonce c.issuedAt })) ∨
    (¬ (Acceptable dilithium v.maxClockSkew c r pk now ∧
        (v.clearExpired now).usedNonces r.nonce = none) ∧
      ∃ e, verify dilithium v c r pk now = (.error e,v.clearExpired now)) := by
  by_cases hx : c.isExpired now = true
  · exact Or.inr ⟨fun h => by simp [Acceptable, hx] at h,.expired,by simp [verify, hx]⟩
  by_cases hu : (v.clearExpired now).usedNonces r.nonce = none
  · by_cases hk : v.maxClockSkew < absDiff r.clientTimestamp now
    · refine Or.inr ⟨fun h => absurd h.1.2.1 (by simpa using hk),.timestampOutOfRange,?_⟩
      simp [verify, hx, PartialMap.containsKey, hu, hk]
    · cases hs : Dilithium.verifyDetached dilithium pk (c.signingPayload r.clientTimestamp) r.signature with
      | error e =>
        refine Or.inr ⟨fun h => by simp [Acceptable, hs] at h,.signatureFailed e,?_⟩
        simp [verify, hx, PartialMap.containsKey, hu, hk, hs]
      | ok _ =>
        refine Or.inl ⟨⟨by simpa using hx,by simpa using hk,hs⟩,hu,?_⟩
        simp [verify, hx, PartialMap.containsKey, hu, hk, hs]
  · refine Or.inr ⟨fun h => hu h.2,.replay,?_⟩
    simp [verify, hx, PartialMap.containsKey, Option.isSome_iff_ne_none.mpr hu]

theorem verify_of_acceptable {v : ChallengeVerifier} {c : Challenge} {r : ChallengeResponse} {pk : Bytes}
    {now : UInt64} (ha : Acceptable dilithium v.maxClockSkew c r pk now)
    (hu : (v.clearExpired now).usedNonces r.nonce = none) :
    verify dilithium v c r pk now = (.ok (),{ v.clearExpired now with
      usedNonces := (v.clearExpired now).usedNonces.insert r.nonce c.issuedAt }) := by
  rcases @verify_cases dilithium v c r pk now with ⟨_,_,he⟩ | ⟨hn,_⟩
  · exact he
  · exact absurd ⟨ha,hu⟩ hn

theorem verify_eq_ok_iff (v : ChallengeVerifier) (c : Challenge) (r : ChallengeResponse) (pk : Bytes)
    (now : UInt64) :
    (verify dilithium v c r pk now).1 = .ok () ↔
      Acceptable dilithium v.maxClockSkew c r pk now ∧ (v.clearExpired now).usedNonces r.nonce = none := by
  rcases @verify_cases dilithium v c r pk now with ⟨ha,hu,he⟩ | ⟨hn,e,he⟩
  · simp [he, ha, hu]
  · simpa [he] using hn

@[simp] theorem verify_maxClockSkew (v : ChallengeVerifier) (c : Challenge) (r : ChallengeResponse)
    (pk : Bytes) (now : UInt64) : (verify dilithium v c r pk now).2.maxClockSkew = v.maxClockSkew := by
  rcases @verify_cases dilithium v c r pk now with ⟨_,_,he⟩ | ⟨_,e,he⟩ <;> rw [he] <;> rfl

/-- Used nonces after a verification: those before, or the one presented. -/
theorem verify_usedNonces {v : ChallengeVerifier} {c : Challenge} {r : ChallengeResponse} {pk : Bytes}
    {now : UInt64} {n : Nonce} (h : (verify dilithium v c r pk now).2.usedNonces n ≠ none) :
    n = r.nonce ∨ v.usedNonces n ≠ none := by
  by_contra hne
  obtain ⟨hn,hv⟩ := not_or.mp hne
  have hcleared := clearExpired_eq_none v now (not_not.mp hv)
  rcases @verify_cases dilithium v c r pk now with ⟨_,_,he⟩ | ⟨_,e,he⟩
  · rw [he] at h
    exact h ((PartialMap.insert_of_ne _ hn _).trans hcleared)
  · rw [he] at h
    exact h hcleared

/-- A verification that does not accept a nonce leaves it unused. -/
theorem verify_unused {v : ChallengeVerifier} {c : Challenge} {r : ChallengeResponse} {pk : Bytes} {now : UInt64}
    {n : Nonce} (hn : n = r.nonce → ¬ Acceptable dilithium v.maxClockSkew c r pk now) (hv : v.usedNonces n = none) :
    (verify dilithium v c r pk now).2.usedNonces n = none := by
  have hcleared := clearExpired_eq_none v now hv
  rcases @verify_cases dilithium v c r pk now with ⟨ha,_,he⟩ | ⟨_,e,he⟩
  · have hne : n ≠ r.nonce := fun heq => hn heq ha
    rw [he]
    exact (PartialMap.insert_of_ne _ hne _).trans hcleared
  · rw [he]
    exact hcleared

/-- An honest response passes every check that depends on the request alone. -/
theorem acceptable_respondToChallenge (he : dilithium.Encodings) (hc : dilithium.Correct)
    {seed coins : Bytes} {c : Challenge} {clientTime now skew : UInt64} {r : ChallengeResponse}
    (hr : respondToChallenge dilithium (Dilithium.generate dilithium seed) c clientTime coins = .ok r)
    (hx : c.isExpired now = false) (hk : absDiff clientTime now ≤ skew) :
    r.nonce = c.nonce ∧ r.clientTimestamp = clientTime ∧
      Acceptable dilithium skew c r (Dilithium.generate dilithium seed).publicKey now := by
  unfold respondToChallenge at hr
  split at hr
  · cases hr
  · rename_i signature hsig
    obtain rfl := Except.ok.inj hr
    exact ⟨rfl,rfl,hx,hk,Dilithium.verifyDetached_sign he hc hsig⟩

end ChallengeVerifier
end PqAuth
