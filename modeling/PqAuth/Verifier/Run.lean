import PqAuth.Foundation.Machine
import PqAuth.Source.Challenge

/-! Runs of the verifier on its own. A verifier is determined by when it forgets
a nonce; what it remembers is then a function of the calls it received. -/
namespace PqAuth
open Words

/-- A call of one of the two mutating methods. -/
inductive VerifierCall where
  | verify (challenge : Challenge) (response : ChallengeResponse) (publicKey : Bytes) (now : UInt64)
  | clearExpired (now : UInt64)
  deriving DecidableEq, Repr

abbrev Verdict := Option (Except ChallengeError Unit)

namespace VerifierCall

def now : VerifierCall → UInt64
  | .verify _ _ _ now => now
  | .clearExpired now => now

def challenge : VerifierCall → Option Challenge
  | .verify challenge _ _ _ => some challenge
  | .clearExpired _ => none

def response : VerifierCall → Option ChallengeResponse
  | .verify _ response _ _ => some response
  | .clearExpired _ => none

/-- A verification of the challenge that only its nonce can still stop. -/
def Presents (dilithium : Dilithium3) (skew : UInt64) (challenge : Challenge) : VerifierCall → Prop
  | .verify c r pk now => c = challenge ∧ ChallengeVerifier.Acceptable dilithium skew c r pk now
  | .clearExpired _ => False

instance (dilithium : Dilithium3) (skew : UInt64) (challenge : Challenge) (call : VerifierCall) :
    Decidable (Presents dilithium skew challenge call) :=
  match call with
  | .verify .. => inferInstanceAs (Decidable (_ ∧ _))
  | .clearExpired _ => inferInstanceAs (Decidable False)

theorem Presents.challenge_eq {dilithium : Dilithium3} {skew : UInt64} {c : Challenge} {call : VerifierCall}
    (h : Presents dilithium skew c call) : call.challenge = some c := by
  cases call with
  | verify => exact congrArg some h.1
  | clearExpired => exact h.elim

/-- Timestamps never decrease. -/
def NonDecreasing (calls : List VerifierCall) : Prop := (calls.map now).Pairwise (· ≤ ·)

/-- Every nonce belongs to one challenge. -/
def NonceDetermines (calls : List VerifierCall) : Prop :=
  ∀ call ∈ calls, ∀ call' ∈ calls, ∀ c ∈ call.challenge, ∀ c' ∈ call'.challenge, c.nonce = c'.nonce → c = c'

/-- Every response carries the nonce of its challenge. -/
def OwnNonces (calls : List VerifierCall) : Prop :=
  ∀ call ∈ calls, ∀ c ∈ call.challenge, ∀ r ∈ call.response, r.nonce = c.nonce

instance (calls : List VerifierCall) : Decidable (NonDecreasing calls) :=
  inferInstanceAs (Decidable (List.Pairwise _ _))

theorem NonDecreasing.le_at {calls : List VerifierCall} (h : NonDecreasing calls) {i j : ℕ}
    {a b : VerifierCall} (hij : i < j) (ha : calls[i]? = some a) (hb : calls[j]? = some b) : a.now ≤ b.now := by
  obtain ⟨hi,rfl⟩ := List.getElem?_eq_some_iff.mp ha
  obtain ⟨hj,rfl⟩ := List.getElem?_eq_some_iff.mp hb
  exact List.pairwise_iff_getElem.mp (List.pairwise_map.mp h) i j hi hj hij

theorem nonceDetermines_single {calls : List VerifierCall} (challenge : Challenge)
    (h : ∀ call ∈ calls, ∀ c ∈ call.challenge, c = challenge) : NonceDetermines calls := by
  intro a ha b hb c hc d hd _
  rw [h a ha c hc, h b hb d hd]

end VerifierCall

namespace ChallengeVerifier
variable (dilithium : Dilithium3)

def step (v : ChallengeVerifier) : VerifierCall → Verdict × ChallengeVerifier
  | .verify c r pk now =>
    let (result,v) := verify dilithium v c r pk now
    (some result,v)
  | .clearExpired now => (none,v.clearExpired now)

theorem step_verify (v : ChallengeVerifier) (c : Challenge) (r : ChallengeResponse) (pk : Bytes)
    (now : UInt64) :
    step dilithium v (.verify c r pk now) =
      (some (verify dilithium v c r pk now).1,(verify dilithium v c r pk now).2) := rfl

/-- `verify` after its pruning step. -/
def verifyKept (v : ChallengeVerifier) (c : Challenge) (r : ChallengeResponse) (pk : Bytes) (now : UInt64) :
    Except ChallengeError Unit × ChallengeVerifier :=
  if c.isExpired now then (.error .expired,v)
  else if v.usedNonces.containsKey r.nonce then (.error .replay,v)
  else if absDiff r.clientTimestamp now > v.maxClockSkew then (.error .timestampOutOfRange,v)
  else
    match Dilithium.verifyDetached dilithium pk (c.signingPayload r.clientTimestamp) r.signature with
    | .error e => (.error (.signatureFailed e),v)
    | .ok () => (.ok (),{ v with usedNonces := v.usedNonces.insert r.nonce c.issuedAt })

/-- Whether to keep an issue time, given the skew and the time of the call. -/
abbrev Policy := UInt64 → UInt64 → UInt64 → Bool

/-- The policy of `clear_expired`. -/
def beyondHorizon : Policy := fun skew now issuedAt => issuedAt > horizon skew now

def kept (keep : Policy) (v : ChallengeVerifier) (now : UInt64) : ChallengeVerifier :=
  { v with usedNonces := v.usedNonces.retain (fun _ issuedAt => keep v.maxClockSkew now issuedAt) }

/-- A verifier that forgets by the given policy at the start of every call. -/
def stepWith (keep : Policy) (v : ChallengeVerifier) : VerifierCall → Verdict × ChallengeVerifier
  | .verify c r pk now =>
    let (result,v) := verifyKept dilithium (kept keep v now) c r pk now
    (some result,v)
  | .clearExpired now => (none,kept keep v now)

theorem kept_eq_some (keep : Policy) (v : ChallengeVerifier) (now : UInt64) (n : Nonce) (t : UInt64) :
    (kept keep v now).usedNonces n = some t ↔ v.usedNonces n = some t ∧ keep v.maxClockSkew now t = true := by
  rw [kept, PartialMap.retain_eq_some]

theorem step_eq : step dilithium = stepWith dilithium beyondHorizon := by
  funext v call
  cases call <;> rfl

/-- The answer as a function of the request and of whether its nonce is remembered. -/
def verdict (skew : UInt64) (c : Challenge) (r : ChallengeResponse) (pk : Bytes) (now : UInt64)
    (remembered : Bool) : Except ChallengeError Unit :=
  if c.isExpired now then .error .expired
  else if remembered then .error .replay
  else if absDiff r.clientTimestamp now > skew then .error .timestampOutOfRange
  else (Dilithium.verifyDetached dilithium pk (c.signingPayload r.clientTimestamp) r.signature).mapError
    .signatureFailed

variable {dilithium}

theorem verifyKept_eq (v : ChallengeVerifier) (c : Challenge) (r : ChallengeResponse) (pk : Bytes)
    (now : UInt64) :
    verifyKept dilithium v c r pk now =
      (verdict dilithium v.maxClockSkew c r pk now (v.usedNonces.containsKey r.nonce),
        if verdict dilithium v.maxClockSkew c r pk now (v.usedNonces.containsKey r.nonce) = .ok () then
          { v with usedNonces := v.usedNonces.insert r.nonce c.issuedAt } else v) := by
  unfold verifyKept verdict
  split
  · rfl
  · split
    · rfl
    · split
      · rfl
      · cases Dilithium.verifyDetached dilithium pk (c.signingPayload r.clientTimestamp) r.signature <;> rfl

theorem verdict_eq_ok (skew : UInt64) (c : Challenge) (r : ChallengeResponse) (pk : Bytes) (now : UInt64)
    (remembered : Bool) :
    verdict dilithium skew c r pk now remembered = .ok () ↔
      Acceptable dilithium skew c r pk now ∧ remembered = false := by
  unfold verdict Acceptable
  cases c.isExpired now <;> cases remembered <;> simp
  split
  · rename_i h
    simp [UInt64.not_le.mpr h]
  · rename_i h
    cases Dilithium.verifyDetached dilithium pk (c.signingPayload r.clientTimestamp) r.signature <;>
      simp [UInt64.not_lt.mp h, Except.mapError]

/-- Remembering is visible exactly on challenges that have not expired. -/
theorem verdict_eq_iff (skew : UInt64) (c : Challenge) (r : ChallengeResponse) (pk : Bytes) (now : UInt64)
    (a b : Bool) :
    verdict dilithium skew c r pk now a = verdict dilithium skew c r pk now b ↔
      c.isExpired now = true ∨ a = b := by
  have hne : c.isExpired now = false →
      verdict dilithium skew c r pk now true ≠ verdict dilithium skew c r pk now false := by
    intro hx
    unfold verdict
    simp only [hx, Bool.false_eq_true, if_false, if_true]
    split
    · simp
    · cases Dilithium.verifyDetached dilithium pk (c.signingPayload r.clientTimestamp) r.signature <;>
        simp [Except.mapError]
  cases hx : c.isExpired now with
  | true => simp [verdict, hx]
  | false => cases a <;> cases b <;> simp [hne hx, (hne hx).symm]

end ChallengeVerifier
end PqAuth
