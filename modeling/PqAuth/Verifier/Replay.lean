import PqAuth.Source.Transparent
import PqAuth.Verifier.Run

/-! Replay prevention. The verifier looks up the nonce the response carries, not
the nonce of the challenge it signs, so only own nonces are protected. -/
namespace PqAuth.ChallengeVerifier
open VerifierCall
variable {dilithium : Dilithium3}

abbrev Event := Machine.Event ChallengeVerifier VerifierCall Verdict

/-- A verification of the challenge with this nonce that returned `Ok`. -/
def acceptsFor (n : Nonce) (e : Event) : Bool :=
  e.input.challenge.any (fun c => c.nonce = n) && e.output = some (.ok ())

theorem acceptsFor_iff (n : Nonce) (e : Event) :
    acceptsFor n e = true ↔ ∃ c, e.input.challenge = some c ∧ c.nonce = n ∧ e.output = some (.ok ()) := by
  simp only [acceptsFor, Bool.and_eq_true, Option.any_eq_true, decide_eq_true_eq]
  exact ⟨fun ⟨⟨c,hc,hn⟩,ho⟩ => ⟨c,hc,hn,ho⟩,fun ⟨c,hc,hn,ho⟩ => ⟨⟨c,hc,hn⟩,ho⟩⟩

theorem acceptsFor_event {v : ChallengeVerifier} {call : VerifierCall} {c : Challenge}
    (hc : call.challenge = some c) (h : (step dilithium v call).1 = some (.ok ())) :
    acceptsFor c.nonce (Machine.event (step dilithium) v call) = true :=
  (acceptsFor_iff ..).mpr ⟨c,hc,rfl,h⟩

/-- What a call that returned `Ok` passed, and the entry it left. -/
theorem accepted_inv {v v' : ChallengeVerifier} {call : VerifierCall}
    (h : step dilithium v call = (some (.ok ()),v')) :
    ∃ c r, call.challenge = some c ∧ call.response = some r ∧
      call.Presents dilithium v.maxClockSkew c ∧ c.isExpired call.now = false ∧
      (v.clearExpired call.now).usedNonces r.nonce = none ∧ v'.usedNonces r.nonce = some c.issuedAt := by
  cases call with
  | clearExpired => cases h
  | verify c r pk now =>
    rw [step_verify] at h
    rcases @verify_cases dilithium v c r pk now with ⟨ha,hu,he⟩ | ⟨_,e,he⟩
    · rw [he] at h
      obtain rfl := (Prod.mk.inj h).2
      exact ⟨c,r,rfl,rfl,⟨rfl,ha⟩,ha.1,hu,PartialMap.insert_self ..⟩
    · rw [he] at h
      cases h

/-- An entry outlives every call made before its issue time meets the horizon. -/
theorem entry_kept {v : ChallengeVerifier} {call : VerifierCall} {n : Nonce} {t later : UInt64}
    (hle : call.now ≤ later) (hlive : horizon v.maxClockSkew later < t) (hn : v.usedNonces n = some t) :
    (step dilithium v call).2.usedNonces n = some t := by
  have hcleared : (v.clearExpired call.now).usedNonces n = some t :=
    (clearExpired_eq_some ..).mpr ⟨hn,UInt64.lt_of_le_of_lt (horizon_mono _ hle) hlive⟩
  cases call with
  | clearExpired => exact hcleared
  | verify c r pk now =>
    change (verify dilithium v c r pk now).2.usedNonces n = some t
    rcases @verify_cases dilithium v c r pk now with ⟨_,hu,he⟩ | ⟨_,e,he⟩
    · have hne : n ≠ r.nonce := by
        rintro rfl
        exact absurd (hcleared.symm.trans hu) (by simp)
      rw [he]
      exact (PartialMap.insert_of_ne _ hne _).trans hcleared
    · rw [he]
      exact hcleared

@[simp] theorem step_maxClockSkew (v : ChallengeVerifier) (call : VerifierCall) :
    (step dilithium v call).2.maxClockSkew = v.maxClockSkew := by
  cases call with
  | clearExpired => rfl
  | verify c r pk now => exact verify_maxClockSkew ..

/-- An unexpired challenge lies beyond the horizon. -/
theorem horizon_lt {skew : UInt64} (hskew : 1 ≤ skew) {c : Challenge} (hc : 1 ≤ c.issuedAt) {now : UInt64}
    (hx : c.isExpired now = false) : horizon skew now < c.issuedAt := by
  rw [Challenge.isExpired_eq_false] at hx
  rw [UInt64.le_iff_toNat_le] at hskew hc
  rw [UInt64.lt_iff_toNat_lt, toNat_horizon]
  have h1 : (1 : UInt64).toNat = 1 := rfl
  omega

/-- Two verifications that pass all but the nonce lookup, both carrying the
nonce of their challenge. -/
def CarryNonce (dilithium : Dilithium3) (skew : UInt64) (n : Nonce) (calls : List VerifierCall) : Prop :=
  calls.Pairwise fun earlier later =>
    ∀ c, c.nonce = n → earlier.Presents dilithium skew c → later.Presents dilithium skew c →
      (∀ r ∈ earlier.response, r.nonce = n) ∧ ∀ r ∈ later.response, r.nonce = n

variable {skew : UInt64} {calls : List VerifierCall}

private theorem skew_at {k : ℕ} {e : Event}
    (h : (Machine.history (step dilithium) (new skew) calls)[k]? = some e) : e.before.maxClockSkew = skew :=
  Machine.invariant_at (I := fun v => v.maxClockSkew = skew)
    (fun v call h => (step_maxClockSkew v call).trans h) rfl h

/-- An accepted own nonce is still remembered whenever its challenge is unexpired. -/
theorem remembered_until_expiry (hskew : 1 ≤ skew) (hmono : NonDecreasing calls) {i j : ℕ} {e f : Event}
    (hij : i < j) (he : (Machine.history (step dilithium) (new skew) calls)[i]? = some e)
    (hf : (Machine.history (step dilithium) (new skew) calls)[j]? = some f) {c : Challenge}
    (hpos : 1 ≤ c.issuedAt) (hx : c.isExpired f.input.now = false) {n : Nonce}
    (hentry : e.after.usedNonces n = some c.issuedAt) :
    (f.before.clearExpired f.input.now).usedNonces n = some c.issuedAt := by
  have hlive := horizon_lt hskew hpos hx
  have hkept : f.before.usedNonces n = some c.issuedAt := by
    refine Machine.carried (Q := fun v => v.usedNonces n = some c.issuedAt) hij he hf hentry ?_
    intro m g _ hmj hg hq
    have hstep := Machine.step_at hg
    have hkeep : (step dilithium g.before g.input).2.usedNonces n = some c.issuedAt := by
      apply entry_kept (hmono.le_at hmj (Machine.input_at hg) (Machine.input_at hf)) _ hq
      rwa [skew_at hg]
    rwa [hstep] at hkeep
  rw [clearExpired_eq_some, skew_at hf]
  exact ⟨hkept,hlive⟩

private theorem accepted_once_lt (hskew : 1 ≤ skew) (hmono : NonDecreasing calls)
    (hone : NonceDetermines calls) (hpos : ∀ call ∈ calls, ∀ c ∈ call.challenge, 1 ≤ c.issuedAt) {n : Nonce}
    (hcarry : CarryNonce dilithium skew n calls) {i j : ℕ} {e f : Event} (hij : i < j)
    (he : (Machine.history (step dilithium) (new skew) calls)[i]? = some e)
    (hf : (Machine.history (step dilithium) (new skew) calls)[j]? = some f)
    (hae : acceptsFor n e = true) : ¬ acceptsFor n f = true := by
  intro haf
  obtain ⟨c,hc,hcn,hfo⟩ := (acceptsFor_iff n f).mp haf
  obtain ⟨d,hd,hdn,heo⟩ := (acceptsFor_iff n e).mp hae
  have hes := Machine.step_at he
  have hfs := Machine.step_at hf
  rw [heo] at hes
  rw [hfo] at hfs
  obtain ⟨d',r,hd',hr,hpd,_,_,hentry⟩ := accepted_inv hes
  obtain ⟨c',r',hc',hr',hpc,hx,hfresh,_⟩ := accepted_inv hfs
  obtain rfl : d = d' := Option.some.inj (hd.symm.trans hd')
  obtain rfl : c = c' := Option.some.inj (hc.symm.trans hc')
  obtain ⟨hi,hie⟩ := List.getElem?_eq_some_iff.mp (Machine.input_at he)
  obtain ⟨hj,hjf⟩ := List.getElem?_eq_some_iff.mp (Machine.input_at hf)
  have hme : e.input ∈ calls := hie ▸ List.getElem_mem hi
  have hmf : f.input ∈ calls := hjf ▸ List.getElem_mem hj
  obtain rfl : d = c := hone _ hme _ hmf d hd c hc (hdn.trans hcn.symm)
  have hpair := List.pairwise_iff_getElem.mp hcarry i j hi hj hij
  rw [hie, hjf] at hpair
  rw [skew_at he] at hpd
  rw [skew_at hf] at hpc
  obtain ⟨hown,hown'⟩ := hpair d hdn hpd hpc
  -- both calls look up the one nonce that the first of them recorded
  rw [hown r hr] at hentry
  rw [hown' r' hr'] at hfresh
  exact absurd ((remembered_until_expiry hskew hmono hij he hf (hpos _ hmf d hc) hx hentry).symm.trans hfresh)
    (by simp)

/-- A challenge is accepted at most once when the responses that could be
accepted for it carry its nonce. -/
theorem accepted_at_most_once (dilithium : Dilithium3) {skew : UInt64} (hskew : 1 ≤ skew)
    {calls : List VerifierCall} (hmono : NonDecreasing calls) (hone : NonceDetermines calls)
    (hpos : ∀ call ∈ calls, ∀ c ∈ call.challenge, 1 ≤ c.issuedAt) {n : Nonce}
    (hcarry : CarryNonce dilithium skew n calls) :
    (Machine.history (step dilithium) (new skew) calls).countP (acceptsFor n) ≤ 1 :=
  Machine.countP_le_one fun _ _ _ _ hij he hf hae => accepted_once_lt hskew hmono hone hpos hcarry hij he hf hae

section
open Transparent

/-- A challenge issued at 1000. -/
def sampleChallenge : Challenge := ⟨Nonce.ofBytes (List.replicate 32 7),1000⟩

def otherNonce : Nonce := Nonce.ofBytes (List.replicate 32 8)

/-- What the holder signs for the sample challenge at `now`, sent with some nonce field. -/
def sampleCall (nonce : Nonce) (now : UInt64) : VerifierCall :=
  .verify sampleChallenge (respond sampleChallenge nonce now) keypair.publicKey now

/-- Two responses to the challenge, signed at 1001 and at 1002, are not both
accepted when both carry its nonce. -/
theorem accepted_at_most_once_resent :
    (Machine.history (step dilithium3) (new 60)
      [sampleCall sampleChallenge.nonce 1001,sampleCall sampleChallenge.nonce 1002]).countP
        (acceptsFor sampleChallenge.nonce) ≤ 1 :=
  accepted_at_most_once dilithium3 (by decide) (by decide)
    (nonceDetermines_single sampleChallenge (by simp [sampleCall, challenge]))
    (by simp [sampleCall, challenge, sampleChallenge])
    (by simp [CarryNonce, sampleCall, response, respond])

/-- Both are accepted when the one signed at 1002 carries another nonce. -/
theorem tampered_nonce_replays :
    let calls := [sampleCall sampleChallenge.nonce 1001,sampleCall otherNonce 1002]
    NonDecreasing calls ∧ NonceDetermines calls ∧ (∀ call ∈ calls, ∀ c ∈ call.challenge, 1 ≤ c.issuedAt) ∧
      ¬ (Machine.history (step dilithium3) (new 60) calls).countP (acceptsFor sampleChallenge.nonce) ≤ 1 := by
  intro calls
  refine ⟨by decide,nonceDetermines_single sampleChallenge (by simp [calls, sampleCall, challenge]),
    by simp [calls, sampleCall, challenge, sampleChallenge],?_⟩
  have hne : otherNonce ≠ sampleChallenge.nonce := by decide
  have hfirst : verify dilithium3 (new 60) sampleChallenge (respond sampleChallenge sampleChallenge.nonce 1001)
      keypair.publicKey 1001 = (.ok (),_) :=
    verify_of_acceptable (acceptable_respond (by decide) (by decide) _) rfl
  let v := (step dilithium3 (new 60) (sampleCall sampleChallenge.nonce 1001)).2
  have hsecond : (step dilithium3 v (sampleCall otherNonce 1002)).1 = some (.ok ()) := by
    simp only [v, sampleCall, step_verify, hfirst]
    refine congrArg some ((verify_eq_ok_iff ..).mpr ⟨acceptable_respond (by decide) (by decide) _,?_⟩)
    exact clearExpired_eq_none _ _ (PartialMap.insert_of_ne _ hne 1000)
  have hout : (step dilithium3 (new 60) (sampleCall sampleChallenge.nonce 1001)).1 = some (.ok ()) := by
    rw [sampleCall, step_verify, hfirst]
  have ha := acceptsFor_event (c := sampleChallenge) rfl hout
  have hb := acceptsFor_event (c := sampleChallenge) rfl hsecond
  simp only [calls, Machine.history_cons, Machine.history_nil]
  rw [List.countP_cons_of_pos ha, List.countP_cons_of_pos hb]
  decide

end
end PqAuth.ChallengeVerifier
