import PqAuth.Verifier.Replay

/-! Pruning against a verifier that never forgets. With honest nonces either one
remembers exactly the challenges presented before, so the two can only disagree
on a challenge that pruning dropped while it was still valid. -/
namespace PqAuth

/-- The verifier without pruning: a consumed nonce is remembered forever. -/
def ChallengeVerifier.referenceStep (dilithium : Dilithium3) (v : ChallengeVerifier) :
    VerifierCall → Verdict × ChallengeVerifier
  | .verify c r pk now =>
    let (result,v) := verifyKept dilithium v c r pk now
    (some result,v)
  | .clearExpired _ => (none,v)

namespace VerifierCall

/-- Runs over honest nonces. -/
structure Proper (calls : List VerifierCall) : Prop where
  nonDecreasing : NonDecreasing calls
  ownNonces : OwnNonces calls
  determined : NonceDetermines calls

theorem Proper.sublist {calls all : List VerifierCall} (h : Proper all) (hs : calls.Sublist all) : Proper calls :=
  ⟨h.nonDecreasing.sublist (hs.map now),fun call hc => h.ownNonces call (hs.subset hc),
    fun call hc call' hc' => h.determined call (hs.subset hc) call' (hs.subset hc')⟩

end VerifierCall

namespace ChallengeVerifier
open VerifierCall
variable {dilithium : Dilithium3}

/-- The policy that keeps everything. -/
def forever : Policy := fun _ _ _ => true

theorem referenceStep_eq : referenceStep dilithium = stepWith dilithium forever := by
  funext v call
  have hk (now : UInt64) : kept forever v now = v := by
    have hm : v.usedNonces.retain (fun _ _ => true) = v.usedNonces := by
      funext n
      rw [PartialMap.retain_apply]
      cases v.usedNonces n <;> rfl
    change { v with usedNonces := v.usedNonces.retain (fun _ _ => true) } = v
    rw [hm]
  cases call with
  | verify c r pk now =>
    change _ = (_,_)
    rw [hk now]
    rfl
  | clearExpired now => exact congrArg (Prod.mk none) (hk now).symm

/-- Later calls keep less. -/
def Policy.Antitone (keep : Policy) : Prop :=
  ∀ skew now later issuedAt, now ≤ later → keep skew later issuedAt = true → keep skew now issuedAt = true

theorem beyondHorizon_antitone : Policy.Antitone beyondHorizon := by
  intro skew now later issuedAt hle hk
  simp only [beyondHorizon, gt_iff_lt, decide_eq_true_eq] at hk ⊢
  exact UInt64.lt_of_le_of_lt (horizon_mono skew hle) hk

theorem forever_antitone : Policy.Antitone forever := fun _ _ _ _ _ _ => rfl

variable {keep : Policy}

@[simp] theorem stepWith_maxClockSkew (v : ChallengeVerifier) (call : VerifierCall) :
    (stepWith dilithium keep v call).2.maxClockSkew = v.maxClockSkew := by
  cases call with
  | clearExpired => rfl
  | verify c r pk now =>
    simp only [stepWith, verifyKept_eq]
    split <;> rfl

theorem final_maxClockSkew (skew : UInt64) (calls : List VerifierCall) :
    (Machine.final (stepWith dilithium keep) (new skew) calls).maxClockSkew = skew :=
  Machine.final_invariant (I := fun v => v.maxClockSkew = skew)
    (fun v call h => (stepWith_maxClockSkew v call).trans h) rfl calls

/-- What one call adds to the entries its policy keeps. -/
theorem stepWith_eq_some (v : ChallengeVerifier) (call : VerifierCall) (hown : OwnNonces [call]) (n : Nonce)
    (t : UInt64) :
    (stepWith dilithium keep v call).2.usedNonces n = some t ↔
      (kept keep v call.now).usedNonces n = some t ∨
        ((kept keep v call.now).usedNonces n = none ∧ call.Presents dilithium v.maxClockSkew ⟨n,t⟩) := by
  cases call with
  | clearExpired now => simp [stepWith, Presents, VerifierCall.now]
  | verify c r pk now =>
    have hrn : r.nonce = c.nonce := hown _ (List.mem_singleton_self _) c rfl r rfl
    have hskew : (kept keep v now).maxClockSkew = v.maxClockSkew := rfl
    simp only [stepWith, verifyKept_eq, verdict_eq_ok, hskew, Presents, VerifierCall.now, hrn,
      PartialMap.containsKey_eq_false]
    by_cases ha : Acceptable dilithium v.maxClockSkew c r pk now
    · by_cases hn : n = c.nonce
      · subst hn
        cases hu : (kept keep v now).usedNonces c.nonce with
        | some t' => simp [ha, hu]
        | none =>
          obtain ⟨n,issuedAt⟩ := c
          simp [ha]
      · have hc (t : UInt64) : c ≠ ⟨n,t⟩ := fun h => hn (h ▸ rfl)
        split <;> simp [hn, hc]
    · simp [ha]

private theorem proper_snoc {calls : List VerifierCall} {call : VerifierCall} (h : Proper (calls ++ [call])) :
    Proper calls ∧ (∀ a ∈ calls, a.now ≤ call.now) ∧ OwnNonces [call] := by
  refine ⟨h.sublist (List.sublist_append_left ..),?_,(h.sublist (List.sublist_append_right ..)).ownNonces⟩
  intro a ha
  have hp := h.nonDecreasing
  rw [NonDecreasing, List.map_append, List.pairwise_append] at hp
  exact hp.2.2 _ (List.mem_map_of_mem ha) _ (by simp)

/-- A verifier remembers the challenges presented so far that its policy keeps. -/
theorem remembered_iff (hkeep : keep.Antitone) (skew : UInt64) {calls : List VerifierCall} (h : Proper calls)
    {now : UInt64} (hnow : ∀ call ∈ calls, call.now ≤ now) (n : Nonce) (t : UInt64) :
    (kept keep (Machine.final (stepWith dilithium keep) (new skew) calls) now).usedNonces n = some t ↔
      (∃ call ∈ calls, call.Presents dilithium skew ⟨n,t⟩) ∧ keep skew now t = true := by
  induction calls using List.reverseRecOn generalizing now n t with
  | nil => simp [kept_eq_some, new]
  | append_singleton calls call ih =>
    obtain ⟨hcalls,hle,hown⟩ := proper_snoc h
    have hcn : call.now ≤ now := hnow call (by simp)
    rw [Machine.final_append, Machine.final_cons, Machine.final_nil, kept_eq_some, stepWith_eq_some _ _ hown,
      stepWith_maxClockSkew, final_maxClockSkew, ih hcalls hle]
    constructor
    · rintro ⟨⟨⟨a,ha,hp⟩,_⟩ | ⟨_,hp⟩,hk⟩
      · exact ⟨⟨a,by simp [ha],hp⟩,hk⟩
      · exact ⟨⟨call,by simp,hp⟩,hk⟩
    · rintro ⟨⟨a,ha,hp⟩,hk⟩
      refine ⟨?_,hk⟩
      rcases List.mem_append.mp ha with ha | ha
      · exact Or.inl ⟨⟨a,ha,hp⟩,hkeep _ _ _ _ hcn hk⟩
      · obtain rfl := List.mem_singleton.mp ha
        -- an entry already there for the nonce is the entry of the same challenge
        cases hu : (kept keep (Machine.final (stepWith dilithium keep) (new skew) calls) a.now).usedNonces n with
        | none => exact Or.inr ⟨rfl,hp⟩
        | some t' =>
          obtain ⟨⟨b,hb,hpb⟩,_⟩ := (ih hcalls hle n t').mp hu
          have hsame := h.determined b (by simp [hb]) a (by simp) ⟨n,t'⟩ hpb.challenge_eq ⟨n,t⟩
            hp.challenge_eq rfl
          obtain rfl : t' = t := congrArg Challenge.issuedAt hsame
          exact Or.inl ((ih hcalls hle n t').mp hu)

/-- The answer to a verification, from the calls before it. -/
theorem answer_at (hkeep : keep.Antitone) (skew : UInt64) {calls : List VerifierCall} (h : Proper calls) {j : ℕ}
    {c : Challenge} {r : ChallengeResponse} {pk : Bytes} {now : UInt64}
    (hj : calls[j]? = some (.verify c r pk now)) :
    ((Machine.history (stepWith dilithium keep) (new skew) calls).map Machine.Event.output)[j]? =
      some (some (verdict dilithium skew c r pk now
        (decide (∃ earlier ∈ calls.take j, earlier.Presents dilithium skew c) && keep skew now c.issuedAt))) := by
  have hmem : VerifierCall.verify c r pk now ∈ calls := List.mem_of_getElem? hj
  have hpast : ∀ call ∈ calls.take j, call.now ≤ now := by
    intro call hc
    obtain ⟨i,hi⟩ := List.mem_iff_getElem?.mp hc
    have hij : i < j := by
      have := (List.getElem?_eq_some_iff.mp hi).1
      rw [List.length_take] at this
      omega
    rw [List.getElem?_take_of_lt hij] at hi
    exact h.nonDecreasing.le_at hij hi hj
  have hrem := @remembered_iff dilithium _ hkeep skew _ (h.sublist (List.take_sublist j calls)) _ hpast c.nonce
  rw [Machine.output_at, hj, Option.map_some]
  simp only [stepWith, verifyKept_eq, h.ownNonces _ hmem c rfl r rfl]
  congr 3
  · exact final_maxClockSkew skew _
  · apply Bool.eq_iff_iff.mpr
    rw [PartialMap.containsKey, Option.isSome_iff_exists, Bool.and_eq_true, decide_eq_true_eq]
    constructor
    · rintro ⟨t,ht⟩
      obtain ⟨⟨a,ha,hp⟩,hk⟩ := (hrem t).mp ht
      have hsame := h.determined a (List.mem_of_mem_take ha) _ hmem _ hp.challenge_eq c rfl rfl
      exact ⟨⟨a,ha,hsame ▸ hp⟩,hsame ▸ hk⟩
    · exact fun hp => ⟨c.issuedAt,(hrem c.issuedAt).mpr hp⟩

/-- The times at which `clear_expired` drops a challenge that has not expired. -/
def AtBoundary (skew : UInt64) (c : Challenge) (now : UInt64) : Prop :=
  (c.issuedAt = 0 ∧ now ≤ 300) ∨ (skew = 0 ∧ now.toNat = c.issuedAt.toNat + 300)

instance (skew : UInt64) (c : Challenge) (now : UInt64) : Decidable (AtBoundary skew c now) :=
  inferInstanceAs (Decidable (_ ∨ _))

theorem atBoundary_iff (skew : UInt64) (c : Challenge) (now : UInt64) :
    AtBoundary skew c now ↔ c.isExpired now = false ∧ beyondHorizon skew now c.issuedAt = false := by
  simp only [AtBoundary, Challenge.isExpired_eq_false, beyondHorizon, gt_iff_lt, decide_eq_false_iff_not,
    UInt64.lt_iff_toNat_lt, UInt64.le_iff_toNat_le, toNat_horizon, ← UInt64.toNat_inj, UInt64.toNat_zero]
  have h300 : (300 : UInt64).toNat = 300 := rfl
  rw [h300]
  omega

/-- No challenge is verified at its boundary after it was presented. -/
def AvoidsBoundary (dilithium : Dilithium3) (skew : UInt64) (calls : List VerifierCall) : Prop :=
  calls.Pairwise fun earlier later =>
    ∀ c ∈ later.challenge, earlier.Presents dilithium skew c → ¬ AtBoundary skew c later.now

abbrev verdicts (step : ChallengeVerifier → VerifierCall → Verdict × ChallengeVerifier) (skew : UInt64)
    (calls : List VerifierCall) : List Verdict :=
  (Machine.history step (new skew) calls).map Machine.Event.output

/-- Both verifiers agree on a call unless it meets its challenge at the boundary. -/
theorem verdicts_agree_iff {skew : UInt64} {calls : List VerifierCall} (h : Proper calls) {j : ℕ}
    {call : VerifierCall} (hj : calls[j]? = some call) :
    (verdicts (step dilithium) skew calls)[j]? = (verdicts (referenceStep dilithium) skew calls)[j]? ↔
      ∀ earlier ∈ calls.take j, ∀ c ∈ call.challenge, earlier.Presents dilithium skew c →
        ¬ AtBoundary skew c call.now := by
  rw [verdicts, verdicts, step_eq, referenceStep_eq]
  cases call with
  | clearExpired now =>
    rw [Machine.output_at, Machine.output_at, hj]
    simp [stepWith, challenge]
  | verify c r pk now =>
    rw [answer_at beyondHorizon_antitone skew h hj, answer_at forever_antitone skew h hj]
    simp only [Option.some.injEq, verdict_eq_iff, forever, Bool.and_true, challenge, Option.mem_def,
      forall_eq', VerifierCall.now, atBoundary_iff]
    cases c.isExpired now <;> cases beyondHorizon skew now c.issuedAt <;> simp

/-- Pruning is invisible exactly in the runs that avoid the boundary. -/
theorem pruning_unobservable_iff (dilithium : Dilithium3) (skew : UInt64) {calls : List VerifierCall}
    (h : Proper calls) :
    verdicts (step dilithium) skew calls = verdicts (referenceStep dilithium) skew calls ↔
      AvoidsBoundary dilithium skew calls := by
  rw [AvoidsBoundary, List.pairwise_iff_getElem]
  constructor
  · intro heq i j hi hj hij c hc hp
    exact (verdicts_agree_iff h (List.getElem?_eq_getElem hj)).mp (by rw [heq]) calls[i]
      (List.mem_take_iff_getElem.mpr ⟨i,by omega,rfl⟩) c hc hp
  · intro havoid
    apply List.ext_getElem?
    intro j
    cases hj : calls[j]? with
    | none =>
      rw [verdicts, verdicts, Machine.output_at, Machine.output_at, hj]
      rfl
    | some call =>
      refine (verdicts_agree_iff h hj).mpr ?_
      intro earlier hmem c hc hp
      obtain ⟨i,hi,rfl⟩ := List.mem_take_iff_getElem.mp hmem
      obtain ⟨hjlen,rfl⟩ := List.getElem?_eq_some_iff.mp hj
      exact havoid i j (by omega) hjlen (by omega) c hc hp

section
open Transparent

abbrev honestCall (now : UInt64) : VerifierCall := sampleCall sampleChallenge.nonce now

private theorem honestCall_proper {calls : List VerifierCall} (hnow : NonDecreasing calls)
    (h : ∀ call ∈ calls, call = honestCall call.now ∨ call = .clearExpired call.now) : Proper calls where
  nonDecreasing := hnow
  ownNonces call hcall c hc r hr := by
    rcases h call hcall with he | he <;> rw [he] at hc hr
    · rw [← Option.some.inj hc, ← Option.some.inj hr]
      rfl
    · cases hc
  determined := by
    refine nonceDetermines_single sampleChallenge fun call hcall c hc => ?_
    rcases h call hcall with he | he <;> rw [he] at hc
    · exact (Option.some.inj hc).symm
    · cases hc

/-- Without skew tolerance a response of age exactly 300 is accepted again. -/
theorem replay_at_expiry_observable :
    Proper [honestCall 1300,honestCall 1300] ∧
      verdicts (step dilithium3) 0 [honestCall 1300,honestCall 1300] ≠
        verdicts (referenceStep dilithium3) 0 [honestCall 1300,honestCall 1300] := by
  have hp : Proper [honestCall 1300,honestCall 1300] :=
    honestCall_proper (by decide) (by simp [sampleCall, VerifierCall.now])
  refine ⟨hp,?_⟩
  intro heq
  have hagree := (@verdicts_agree_iff dilithium3 0 _ hp 1 _ rfl).mp (by rw [heq])
  refine hagree (honestCall 1300) (by simp) sampleChallenge rfl ⟨rfl,?_⟩ (by decide)
  exact acceptable_respond (by decide) (by decide) _

/-- Pruning ten seconds after the login leaves the replay refused. -/
theorem pruning_unobservable_timely :
    verdicts (step dilithium3) 60 [honestCall 1001,.clearExpired 1010,honestCall 1011] =
      verdicts (referenceStep dilithium3) 60 [honestCall 1001,.clearExpired 1010,honestCall 1011] :=
  (pruning_unobservable_iff dilithium3 60 (honestCall_proper (by decide) (by simp [sampleCall, VerifierCall.now]))).mpr
    (by simp [AvoidsBoundary, AtBoundary, honestCall, sampleCall, challenge, sampleChallenge])

end
end ChallengeVerifier
end PqAuth
