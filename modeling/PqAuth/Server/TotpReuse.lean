import PqAuth.Server.KeyAgreement
import PqAuth.Totp.Acceptance

/-! What becomes of a one-time code once it was accepted. The server keeps no
record of codes, so only the clock retires one. -/
namespace PqAuth.PqAuthServer
variable {crates : Crates} {serverId : String} {calls : List Call}

/-- A code verification answered with the given verdict. -/
def TotpAnswered (u : String) (code : UInt32) (valid : Bool) (e : Event) : Prop :=
  e.input.request = .verify ⟨u,.totp code⟩ ∧ ∃ message, e.output = .ok (.verify ⟨valid,message⟩)

/-- A step that made the code acceptable to an event. -/
def Matched (crates : Crates) (record : EnrollmentRecord) (code : UInt32) (e : Event) (s : UInt64) : Prop :=
  PqTotp.Candidate e.input.env.ts 1 s ∧ PqTotp.generateAtStep crates.shake256 record.totpSeed s = code

/-- No code is accepted again for a user while a step it was accepted for is a candidate. -/
def CodesUsedOnce (crates : Crates) (past : List Event) : Prop :=
  ∀ (j k : ℕ) e f u code record s, j < k → past[j]? = some e → past[k]? = some f →
    TotpAnswered u code true e → e.before.users u = some record → Matched crates record code e s →
    PqTotp.Candidate f.input.env.ts 1 s → ¬ TotpAnswered u code true f

theorem fits_one (ts : UInt64) : PqTotp.Fits ts 1 := by
  have hts := ts.toNat_lt
  rw [PqTotp.Fits, UInt64.toNat_div]
  change ts.toNat / 30 + 1 < 2 ^ 64
  omega

theorem Transition.totp_answered_inv {s s' : ServerInner} {env : Env} {u message : String} {code : UInt32}
    {valid : Bool} (ht : Transition crates s env (.verify ⟨u,.totp code⟩) (.ok (.verify ⟨valid,message⟩)) s') :
    (∃ record, s.users u = some record) ∧ passes s env u = true := by
  cases ht
  case totp record hu hl _ => exact ⟨⟨record,hu⟩,hl⟩

theorem TotpAnswered.pastLimiter {k : ℕ} {e : Event} {u : String} {code : UInt32} {valid : Bool}
    (he : (history crates serverId calls)[k]? = some e) (ha : TotpAnswered u code valid e) :
    PqAuthServer.pastLimiter u e = true := by
  obtain ⟨hreq,message,hout⟩ := ha
  have ht := transition_at he
  rw [hreq, hout] at ht
  obtain ⟨hu,hl⟩ := ht.totp_answered_inv
  exact (pastLimiter_iff u e).mpr ⟨by rw [hreq]; rfl,hu,hl⟩

/-- Past the limiter, a code is accepted for the steps it matches and nothing else. -/
theorem totpAnswered_iff {k : ℕ} {e : Event} {u : String} {code : UInt32} {record : EnrollmentRecord}
    (he : (history crates serverId calls)[k]? = some e) (hreq : e.input.request = .verify ⟨u,.totp code⟩)
    (hu : e.before.users u = some record) (hpast : pastLimiter u e = true) :
    TotpAnswered u code true e ↔ ∃ s, Matched crates record code e s := by
  have ht := transition_at he
  rw [hreq] at ht
  obtain ⟨_,_,hl⟩ := (pastLimiter_iff u e).mp hpast
  have hout := (ht.deterministic (.totp hu hl rfl)).1
  have hverify := @PqTotp.verify_iff_candidate crates.shake256 record.totpSeed _ _ (fits_one e.input.env.ts) code
  rw [TotpAnswered, hout]
  constructor
  · rintro ⟨_,message,hmessage⟩
    exact hverify.mp (congrArg VerifyResponse.valid (Response.verify.inj (Except.ok.inj hmessage)))
  · intro hmatched
    rw [hverify.mpr hmatched]
    exact ⟨hreq,_,rfl⟩

theorem limited_output {k : ℕ} {e : Event} {u : String} {method : VerifyMethod} {record : EnrollmentRecord}
    (he : (history crates serverId calls)[k]? = some e) (hreq : e.input.request = .verify ⟨u,method⟩)
    (hu : e.before.users u = some record) (hpast : pastLimiter u e = false) : e.output = .error .rateLimited := by
  have ht := transition_at he
  rw [hreq] at ht
  have hl : passes e.before e.input.env u = false := by
    rw [Bool.eq_false_iff] at hpast ⊢
    exact fun hl => hpast ((pastLimiter_iff u e).mpr ⟨by rw [hreq]; rfl,⟨record,hu⟩,hl⟩)
  exact (ht.deterministic (.verifyLimited hu hl)).1

theorem ts_le {j k : ℕ} {e f : Event} (hchron : Chronological calls) (hjk : j < k)
    (he : (history crates serverId calls)[j]? = some e) (hf : (history crates serverId calls)[k]? = some f) :
    e.input.env.ts ≤ f.input.env.ts := by
  obtain ⟨hj,hje⟩ := List.getElem?_eq_some_iff.mp (Machine.input_at he)
  obtain ⟨hk,hkf⟩ := List.getElem?_eq_some_iff.mp (Machine.input_at hf)
  have hle := List.pairwise_iff_getElem.mp (List.pairwise_map.mp hchron.ts) j k hj hk hjk
  rwa [hje, hkf] at hle

/-- A step once matched stays a candidate until the clock is past its successor. -/
theorem candidate_later {ts later s : UInt64} (hle : ts ≤ later) (h : PqTotp.Candidate ts 1 s) :
    PqTotp.Candidate later 1 s ↔ (later / PqTotp.timeStep).toNat ≤ s.toNat + 1 := by
  rw [UInt64.le_iff_toNat_le] at hle
  rw [PqTotp.Candidate, UInt64.le_iff_toNat_le, Words.toNat_absDiff, UInt64.toNat_div] at h ⊢
  have hdiv : ts.toNat / PqTotp.timeStep.toNat ≤ later.toNat / PqTotp.timeStep.toNat := Nat.div_le_div_right hle
  change _ ≤ 1 at h
  change _ ≤ 1 ↔ _
  omega

/-- An accepted code is not used up. It is accepted again as long as its step is
a candidate, and later only through a later step of the same code. -/
theorem accepted_code_kept (hchron : Chronological calls) {j k : ℕ} {e f : Event} {u : String} {code : UInt32}
    (hjk : j < k) (he : (history crates serverId calls)[j]? = some e)
    (hf : (history crates serverId calls)[k]? = some f) (haccept : TotpAnswered u code true e)
    (hreq : f.input.request = .verify ⟨u,.totp code⟩) :
    ∃ record, e.before.users u = some record ∧ f.before.users u = some record ∧
      (∃ s, Matched crates record code e s) ∧
      (pastLimiter u f = false → f.output = .error .rateLimited) ∧
      (pastLimiter u f = true → ∀ s, Matched crates record code e s →
        ((f.input.env.ts / PqTotp.timeStep).toNat ≤ s.toNat + 1 → TotpAnswered u code true f) ∧
        (s.toNat + 1 < (f.input.env.ts / PqTotp.timeStep).toNat →
          (TotpAnswered u code true f ↔ ∃ s', s < s' ∧ Matched crates record code f s'))) := by
  have hpast := haccept.pastLimiter he
  obtain ⟨_,⟨record,hu⟩,_⟩ := (pastLimiter_iff u e).mp hpast
  have hlater : f.before.users u = some record :=
    users_carried hjk he hf ((transition_at he).users_eq (storeInvariant_at he) hu)
  refine ⟨record,hu,hlater,(totpAnswered_iff he haccept.1 hu hpast).mp haccept,limited_output hf hreq hlater,?_⟩
  intro hpast' s hs
  have hiff := totpAnswered_iff hf hreq hlater hpast'
  constructor
  · intro hcandidate
    exact hiff.mpr ⟨s,(candidate_later (ts_le hchron hjk he hf) hs.1).mpr hcandidate,hs.2⟩
  · intro hretired
    -- a candidate of the later time lies beyond the retired step
    rw [hiff]
    refine exists_congr fun s' => ⟨fun hs' => ⟨?_,hs'⟩,And.right⟩
    have hnear := hs'.1
    rw [PqTotp.Candidate, UInt64.le_iff_toNat_le, Words.toNat_absDiff] at hnear
    change _ ≤ 1 at hnear
    rw [UInt64.lt_iff_toNat_lt]
    omega

section
open Transparent

theorem sampleRecord_seed : sampleRecord.totpSeed = sampleClient.totpSeed :=
  congrArg (fun ss => Enrollment.deriveTotpSeed Transparent.crates (kyber768.sharedSecret ss) "example.org")
    (kyber768_correct [1] [9])

/-- The code of one time step, sent twice in that step. -/
def replayedCode : List Call :=
  [beginCall 1000 [1] "alice",completeCall 1001 "alice",totpCall 1010 1010 "alice",totpCall 1019 1010 "alice"]

def firstUse : Event :=
  Machine.event (step Transparent.crates) (sampleEnrolled 1001 "alice") (totpCall 1010 1010 "alice")

def secondUse : Event := Machine.event (step Transparent.crates) firstUse.after (totpCall 1019 1010 "alice")

theorem firstUse_at : (history Transparent.crates "example.org" replayedCode)[2]? = some firstUse := by
  simp [history, replayedCode, step_sampleBegin, step_sampleComplete, firstUse]

theorem secondUse_at : (history Transparent.crates "example.org" replayedCode)[3]? = some secondUse := by
  simp [history, replayedCode, step_sampleBegin, step_sampleComplete, secondUse, firstUse, Machine.event]

theorem secondUse_users : secondUse.before.users "alice" = some sampleRecord :=
  users_carried (by omega) firstUse_at secondUse_at
    ((transition_at firstUse_at).users_eq (storeInvariant_at firstUse_at) (sampleEnrolled_users ..))

theorem firstUse_passes : pastLimiter "alice" firstUse = true :=
  (pastLimiter_iff ..).mpr ⟨rfl,⟨_,sampleEnrolled_users ..⟩,passes_first rfl rfl _⟩

theorem secondUse_passes : pastLimiter "alice" secondUse = true :=
  (pastLimiter_iff ..).mpr ⟨rfl,⟨_,secondUse_users⟩,by decide +kernel⟩

def sampleCode : UInt32 := PqTotp.generate Transparent.shake256 sampleClient.totpSeed 1010

theorem sampleCode_generated :
    PqTotp.generateAtStep Transparent.shake256 sampleRecord.totpSeed 33 = sampleCode := by
  rw [sampleRecord_seed]
  rfl

theorem firstUse_matched : Matched Transparent.crates sampleRecord sampleCode firstUse 33 :=
  ⟨by decide,sampleCode_generated⟩

theorem firstUse_accepted : TotpAnswered "alice" sampleCode true firstUse :=
  (totpAnswered_iff firstUse_at rfl (sampleEnrolled_users ..) firstUse_passes).mpr ⟨33,firstUse_matched⟩

/-- Both uses are accepted. -/
theorem replayed_code_accepted : Chronological replayedCode ∧
    ¬ CodesUsedOnce Transparent.crates (history Transparent.crates "example.org" replayedCode) := by
  refine ⟨by decide,?_⟩
  intro honce
  have hagain : TotpAnswered "alice" sampleCode true secondUse :=
    (totpAnswered_iff secondUse_at rfl secondUse_users secondUse_passes).mpr ⟨33,by decide,sampleCode_generated⟩
  exact honce 2 3 _ _ _ _ _ _ (by omega) firstUse_at secondUse_at firstUse_accepted (sampleEnrolled_users ..)
    firstUse_matched (by decide) hagain

theorem accepted_code_kept_replayed : TotpAnswered "alice" sampleCode true secondUse := by
  have hchron : Chronological replayedCode := by decide
  obtain ⟨record,hu,_,_,_,hpast⟩ :=
    accepted_code_kept hchron (by omega) firstUse_at secondUse_at firstUse_accepted rfl
  obtain rfl : record = sampleRecord := Option.some.inj (hu.symm.trans (sampleEnrolled_users ..))
  exact (hpast secondUse_passes 33 firstUse_matched).1 (by decide)

end
end PqAuth.PqAuthServer
