import Mathlib.Data.Set.Basic
import PqAuth.Source.Challenge

/-! Two verifiers compared outside a set of nonces. Pruning with a monotone clock
keeps the comparison, whichever of them prunes more often. -/
namespace PqAuth.ChallengeVerifier
variable {dilithium : Dilithium3} {v w : ChallengeVerifier} {c : Challenge} {r : ChallengeResponse} {pk : Bytes}
  {now later ts : UInt64} {n : Nonce} {A B : Set Nonce}

theorem clearExpired_clearExpired (h : now ≤ later) (v : ChallengeVerifier) (n : Nonce) :
    ((v.clearExpired now).clearExpired later).usedNonces n = (v.clearExpired later).usedNonces n := by
  apply Option.ext
  intro t
  simp only [clearExpired_eq_some, clearExpired_maxClockSkew, and_assoc]
  constructor
  · exact fun ⟨hv,_,hl⟩ => ⟨hv,hl⟩
  · exact fun ⟨hv,hl⟩ => ⟨hv,UInt64.lt_of_le_of_lt (horizon_mono _ h) hl,hl⟩

/-- A verification leaves every nonce alone but the one it accepts. -/
theorem verify_clearExpired (h : now ≤ later) (hn : n = r.nonce → (verify dilithium v c r pk now).1 ≠ .ok ()) :
    ((verify dilithium v c r pk now).2.clearExpired later).usedNonces n = (v.clearExpired later).usedNonces n := by
  rcases @verify_cases dilithium v c r pk now with ⟨_,_,he⟩ | ⟨_,e,he⟩
  · have hne : n ≠ r.nonce := fun heq => hn heq (by rw [he])
    rw [he, ← clearExpired_clearExpired h v n]
    apply Option.ext
    intro t
    simp only [clearExpired_eq_some, clearExpired_maxClockSkew, PartialMap.insert_of_ne _ hne]
  · rw [he]
    exact clearExpired_clearExpired h v n

/-- From `now` on, two verifiers give the same answer for the nonces outside `A`. -/
structure AgreeOutside (A : Set Nonce) (now : UInt64) (v w : ChallengeVerifier) : Prop where
  skew : v.maxClockSkew = w.maxClockSkew
  used : ∀ later, now ≤ later → ∀ n, n ∉ A → (v.clearExpired later).usedNonces n = (w.clearExpired later).usedNonces n

theorem AgreeOutside.mono (h : AgreeOutside A now v w) (hsub : A ⊆ B) (hle : now ≤ later) :
    AgreeOutside B later v w :=
  ⟨h.skew,fun t ht n hn => h.used t (UInt64.le_trans hle ht) n (fun ha => hn (hsub ha))⟩

/-- An acceptance on one side only, of a nonce inside `A`. -/
theorem AgreeOutside.left (h : AgreeOutside A now v w) (hle : now ≤ ts)
    (hin : Acceptable dilithium v.maxClockSkew c r pk ts → r.nonce ∈ A) :
    AgreeOutside A ts (verify dilithium v c r pk ts).2 w := by
  refine ⟨(verify_maxClockSkew ..).trans h.skew,?_⟩
  intro later hl n hn
  rw [verify_clearExpired hl]
  · exact h.used later (UInt64.le_trans hle hl) n hn
  · rintro rfl hok
    exact hn (hin ((verify_eq_ok_iff ..).mp hok).1)

theorem AgreeOutside.accepts_iff (h : AgreeOutside A now v w) (hle : now ≤ ts)
    (hout : Acceptable dilithium v.maxClockSkew c r pk ts → r.nonce ∉ A) :
    (verify dilithium v c r pk ts).1 = .ok () ↔ (verify dilithium w c r pk ts).1 = .ok () := by
  rw [verify_eq_ok_iff, verify_eq_ok_iff, ← h.skew]
  constructor
  · exact fun ⟨ha,hu⟩ => ⟨ha,(h.used ts hle _ (hout ha)).symm.trans hu⟩
  · exact fun ⟨ha,hu⟩ => ⟨ha,(h.used ts hle _ (hout ha)).trans hu⟩

theorem verify_clearExpired_accepted (h : (verify dilithium v c r pk now).1 = .ok ()) (t : UInt64) :
    ((verify dilithium v c r pk now).2.clearExpired later).usedNonces r.nonce = some t ↔
      c.issuedAt = t ∧ horizon v.maxClockSkew later < t := by
  obtain ⟨ha,hu⟩ := (verify_eq_ok_iff ..).mp h
  rw [verify_of_acceptable ha hu, clearExpired_eq_some]
  simp

/-- The same request on both sides, whatever the answers. -/
theorem AgreeOutside.both (h : AgreeOutside A now v w) (hle : now ≤ ts) :
    AgreeOutside A ts (verify dilithium v c r pk ts).2 (verify dilithium w c r pk ts).2 := by
  refine ⟨by rw [verify_maxClockSkew, verify_maxClockSkew, h.skew],?_⟩
  intro later hl n hn
  by_cases hnr : n = r.nonce
  · subst hnr
    have hiff : (verify dilithium v c r pk ts).1 = .ok () ↔ (verify dilithium w c r pk ts).1 = .ok () :=
      h.accepts_iff hle (fun _ => hn)
    by_cases hok : (verify dilithium v c r pk ts).1 = .ok ()
    · apply Option.ext
      intro t
      rw [verify_clearExpired_accepted hok, verify_clearExpired_accepted (hiff.mp hok), h.skew]
    · rw [verify_clearExpired hl (fun _ => hok), verify_clearExpired hl (fun _ => mt hiff.mpr hok)]
      exact h.used later (UInt64.le_trans hle hl) _ hn
  · rw [verify_clearExpired hl (absurd · hnr), verify_clearExpired hl (absurd · hnr)]
    exact h.used later (UInt64.le_trans hle hl) n hn

end PqAuth.ChallengeVerifier
