import Mathlib.Algebra.Order.BigOperators.Group.Finset
import PqAuth.Server.Agreement
import PqAuth.Server.BruteForce
import PqAuth.Server.ChallengeLogin
import PqAuth.Server.Races

/-! How far the replay table grows. Each entry cost its user two calls that passed
the limiter, within the time the table remembers. -/
namespace PqAuth

theorem Chronological.within {calls : List Call} (h : Chronological calls) {c : Call} (hc : c ∈ calls) :
    c.env.limitNow ≤ c.env.ts := by
  have hreadings := (List.pairwise_flatMap.mp h).1 c hc
  simp only [List.pairwise_cons] at hreadings
  exact hreadings.1 _ (by simp)

theorem Chronological.between {calls : List Call} (h : Chronological calls) {i j : ℕ} (hij : i < j) {c d : Call}
    (hc : calls[i]? = some c) (hd : calls[j]? = some d) : c.env.ts ≤ d.env.limitNow := by
  obtain ⟨hi,rfl⟩ := List.getElem?_eq_some_iff.mp hc
  obtain ⟨hj,rfl⟩ := List.getElem?_eq_some_iff.mp hd
  exact List.pairwise_iff_getElem.mp (List.pairwise_flatMap.mp h).2 i j hi hj hij _ (by simp) _ (by simp)

namespace PqAuthServer
variable {crates : Crates} {serverId : String} {calls : List Call} {u : String} {m : ℕ}

/-- A challenge for `u` sent out. -/
def issues (u : String) : Request × Reply → Bool
  | (.issueChallenge v,.ok _) => v == u
  | _ => false

/-- A challenge response for `u` that was accepted. -/
def accepts (u : String) : Request × Reply → Bool
  | (.verify ⟨v,.challenge ..⟩,.ok (.verify ⟨true,_⟩)) => v == u
  | _ => false

def enrolledUser : Request × Reply → Option String
  | (.enrollComplete req,.ok _) => some req.userId
  | _ => none

/-- The users enrolled in a run. -/
def enrolledUsers (past : List Event) : List String := past.filterMap (fun e => enrolledUser (exchange e))

/-- The nonce a verification records if it succeeds. -/
def nonceField (crates : Crates) : Request → Option Nonce
  | .verify ⟨_,.challenge nonce ct sig⟩ => some (decodeResponse crates nonce ct sig).nonce
  | _ => none

/-- Whether `u` has a challenge from `m` or later to answer. -/
def owedSince (m : ℕ) (s : ServerInner) (u : String) : Bool :=
  (s.pendingChallenges u).any (fun challenge => m ≤ challenge.issuedAt.toNat)

def issuesSince (u : String) (m : ℕ) (e : Event) : Bool := issues u (exchange e) && m ≤ e.input.env.ts.toNat

def acceptsSince (u : String) (m : ℕ) (e : Event) : Bool := accepts u (exchange e) && owedSince m e.before u

theorem accepts_iff {e : Event} :
    accepts u (exchange e) = true ↔ ∃ nonce ct sig, Answered u nonce ct sig true e := by
  constructor
  · intro h
    unfold accepts at h
    split at h
    · rename_i v nonce ct sig message hexchange
      obtain ⟨hreq,hout⟩ := Prod.mk.inj hexchange
      obtain rfl : v = u := by simpa using h
      exact ⟨nonce,ct,sig,hreq,message,hout⟩
    · cases h
  · rintro ⟨nonce,ct,sig,hreq,message,hout⟩
    simp [accepts, exchange, hreq, hout]

theorem issues_iff {e : Event} : issues u (exchange e) = true ↔ Issued u e := by
  unfold issues exchange Issued
  cases e.input.request <;> cases e.output <;> simp [Except.isOk, Except.toBool]

theorem mem_enrolledUsers {past : List Event} {req : EnrollCompleteRequest} {e : Event} (he : e ∈ past)
    (h : Completed req e) : req.userId ∈ enrolledUsers past := by
  refine List.mem_filterMap.mpr ⟨e,he,?_⟩
  obtain ⟨hreq,hok⟩ := h
  rw [exchange, hreq]
  cases hout : e.output with
  | error err => rw [hout] at hok; cases hok
  | ok resp => rfl

/-- An accepted response answers a challenge that was owed, and only an issued one is owed. -/
theorem Transition.accepts_le {s s' : ServerInner} {env : Env} {request : Request} {reply : Reply}
    (ht : Transition crates s env request reply s') (u : String) (m : ℕ) :
    (acceptsSince u m ⟨s,⟨env,request⟩,reply,s'⟩).toNat + (owedSince m s' u).toNat ≤
      (owedSince m s u).toNat + (issuesSince u m ⟨s,⟨env,request⟩,reply,s'⟩).toNat := by
  cases ht
  case issued v record hu hl =>
    by_cases h : v = u
    · subst h
      simp [acceptsSince, accepts, issuesSince, issues, exchange, owedSince]
    · have hsame : owedSince m (afterIssue s env v) u = owedSince m s u := by
        simp [owedSince, afterIssue, logged, counted, Ne.symm h]
      simp [acceptsSince, accepts, exchange, hsame]
  case answered v nonce ct sig record challenge outcome hu hl hp ho =>
    by_cases h : v = u
    · subst h
      have hnone : owedSince m (afterAnswer s env v outcome) v = false := by simp [owedSince]
      rw [hnone, acceptsSince]
      cases owedSince m s v with
      | false => simp
      | true =>
        rw [Bool.and_true]
        exact (Bool.toNat_le _).trans (Nat.le_add_right ..)
    · have hsame : owedSince m (afterAnswer s env v outcome) u = owedSince m s u := by
        simp [owedSince, afterAnswer, logged, counted, Ne.symm h]
      have hother : acceptsSince u m ⟨s,⟨env,.verify ⟨v,.challenge nonce ct sig⟩⟩,
          .ok (.verify (challengeResponse outcome.1.isOk)),afterAnswer s env v outcome⟩ = false := by
        rw [acceptsSince, Bool.and_eq_false_iff, ← Bool.not_eq_true, accepts_iff]
        refine Or.inl ?_
        rintro ⟨_,_,_,hreq,_⟩
        exact h (VerifyRequest.mk.inj (Request.verify.inj hreq)).1
      rw [hsame, hother]
      simp
  all_goals simp [acceptsSince, accepts, exchange, owedSince, afterBegin, afterComplete, logged, counted]

/-- Every accepted response answers an issued challenge of its own. -/
theorem accepts_le_issues (crates : Crates) (serverId : String) (calls : List Call) (u : String) (m : ℕ) :
    (history crates serverId calls).countP (acceptsSince u m) ≤
      (history crates serverId calls).countP (issuesSince u m) := by
  have hrun : (history crates serverId calls).countP (acceptsSince u m) +
      (owedSince m (final crates serverId calls) u).toNat ≤
        (history crates serverId calls).countP (issuesSince u m) := by
    refine Machine.history_invariant (J := fun past s => past.countP (acceptsSince u m) + (owedSince m s u).toNat ≤
      past.countP (issuesSince u m)) (by simp [owedSince, new]) ?_ calls
    intro past t c hpast
    have hstep : (acceptsSince u m (Machine.event (step crates) t c)).toNat +
        (owedSince m (step crates t c).2 u).toNat ≤
          (owedSince m t u).toNat + (issuesSince u m (Machine.event (step crates) t c)).toNat :=
      (transition crates t c).accepts_le u m
    have hone (p : Event → Bool) (e : Event) : [e].countP p = (p e).toNat := by
      cases hp : p e <;> simp [hp]
    rw [List.countP_append, List.countP_append, hone, hone]
    omega
  exact (Nat.le_add_right ..).trans hrun

/-- Where an entry of the replay table comes from. -/
theorem Transition.usedNonces_cases {s s' : ServerInner} {env : Env} {request : Request} {reply : Reply}
    (ht : Transition crates s env request reply s') {n : Nonce} {t : UInt64}
    (h : s'.verifier.usedNonces n = some t) :
    (∃ u challenge, accepts u (request,reply) = true ∧ s.pendingChallenges u = some challenge ∧
      nonceField crates request = some n ∧ challenge.issuedAt = t) ∨ s.verifier.usedNonces n = some t := by
  cases ht
  case answered v nonce ct sig record challenge outcome hu hl hp ho =>
    change outcome.2.usedNonces n = some t at h
    rcases @ChallengeVerifier.verify_cases crates.dilithium3 s.verifier challenge
      (decodeResponse crates nonce ct sig) record.dilithiumPublicKey env.ts with ⟨_,_,he⟩ | ⟨_,e,he⟩
    · obtain rfl := ho.symm.trans he
      by_cases hn : n = (decodeResponse crates nonce ct sig).nonce
      · subst hn
        have hissued : some challenge.issuedAt = some t := (PartialMap.insert_self ..).symm.trans h
        exact Or.inl ⟨v,challenge,by simp [accepts, challengeResponse, Except.isOk, Except.toBool],hp,rfl,
          Option.some.inj hissued⟩
      · have hold := (PartialMap.insert_of_ne _ hn _).symm.trans h
        exact Or.inr ((ChallengeVerifier.clearExpired_eq_some ..).mp hold).1
    · obtain rfl := ho.symm.trans he
      exact Or.inr ((ChallengeVerifier.clearExpired_eq_some ..).mp h).1
  all_goals exact Or.inr h

/-- A verification that touches the table leaves entries of the last six minutes only. -/
theorem Transition.usedNonces_recent {s s' : ServerInner} {env : Env} {request : Request} {reply : Reply}
    (ht : Transition crates s env request reply s') (hskew : s.verifier.maxClockSkew = 60) :
    s'.verifier = s.verifier ∨
      ∀ n t, s'.verifier.usedNonces n = some t → env.ts.toNat < t.toNat + 360 := by
  cases ht
  case answered v nonce ct sig record challenge outcome hu hl hp ho =>
    refine Or.inr ?_
    intro n t h
    change outcome.2.usedNonces n = some t at h
    have hcleared (h : (s.verifier.clearExpired env.ts).usedNonces n = some t) : env.ts.toNat < t.toNat + 360 := by
      have hlt := UInt64.lt_iff_toNat_lt.mp ((ChallengeVerifier.clearExpired_eq_some ..).mp h).2
      rw [ChallengeVerifier.toNat_horizon, hskew] at hlt
      change _ - 60 < _ at hlt
      omega
    rcases @ChallengeVerifier.verify_cases crates.dilithium3 s.verifier challenge
      (decodeResponse crates nonce ct sig) record.dilithiumPublicKey env.ts with ⟨hacceptable,_,he⟩ | ⟨_,e,he⟩
    · obtain rfl := ho.symm.trans he
      by_cases hn : n = (decodeResponse crates nonce ct sig).nonce
      · subst hn
        obtain rfl : challenge.issuedAt = t := Option.some.inj ((PartialMap.insert_self ..).symm.trans h)
        have hfresh := (Challenge.isExpired_eq_false ..).mp hacceptable.1
        omega
      · exact hcleared ((PartialMap.insert_of_ne _ hn _).symm.trans h)
    · obtain rfl := ho.symm.trans he
      exact hcleared h
  all_goals exact Or.inl rfl

/-- Where an entry of the table at the end of a run was recorded. -/
theorem entry_origin {n : Nonce} {t : UInt64} (h : (final crates serverId calls).verifier.usedNonces n = some t) :
    ∃ e ∈ history crates serverId calls, ∃ u challenge, accepts u (exchange e) = true ∧
      e.before.pendingChallenges u = some challenge ∧ nonceField crates e.input.request = some n ∧
        challenge.issuedAt = t := by
  refine Machine.history_invariant (J := fun (past : List Event) s => ∀ n t, s.verifier.usedNonces n = some t →
    ∃ e ∈ past, ∃ u challenge, accepts u (exchange e) = true ∧ e.before.pendingChallenges u = some challenge ∧
      nonceField crates e.input.request = some n ∧ challenge.issuedAt = t)
    (by simp [new, ChallengeVerifier.new]) ?_ calls n t h
  intro past s c hpast n t h
  rcases (transition crates s c).usedNonces_cases h with ⟨u,challenge,hnew⟩ | hold
  · exact ⟨Machine.event (step crates) s c,by simp,u,challenge,hnew⟩
  · obtain ⟨e,he,horigin⟩ := hpast n t hold
    exact ⟨e,List.mem_append_left _ he,horigin⟩

/-- An accepted response passed the limiter, no earlier than its challenge was issued. -/
theorem accepted_passes (hchron : Chronological calls) {k : ℕ} {e : Event}
    (he : (history crates serverId calls)[k]? = some e) (h : acceptsSince u m e = true) :
    pastLimiter u e = true ∧ m ≤ e.input.env.limitNow.toNat := by
  obtain ⟨haccepts,howed⟩ := Bool.and_eq_true_iff.mp h
  obtain ⟨nonce,ct,sig,ha⟩ := accepts_iff.mp haccepts
  refine ⟨(ha.attempted he).2,?_⟩
  obtain ⟨challenge,hp,hm⟩ := (Option.any_eq_true ..).mp howed
  obtain ⟨i,f,hik,hf,hissued,_⟩ := pending_origin he hp
  have hbefore := UInt64.le_iff_toNat_le.mp (hchron.between hik (Machine.input_at hf) (Machine.input_at he))
  have hts : challenge.issuedAt = f.input.env.ts := by rw [hissued.2.1]
  rw [← hts] at hbefore
  exact (of_decide_eq_true hm).trans hbefore

theorem issued_passes {k : ℕ} {e : Event} (he : (history crates serverId calls)[k]? = some e)
    (h : Issued u e) : pastLimiter u e = true := by
  have ht := transition_at he
  rw [h.1] at ht
  obtain ⟨hu,hl,_⟩ := ht.issued_inv h.2
  exact (pastLimiter_iff ..).mpr ⟨by rw [h.1]; rfl,hu,hl⟩

/-- A challenge stamped `m` or later whose limiter still read an earlier time. -/
private def straddles (u : String) (m : ℕ) (e : Event) : Bool :=
  issuesSince u m e && e.input.env.limitNow.toNat < m

private theorem straddles_le_one (hchron : Chronological calls) (u : String) (m : ℕ) :
    (history crates serverId calls).countP (straddles u m) ≤ 1 := by
  apply Machine.countP_le_one
  intro i j e f hij he hf hpe hpf
  simp only [straddles, issuesSince, Bool.and_eq_true, decide_eq_true_eq] at hpe hpf
  have hle := UInt64.le_iff_toNat_le.mp (hchron.between hij (Machine.input_at he) (Machine.input_at hf))
  omega

private theorem countP_pair_le {α : Type} {p q r w : α → Bool} {l : List α}
    (h : ∀ x ∈ l, (p x).toNat + (q x).toNat ≤ (r x).toNat + (w x).toNat) :
    l.countP p + l.countP q ≤ l.countP r + l.countP w := by
  induction l with
  | nil => simp
  | cons x l ih =>
    have hrest := ih fun y hy => h y (List.mem_cons_of_mem _ hy)
    have hx := h x List.mem_cons_self
    have hite (b : Bool) : (if b = true then 1 else 0) = b.toNat := by cases b <;> rfl
    simp only [List.countP_cons, hite]
    omega

theorem reading_le_last {c : Call} (hchron : Chronological (calls ++ [c])) {e : Event}
    (he : e ∈ history crates serverId (calls ++ [c])) : e.input.env.limitNow.toNat ≤ c.env.ts.toNat := by
  have hlast := hchron.within (List.mem_append_right calls List.mem_cons_self)
  rcases List.mem_append.mp (Machine.input_mem he) with hearlier | hsame
  · exact UInt64.le_iff_toNat_le.mp (UInt64.le_trans (limitNow_le hchron hearlier) hlast)
  · rw [List.mem_singleton.mp hsame]
    exact UInt64.le_iff_toNat_le.mp hlast

/-- In six minutes a user gets seven challenges answered. -/
theorem accepts_le_seven {c : Call} (hchron : Chronological (calls ++ [c]))
    (hfits : CounterFits u (history crates serverId (calls ++ [c]))) :
    (history crates serverId (calls ++ [c])).countP (acceptsSince u (c.env.ts.toNat - 359)) ≤ 7 := by
  have hpasses := countP_passesBetween_le hchron hfits (Nat.sub_le c.env.ts.toNat 359)
  have hwindows : (c.env.ts.toNat - (c.env.ts.toNat - 359)) / 301 ≤ 1 := by omega
  have hissues := accepts_le_issues crates serverId (calls ++ [c]) u (c.env.ts.toNat - 359)
  have hstraddle := @straddles_le_one crates serverId _ hchron u (c.env.ts.toNat - 359)
  have hboth : (history crates serverId (calls ++ [c])).countP (acceptsSince u (c.env.ts.toNat - 359)) +
      (history crates serverId (calls ++ [c])).countP (issuesSince u (c.env.ts.toNat - 359)) ≤
        (history crates serverId (calls ++ [c])).countP
          (passesBetween u (c.env.ts.toNat - 359) c.env.ts.toNat) +
        (history crates serverId (calls ++ [c])).countP (straddles u (c.env.ts.toNat - 359)) := by
    apply countP_pair_le
    intro e he
    obtain ⟨k,hk⟩ := List.mem_iff_getElem?.mp he
    have hend := reading_le_last hchron he
    cases haccepts : acceptsSince u (c.env.ts.toNat - 359) e with
    | true =>
      -- a verification is no request for a challenge
      obtain ⟨nonce,ct,sig,ha⟩ := accepts_iff.mp (Bool.and_eq_true_iff.mp haccepts).1
      have hnot : issuesSince u (c.env.ts.toNat - 359) e = false := by
        rw [issuesSince, Bool.and_eq_false_iff, ← Bool.not_eq_true, issues_iff]
        exact Or.inl fun hi => by cases ha.1.symm.trans hi.1
      obtain ⟨hpast,hm⟩ := accepted_passes hchron hk haccepts
      simp [passesBetween, hpast, hm, hend, hnot]
    | false =>
      cases hissues : issuesSince u (c.env.ts.toNat - 359) e with
      | false => simp
      | true =>
        have hpast := issued_passes hk (issues_iff.mp (Bool.and_eq_true_iff.mp hissues).1)
        by_cases hm : c.env.ts.toNat - 359 ≤ e.input.env.limitNow.toNat
        · simp [passesBetween, hpast, hm, hend]
        · simp [straddles, hissues, Nat.lt_of_not_le hm]
  omega

/-- The user of an accepted response enrolled. -/
theorem accepted_enrolled {k : ℕ} {e : Event} (he : (history crates serverId calls)[k]? = some e)
    (h : accepts u (exchange e) = true) : u ∈ enrolledUsers (history crates serverId calls) := by
  obtain ⟨nonce,ct,sig,hreq,message,hout⟩ := accepts_iff.mp h
  have ht := transition_at he
  rw [hreq, hout] at ht
  obtain ⟨record,_,_,hu,_⟩ := ht.answered_inv
  obtain ⟨i,f,_,hf,req,rfl,hcompleted,_⟩ := record_origin he hu
  exact mem_enrolledUsers (List.mem_of_getElem? hf) hcompleted

/-- The nonces a user's accepted responses recorded. -/
def recordedSince (crates : Crates) (past : List Event) (m : ℕ) (u : String) : Finset Nonce :=
  ((past.filter (acceptsSince u m)).filterMap (fun e => nonceField crates e.input.request)).toFinset

private theorem card_recordedSince_le (past : List Event) (m : ℕ) (u : String) :
    (recordedSince crates past m u).card ≤ past.countP (acceptsSince u m) := by
  rw [List.countP_eq_length_filter]
  exact (List.toFinset_card_le _).trans (List.length_filterMap_le ..)

/-- Right after a verification that touched the table. -/
private theorem replay_table_verified {c : Call} (hchron : Chronological (calls ++ [c]))
    (hfits : ∀ u, CounterFits u (history crates serverId (calls ++ [c])))
    (hrecent : ∀ n t, (final crates serverId (calls ++ [c])).verifier.usedNonces n = some t →
      c.env.ts.toNat < t.toNat + 360)
    {stored : Finset Nonce}
    (hstored : ∀ n ∈ stored, ((final crates serverId (calls ++ [c])).verifier.usedNonces n).isSome = true) :
    stored.card ≤ 7 * (enrolledUsers (history crates serverId (calls ++ [c]))).length := by
  have howner : ∀ n ∈ stored, ∃ u ∈ enrolledUsers (history crates serverId (calls ++ [c])),
      n ∈ recordedSince crates (history crates serverId (calls ++ [c])) (c.env.ts.toNat - 359) u := by
    intro n hn
    obtain ⟨t,ht⟩ := Option.isSome_iff_exists.mp (hstored n hn)
    obtain ⟨e,he,u,challenge,haccepts,hp,hnonce,hissued⟩ := entry_origin ht
    obtain ⟨k,hk⟩ := List.mem_iff_getElem?.mp he
    refine ⟨u,accepted_enrolled hk haccepts,?_⟩
    have hsince : acceptsSince u (c.env.ts.toNat - 359) e = true := by
      have hlt := hrecent n t ht
      simp only [acceptsSince, owedSince, haccepts, hp, hissued, Option.any_some, Bool.true_and, decide_eq_true_eq]
      omega
    exact List.mem_toFinset.mpr (List.mem_filterMap.mpr ⟨e,List.mem_filter.mpr ⟨he,hsince⟩,hnonce⟩)
  choose! owner howner using howner
  have hfibers := Finset.card_le_mul_card_image_of_maps_to (s := stored) (f := owner)
    (t := (enrolledUsers (history crates serverId (calls ++ [c]))).toFinset)
    (fun n hn => List.mem_toFinset.mpr (howner n hn).1) 7 (by
      intro u _
      have hsub : stored.filter (fun n => owner n = u) ⊆
          recordedSince crates (history crates serverId (calls ++ [c])) (c.env.ts.toNat - 359) u := by
        intro n hn
        obtain ⟨hmem,rfl⟩ := Finset.mem_filter.mp hn
        exact (howner n hmem).2
      exact (Finset.card_le_card hsub).trans ((card_recordedSince_le ..).trans (accepts_le_seven hchron (hfits u))))
  exact hfibers.trans (Nat.mul_le_mul_left 7 (List.toFinset_card_le _))

/-- However long the server runs, its replay table holds seven nonces for each
enrolled user at most. -/
theorem replay_table_le (hchron : Chronological calls) (hfits : ∀ u, CounterFits u (history crates serverId calls))
    {stored : Finset Nonce}
    (hstored : ∀ n ∈ stored, ((final crates serverId calls).verifier.usedNonces n).isSome = true) :
    stored.card ≤ 7 * (enrolledUsers (history crates serverId calls)).length := by
  induction calls using List.reverseRecOn with
  | nil =>
    have hempty : stored = ∅ := Finset.eq_empty_of_forall_notMem fun n hn => by cases hstored n hn
    simp [hempty]
  | append_singleton calls c ih =>
    have hfinal : final crates serverId (calls ++ [c]) = (step crates (final crates serverId calls) c).2 :=
      Machine.final_append ..
    rcases (transition crates (final crates serverId calls) c).usedNonces_recent (maxClockSkew_final ..) with
      hsame | hrecent
    · have hhistory : history crates serverId (calls ++ [c]) = history crates serverId calls ++
          [Machine.event (step crates) (final crates serverId calls) c] := Machine.history_append ..
      rw [hfinal, hsame] at hstored
      rw [hhistory] at hfits ⊢
      have hearlier := ih hchron.of_append (fun u => (hfits u).of_append) hstored
      rw [enrolledUsers, List.filterMap_append, List.length_append]
      exact hearlier.trans (Nat.mul_le_mul_left 7 (Nat.le_add_right ..))
    · rw [← hfinal] at hrecent
      exact replay_table_verified hchron hfits hrecent hstored

section
open Transparent

/-- Alice answers her challenge. -/
def sampleLogin : List Call := sampleIssued ++ [answerCall ⟨sampleNonce 1,2000⟩ (sampleNonce 1) "alice" 2003]

theorem sampleLogin_recorded :
    (final Transparent.crates "example.org" sampleLogin).verifier.usedNonces (sampleNonce 1) = some 2000 := by
  have hpasses : passes (final Transparent.crates "example.org" sampleIssued) (sampleEnv 2003 [] (sampleNonce 0))
      "alice" = true := by
    rw [final_sampleIssued]
    rfl
  have hverifier : (final Transparent.crates "example.org" sampleIssued).verifier = ChallengeVerifier.new 60 := by
    rw [final_sampleIssued]
    rfl
  have hanswer := @step_answerCall _ _ _ (sampleNonce 1) 2003 sampleIssued_users hpasses sampleIssued_pending
  have hacceptable := @acceptable_respond ⟨sampleNonce 1,2000⟩ 2003 2003 60 (by decide) (by decide) (sampleNonce 1)
  rw [hverifier, ChallengeVerifier.verify_of_acceptable hacceptable rfl, final] at hanswer
  rw [sampleLogin, final, Machine.final_append, Machine.final_cons, hanswer, Machine.final_nil]
  exact PartialMap.insert_self ((ChallengeVerifier.new 60).clearExpired 2003).usedNonces (sampleNonce 1) 2000

/-- One entry after one login. -/
theorem replay_table_le_login : ({sampleNonce 1} : Finset Nonce).card ≤
    7 * (enrolledUsers (history Transparent.crates "example.org" sampleLogin)).length :=
  replay_table_le (by decide) (fun _ => counterFits_of_length (by decide)) (by simp [sampleLogin_recorded])

end

end PqAuthServer
end PqAuth
