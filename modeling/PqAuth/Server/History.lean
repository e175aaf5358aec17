import PqAuth.Server.Store

/-! The vocabulary of histories: which events begin and complete enrollments,
issue and answer challenges, and get past the rate limiter. -/
namespace PqAuth

/-- The user a rate-limited request counts against. -/
def Request.limitedUser : Request → Option String
  | .issueChallenge u => some u
  | .verify req => some req.userId
  | _ => none

theorem Chronological.limitNow {calls : List Call} (h : Chronological calls) :
    (calls.map (fun c => c.env.limitNow.toNat)).Pairwise (· ≤ ·) := by
  rw [List.pairwise_map]
  refine (List.pairwise_flatMap.mp h).2.imp ?_
  intro c d hcd
  exact UInt64.le_iff_toNat_le.mp (hcd _ (by simp) _ (by simp))

theorem Chronological.of_append {calls more : List Call} (h : Chronological (calls ++ more)) :
    Chronological calls := by
  rw [Chronological, List.flatMap_append] at h
  exact (List.pairwise_append.mp h).1

theorem Chronological.ts {calls : List Call} (h : Chronological calls) :
    (calls.map (fun c => c.env.ts)).Pairwise (· ≤ ·) := by
  rw [List.pairwise_map]
  exact (List.pairwise_flatMap.mp h).2.imp fun hcd => hcd _ (by simp) _ (by simp)

namespace PqAuthServer
variable {crates : Crates} {serverId : String} {calls : List Call}

/-- A call for `u` that reached the limiter. -/
def reachesLimiter (u : String) (e : Event) : Bool :=
  e.input.request.limitedUser == some u && e.before.users.containsKey u

/-- A call for `u` that `check_rate_limit` let through. -/
def pastLimiter (u : String) (e : Event) : Bool :=
  reachesLimiter u e && ((checkRateLimit e.input.env u).exec e.before).1.isOk

def Begun (u : String) (resp : EnrollBeginResponse) (e : Event) : Prop :=
  e.input.request = .enrollBegin u ∧ e.output = .ok (.enrollBegin resp)

def Completed (req : EnrollCompleteRequest) (e : Event) : Prop :=
  e.input.request = .enrollComplete req ∧ e.output.isOk = true

def Issued (u : String) (e : Event) : Prop :=
  e.input.request = .issueChallenge u ∧ e.output.isOk = true

/-- A challenge verification that got past the rate limiter. -/
def Attempted (u : String) (e : Event) : Prop :=
  (∃ nonce ct sig, e.input.request = .verify ⟨u,.challenge nonce ct sig⟩) ∧ pastLimiter u e = true

/-- A challenge verification answered with the given verdict. -/
def Answered (u nonce : String) (ct : UInt64) (sig : String) (valid : Bool) (e : Event) : Prop :=
  e.input.request = .verify ⟨u,.challenge nonce ct sig⟩ ∧
    ∃ message, e.output = .ok (.verify ⟨valid,message⟩)

theorem pastLimiter_iff (u : String) (e : Event) :
    pastLimiter u e = true ↔ e.input.request.limitedUser = some u ∧
      (∃ record, e.before.users u = some record) ∧ passes e.before e.input.env u = true := by
  have hisOk : (if passes e.before e.input.env u then (.ok () : Except ServerError Unit)
      else .error .rateLimited).isOk = passes e.before e.input.env u := by
    cases passes e.before e.input.env u <;> rfl
  simp [pastLimiter, reachesLimiter, exec_checkRateLimit, hisOk, PartialMap.containsKey,
    Option.isSome_iff_exists, and_assoc]

theorem transition_at {k : ℕ} {e : Event} (h : (history crates serverId calls)[k]? = some e) :
    Transition crates e.before e.input.env e.input.request e.output e.after := by
  have ht := transition crates e.before e.input
  rwa [Machine.step_at h] at ht

theorem storeInvariant_at {k : ℕ} {e : Event} (h : (history crates serverId calls)[k]? = some e) :
    StoreInvariant crates e.before :=
  Machine.invariant_at (I := StoreInvariant crates) (fun s c hi => (transition crates s c).storeInvariant hi)
    (storeInvariant_new serverId) h

theorem storeInvariant_final (crates : Crates) (serverId : String) (calls : List Call) :
    StoreInvariant crates (final crates serverId calls) :=
  Machine.final_invariant (fun s c hi => (transition crates s c).storeInvariant hi) (storeInvariant_new serverId)
    calls

theorem serverId_final (crates : Crates) (serverId : String) (calls : List Call) :
    (final crates serverId calls).serverId = serverId :=
  Machine.final_invariant (I := fun s => s.serverId = serverId)
    (fun s c hi => (transition crates s c).serverId_eq.trans hi) rfl calls

theorem serverId_at {k : ℕ} {e : Event} (h : (history crates serverId calls)[k]? = some e) :
    e.before.serverId = serverId :=
  Machine.invariant_at (I := fun s => s.serverId = serverId)
    (fun s c hi => (transition crates s c).serverId_eq.trans hi) rfl h

theorem maxClockSkew_final (crates : Crates) (serverId : String) (calls : List Call) :
    (final crates serverId calls).verifier.maxClockSkew = 60 :=
  Machine.final_invariant (I := fun s => s.verifier.maxClockSkew = 60)
    (fun s c hi => (transition crates s c).maxClockSkew_eq.trans hi) rfl calls

theorem maxClockSkew_at {k : ℕ} {e : Event} (h : (history crates serverId calls)[k]? = some e) :
    e.before.verifier.maxClockSkew = 60 :=
  Machine.invariant_at (I := fun s => s.verifier.maxClockSkew = 60)
    (fun s c hi => (transition crates s c).maxClockSkew_eq.trans hi) rfl h

/-- A record once stored is the record of every later event. -/
theorem users_carried {j k : ℕ} {e f : Event} {u : String} {record : EnrollmentRecord} (hjk : j < k)
    (he : (history crates serverId calls)[j]? = some e) (hf : (history crates serverId calls)[k]? = some f)
    (hu : e.after.users u = some record) : f.before.users u = some record :=
  Machine.carried (Q := fun s => s.users u = some record) hjk he hf hu
    (fun _ _ _ _ hg hq => (transition_at hg).users_eq (storeInvariant_at hg) hq)

theorem users_final {j : ℕ} {e : Event} {u : String} {record : EnrollmentRecord}
    (he : (history crates serverId calls)[j]? = some e) (hu : e.after.users u = some record) :
    (final crates serverId calls).users u = some record :=
  Machine.carried_final (Q := fun s => s.users u = some record) he hu
    (fun _ _ _ hg hq => (transition_at hg).users_eq (storeInvariant_at hg) hq)

section
variable {s s' : ServerInner} {env : Env} {reply : Reply}

theorem Transition.begun_inv {u : String} (ht : Transition crates s env (.enrollBegin u) reply s')
    (hok : reply.isOk = true) :
    s.users u = none ∧ s' = afterBegin crates s env u ∧ reply = .ok (.enrollBegin
      ⟨crates.hex.encode (Enrollment.new crates s.serverId env.kyberSeed).kyberPublicKey,s.serverId⟩) := by
  cases ht
  case alreadyEnrolled => cases hok
  case begun hu => exact ⟨hu,rfl,rfl⟩

theorem Transition.completed_inv {req : EnrollCompleteRequest}
    (ht : Transition crates s env (.enrollComplete req) reply s') (hok : reply.isOk = true) :
    ∃ enrollment record, s.pendingEnrollments req.userId = some enrollment ∧
      Enrollment.complete crates enrollment (decodeCompletion crates req) = .ok record ∧
      s' = afterComplete s env req.userId record := by
  cases ht
  case enrolled enrollment record hp hc => exact ⟨enrollment,record,hp,hc,rfl⟩
  all_goals cases hok

theorem Transition.issued_inv {u : String} (ht : Transition crates s env (.issueChallenge u) reply s')
    (hok : reply.isOk = true) :
    (∃ record, s.users u = some record) ∧ passes s env u = true ∧ s' = afterIssue s env u := by
  cases ht
  case issued record hu hl => exact ⟨⟨record,hu⟩,hl,rfl⟩
  all_goals cases hok

end

/-- A user enrolls once. -/
theorem Completed.userId_ne {i j : ℕ} {e f : Event} {req req' : EnrollCompleteRequest} (hij : i < j)
    (he : (history crates serverId calls)[i]? = some e) (hf : (history crates serverId calls)[j]? = some f)
    (h : Completed req e) (h' : Completed req' f) : req'.userId ≠ req.userId := by
  intro hsame
  have hte := transition_at he
  have htf := transition_at hf
  rw [h.1] at hte
  rw [h'.1] at htf
  obtain ⟨_,record,_,_,hafter⟩ := hte.completed_inv h.2
  obtain ⟨enrollment,_,hpending,_⟩ := htf.completed_inv h'.2
  have hstored : e.after.users req.userId = some record := by
    rw [hafter]
    exact afterComplete_users ..
  rw [hsame, (storeInvariant_at hf).disjoint _ _ (users_carried hij he hf hstored)] at hpending
  cases hpending

/-- A verification answered `Ok` found a challenge and consumed it. -/
theorem Transition.answered_inv {s s' : ServerInner} {env : Env} {u nonce sig message : String} {ct : UInt64}
    {valid : Bool}
    (ht : Transition crates s env (.verify ⟨u,.challenge nonce ct sig⟩) (.ok (.verify ⟨valid,message⟩)) s') :
    ∃ record challenge outcome, s.users u = some record ∧ passes s env u = true ∧
      s.pendingChallenges u = some challenge ∧
      ChallengeVerifier.verify crates.dilithium3 s.verifier challenge (decodeResponse crates nonce ct sig)
        record.dilithiumPublicKey env.ts = outcome ∧
      valid = outcome.1.isOk ∧ s' = afterAnswer s env u outcome := by
  cases ht
  case answered record challenge outcome hu hl hp ho => exact ⟨record,challenge,outcome,hu,hl,hp,ho,rfl,rfl⟩

/-- An accepted response answers a challenge of its user. -/
theorem Transition.accepted_inv {s s' : ServerInner} {env : Env} {u nonce sig message : String} {ct : UInt64}
    (ht : Transition crates s env (.verify ⟨u,.challenge nonce ct sig⟩) (.ok (.verify ⟨true,message⟩)) s') :
    ∃ record challenge, s.users u = some record ∧ passes s env u = true ∧ s.pendingChallenges u = some challenge ∧
      ChallengeVerifier.Acceptable crates.dilithium3 s.verifier.maxClockSkew challenge
        (decodeResponse crates nonce ct sig) record.dilithiumPublicKey env.ts ∧
      (s.verifier.clearExpired env.ts).usedNonces (decodeResponse crates nonce ct sig).nonce = none := by
  obtain ⟨record,challenge,outcome,hu,hl,hp,ho,hvalid,_⟩ := ht.answered_inv
  have hok : outcome.1 = .ok () := by
    rcases outcome with ⟨_ | _,v⟩
    · cases hvalid
    · rfl
  rw [← ho, ChallengeVerifier.verify_eq_ok_iff] at hok
  exact ⟨record,challenge,hu,hl,hp,hok⟩

theorem Answered.attempted {k : ℕ} {e : Event} {u nonce sig : String} {ct : UInt64} {valid : Bool}
    (h : (history crates serverId calls)[k]? = some e) (ha : Answered u nonce ct sig valid e) :
    Attempted u e := by
  obtain ⟨hreq,message,hout⟩ := ha
  have ht := transition_at h
  rw [hreq, hout] at ht
  obtain ⟨record,_,_,hu,hl,_⟩ := ht.answered_inv
  exact ⟨⟨nonce,ct,sig,hreq⟩,(pastLimiter_iff u e).mpr ⟨by rw [hreq]; rfl,⟨record,hu⟩,hl⟩⟩

end PqAuthServer
end PqAuth
