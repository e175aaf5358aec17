import PqAuth.Server.Honest

/-! What becomes of stored data: enrolled credentials never change, and a failed
request changes nothing but rate limits, except for one that drops an
enrollment in progress. -/
namespace PqAuth.PqAuthServer
variable {crates : Crates}

/-- The store is well formed after every run, and the record that a completion
stored is there before and after every later request. -/
theorem credentials_immutable (crates : Crates) (serverId : String) (calls : List Call) :
    let s := final crates serverId calls
    let past := history crates serverId calls
    (∀ u, ¬ ((s.users u).isSome ∧ (s.pendingEnrollments u).isSome)) ∧
    (∀ u, (s.pendingChallenges u).isSome → (s.users u).isSome) ∧
    (∀ u record, s.users u = some record → record.WellFormed serverId) ∧
    (∀ (j : ℕ) e req, past[j]? = some e → Completed req e →
      ∃ record, e.after.users req.userId = some record ∧ s.users req.userId = some record ∧
        ∀ (k : ℕ) f, j < k → past[k]? = some f →
          f.before.users req.userId = some record ∧ f.after.users req.userId = some record) := by
  intro s past
  have hi := storeInvariant_final crates serverId calls
  refine ⟨?_,?_,?_,?_⟩
  · rintro u ⟨hu,hp⟩
    obtain ⟨record,hr⟩ := Option.isSome_iff_exists.mp hu
    simp [s, hi.disjoint u record hr] at hp
  · intro u hc
    obtain ⟨challenge,hc⟩ := Option.isSome_iff_exists.mp hc
    obtain ⟨record,hr⟩ := hi.challenged u challenge hc
    exact Option.isSome_iff_exists.mpr ⟨record,hr⟩
  · intro u record hr
    rw [← serverId_final crates serverId calls]
    exact hi.records u record hr
  · intro j e req he ⟨hreq,hok⟩
    have ht := transition_at he
    rw [hreq] at ht
    obtain ⟨enrollment,record,_,_,hafter⟩ := ht.completed_inv hok
    have hstored : e.after.users req.userId = some record := by
      rw [hafter]
      exact PartialMap.insert_self ..
    refine ⟨record,hstored,users_final he hstored,?_⟩
    intro k f hjk hf
    have hbefore := users_carried hjk he hf hstored
    exact ⟨hbefore,(transition_at hf).users_eq (storeInvariant_at hf) hbefore⟩

/-- Everything but the rate limits. -/
structure Unchanged (s s' : ServerInner) : Prop where
  users : s'.users = s.users
  pendingEnrollments : s'.pendingEnrollments = s.pendingEnrollments
  pendingChallenges : s'.pendingChallenges = s.pendingChallenges
  usedNonces : s'.verifier.usedNonces = s.verifier.usedNonces
  auditLog : s'.auditLog = s.auditLog

/-- A completion of a pending enrollment with a wrongly sized field. Malformed
hex decodes to the empty string. -/
def Spoils (crates : Crates) (s : ServerInner) (request : Request) : Prop :=
  ∃ req, request = .enrollComplete req ∧ (s.pendingEnrollments req.userId).isSome ∧
    ¬ (((crates.hex.decode req.ciphertext).getD []).length = Kyber.ciphertextSize ∧
      ((crates.hex.decode req.dilithiumPublicKey).getD []).length = Dilithium.publicKeySize)

theorem Transition.unchanged_of_error {s s' : ServerInner} {env : Env} {request : Request} {error : ServerError}
    (ht : Transition crates s env request (.error error) s') :
    Unchanged s s' ∨ ∃ req enrollment e, request = .enrollComplete req ∧
      s.pendingEnrollments req.userId = some enrollment ∧
      Enrollment.complete crates enrollment (decodeCompletion crates req) = .error e ∧
      s'.pendingEnrollments req.userId = none := by
  cases ht
  case enrollmentFailed req enrollment e hp hc =>
    exact Or.inr ⟨req,enrollment,e,rfl,hp,hc,PartialMap.remove_self ..⟩
  all_goals exact Or.inl ⟨rfl,rfl,rfl,rfl,rfl⟩

theorem Transition.failed_inv {s s' : ServerInner} {env : Env} {req : EnrollCompleteRequest} {reply : Reply}
    {enrollment : ServerEnrollment} {e : EnrollmentError}
    (ht : Transition crates s env (.enrollComplete req) reply s')
    (hp : s.pendingEnrollments req.userId = some enrollment)
    (hc : Enrollment.complete crates enrollment (decodeCompletion crates req) = .error e) :
    reply = .error (.enrollmentFailed e) ∧ s'.pendingEnrollments req.userId = none := by
  obtain ⟨hreply,rfl⟩ := ht.deterministic (.enrollmentFailed hp hc)
  exact ⟨hreply,PartialMap.remove_self ..⟩

/-- Completion fails for the pending enrollments of a store exactly when it spoils them. -/
theorem complete_error_iff_spoils (hs : crates.kyber768.Sizes) {s : ServerInner} (hi : StoreInvariant crates s)
    {req : EnrollCompleteRequest} {enrollment : ServerEnrollment}
    (hp : s.pendingEnrollments req.userId = some enrollment) :
    (∃ e, Enrollment.complete crates enrollment (decodeCompletion crates req) = .error e) ↔
      Spoils crates s (.enrollComplete req) := by
  obtain ⟨seed,rfl⟩ := hi.drawn _ _ hp
  rw [Enrollment.complete_error_iff hs (Kyber.generate_secretKey_length hs seed)]
  constructor
  · exact fun hbad => ⟨req,rfl,by simp [hp],hbad⟩
  · rintro ⟨req',hreq,_,hbad⟩
    obtain rfl := Request.enrollComplete.inj hreq
    exact hbad

/-- In every reachable state an error leaves everything but the rate limits
alone, unless the request spoils a pending enrollment. -/
theorem error_atomic_iff (hs : crates.kyber768.Sizes) (serverId : String) (calls : List Call) (c : Call) :
    let s := final crates serverId calls
    ((∃ e, (step crates s c).1 = .error e) → Unchanged s (step crates s c).2) ↔ ¬ Spoils crates s c.request := by
  intro s
  have hi := storeInvariant_final crates serverId calls
  constructor
  · intro hatomic hspoils
    have ht := transition crates s c
    obtain ⟨req,hreq,hpend,_⟩ := id hspoils
    obtain ⟨enrollment,hp⟩ := Option.isSome_iff_exists.mp hpend
    rw [hreq] at hspoils ht
    obtain ⟨e,hc⟩ := (complete_error_iff_spoils hs hi hp).mpr hspoils
    obtain ⟨hreply,hnone⟩ := ht.failed_inv hp hc
    have hsame := (hatomic ⟨_,hreply⟩).pendingEnrollments
    rw [hsame, hp] at hnone
    cases hnone
  · rintro hclean ⟨error,herr⟩
    have ht := transition crates s c
    rw [herr] at ht
    rcases ht.unchanged_of_error with hsame | ⟨req,enrollment,e,hreq,hp,hc,_⟩
    · exact hsame
    · exact absurd ((complete_error_iff_spoils hs hi hp).mp ⟨e,hc⟩) (hreq ▸ hclean)

section
open Transparent

/-- An error that counts nothing and spoils nothing. -/
theorem error_atomic_unknown_user :
    Unchanged (final Transparent.crates "example.org" [])
      (step Transparent.crates (final Transparent.crates "example.org" [])
        ⟨sampleEnv 1000 [] (sampleNonce 0),.issueChallenge "alice"⟩).2 :=
  (error_atomic_iff kyber768_sizes "example.org" [] ⟨sampleEnv 1000 [] (sampleNonce 0),.issueChallenge "alice"⟩).mpr
    (by simp [Spoils]) ⟨.userNotFound "alice",rfl⟩

/-- Anyone may complete with an empty ciphertext, and the enrollment is gone. -/
theorem empty_ciphertext_drops_enrollment :
    let s := final Transparent.crates "example.org" [beginCall 1000 [1] "alice"]
    let c : Call := ⟨sampleEnv 1001 [] (sampleNonce 0),.enrollComplete ⟨"alice","",""⟩⟩
    (∃ e, (step Transparent.crates s c).1 = .error e) ∧ ¬ Unchanged s (step Transparent.crates s c).2 := by
  intro s c
  have hp : s.pendingEnrollments "alice" = some (Enrollment.new Transparent.crates "example.org" [1]) := by
    simp only [s, final, Machine.final_cons, Machine.final_nil, step_sampleBegin]
    exact afterBegin_pendingEnrollments ..
  have hc : Enrollment.complete Transparent.crates (Enrollment.new Transparent.crates "example.org" [1])
      (decodeCompletion Transparent.crates ⟨"alice","",""⟩) = .error (.invalidCiphertextLength 1088 0) := rfl
  obtain ⟨hreply,hnone⟩ := (transition Transparent.crates s c).failed_inv hp hc
  refine ⟨⟨_,hreply⟩,?_⟩
  intro hsame
  rw [hsame.pendingEnrollments, hp] at hnone
  cases hnone

end
end PqAuth.PqAuthServer
