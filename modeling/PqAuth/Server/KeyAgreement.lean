import PqAuth.Server.Honest

/-! What an enrolled client shares with the server. The reply to a completion
confirms no key, so agreement rests on which Kyber key is pending. -/
namespace PqAuth.PqAuthServer
variable {crates : Crates} {serverId : String} {calls : List Call}

/-- The public key waiting for a user's completion, as the server sent it. -/
def pendingKey (crates : Crates) (s : ServerInner) (u : String) : Option String :=
  (s.pendingEnrollments u).map (fun enrollment => crates.hex.encode enrollment.kyberPublicKey)

theorem Begun.serverId_eq {i : ℕ} {e : Event} {u : String} {resp : EnrollBeginResponse}
    (he : (history crates serverId calls)[i]? = some e) (hbegun : Begun u resp e) : resp.serverId = serverId := by
  have ht := transition_at he
  rw [hbegun.1, hbegun.2] at ht
  obtain ⟨_,_,hresp⟩ := ht.begun_inv rfl
  exact (congrArg EnrollBeginResponse.serverId (Response.enrollBegin.inj (Except.ok.inj hresp))).trans (serverId_at he)

/-- Completing the enrollment whose key the client answered makes both sides agree. -/
theorem agreement_at_completion (hx : crates.hex.RoundTrip) (hs : crates.kyber768.Sizes)
    (hc : crates.kyber768.Correct) {j : ℕ} {f : Event} {u : String} {resp : EnrollBeginResponse}
    {dilithiumPublicKey coins : Bytes} {req : EnrollCompleteRequest} {client : ClientEnrollment}
    (hf : (history crates serverId calls)[j]? = some f) (hcompleted : Completed req f)
    (hid : resp.serverId = serverId)
    (hclient : honestCompletion crates u resp dilithiumPublicKey coins = .ok (req,client))
    (hpending : pendingKey crates f.before u = some resp.kyberPublicKey) :
    ∃ record, f.after.users u = some record ∧ record.totpSeed = client.totpSeed ∧
      record.dilithiumPublicKey = dilithiumPublicKey := by
  have ht := transition_at hf
  rw [hcompleted.1] at ht
  obtain ⟨rfl,henroll⟩ := honestCompletion_ok hx hclient
  obtain ⟨enrollment,record,hp,hrecord,hafter⟩ := ht.completed_inv hcompleted.2
  obtain ⟨seed,rfl⟩ := (storeInvariant_at hf).drawn _ _ hp
  have hkey : crates.hex.encode (Enrollment.new crates f.before.serverId seed).kyberPublicKey =
      resp.kyberPublicKey := by
    simpa [pendingKey, hp] using hpending
  rw [← hkey, hx _, Option.getD_some, hid, ← serverId_at hf] at henroll
  rw [hafter]
  exact ⟨record,afterComplete_users ..,Enrollment.complete_clientEnroll hs hc henroll hrecord⟩

/-- An honest completion stores the client's seed and key when the key pending
at that moment is the one the client answered. -/
theorem enrollment_agreement (hx : crates.hex.RoundTrip) (hs : crates.kyber768.Sizes)
    (hc : crates.kyber768.Correct) {i j : ℕ} {e f : Event} {u : String} {resp : EnrollBeginResponse}
    {dilithiumPublicKey coins : Bytes} {req : EnrollCompleteRequest} {client : ClientEnrollment}
    (he : (history crates serverId calls)[i]? = some e) (hbegun : Begun u resp e)
    (hf : (history crates serverId calls)[j]? = some f) (hcompleted : Completed req f)
    (hclient : honestCompletion crates u resp dilithiumPublicKey coins = .ok (req,client))
    (hpending : pendingKey crates f.before u = some resp.kyberPublicKey) :
    ∃ record, f.after.users u = some record ∧ record.totpSeed = client.totpSeed ∧
      record.dilithiumPublicKey = dilithiumPublicKey :=
  agreement_at_completion hx hs hc hf hcompleted (hbegun.serverId_eq he) hclient hpending

section
open Transparent

/-- One client enrolling alone. -/
theorem enrollment_agreement_alone :
    ∃ record, (Machine.event (step Transparent.crates) (sampleBegun "alice")
        (completeCall 1001 "alice")).after.users "alice" = some record ∧
      record.totpSeed = sampleClient.totpSeed ∧ record.dilithiumPublicKey = keypair.publicKey :=
  @enrollment_agreement Transparent.crates "example.org" [beginCall 1000 [1] "alice",completeCall 1001 "alice"]
    hex_roundTrip kyber768_sizes kyber768_correct 0 1 _ _ "alice" sampleBegin keypair.publicKey [9]
    (sampleRequest "alice") sampleClient rfl (sample_begun "alice") (by simp [history, step_sampleBegin])
    (sample_completed 1001 "alice") (sampleCompletion "alice") (congrArg _ (afterBegin_pendingEnrollments ..))

/-- A second begin replaces the key that the first client answered. Its
completion still succeeds, and the two sides hold different seeds. -/
theorem racing_begins_disagree :
    let past := history Transparent.crates "example.org"
      [beginCall 1000 [1] "alice",beginCall 1001 [2] "alice",completeCall 1002 "alice"]
    ∃ e f record, past[0]? = some e ∧ Begun "alice" sampleBegin e ∧
      honestCompletion Transparent.crates "alice" sampleBegin keypair.publicKey [9] =
        .ok (sampleRequest "alice",sampleClient) ∧
      past[2]? = some f ∧ Completed (sampleRequest "alice") f ∧
      f.after.users "alice" = some record ∧ record.totpSeed ≠ sampleClient.totpSeed := by
  intro past
  let s₂ := afterBegin Transparent.crates (sampleBegun "alice") (sampleEnv 1001 [2] (sampleNonce 0)) "alice"
  let record := completedRecord Transparent.crates "example.org" [2] [1] keypair.publicKey [9]
  have hsecond : step Transparent.crates (sampleBegun "alice") (beginCall 1001 [2] "alice") = (_,s₂) :=
    step_begin rfl
  have hcomplete : step Transparent.crates s₂ (completeCall 1002 "alice") =
      (_,afterComplete s₂ (sampleEnv 1002 [] (sampleNonce 0)) "alice" record) :=
    step_complete hex_roundTrip kyber768_sizes keypair_publicKey_length (afterBegin_pendingEnrollments ..)
  refine ⟨Machine.event (step Transparent.crates) (new "example.org") (beginCall 1000 [1] "alice"),
    Machine.event (step Transparent.crates) s₂ (completeCall 1002 "alice"),record,rfl,sample_begun "alice",
    sampleCompletion "alice",?_,⟨rfl,?_⟩,?_,?_⟩
  · simp [past, history, step_sampleBegin, hsecond]
  · rw [Machine.event, hcomplete]
    rfl
  · rw [Machine.event, hcomplete]
    exact afterComplete_users ..
  · decide

end

/-- Between begins, the pending key stays or goes. -/
theorem Transition.pendingEnrollments_cases {s s' : ServerInner} {env : Env} {request : Request} {reply : Reply}
    (ht : Transition crates s env request reply s') (u : String) :
    (∃ resp, request = .enrollBegin u ∧ reply = .ok (.enrollBegin resp)) ∨
      s'.pendingEnrollments u = s.pendingEnrollments u ∨ s'.pendingEnrollments u = none := by
  by_cases hu : u = request.userId
  · subst hu
    cases ht
    case begun hu => exact Or.inl ⟨_,rfl,rfl⟩
    case enrollmentFailed => exact Or.inr (Or.inr (PartialMap.remove_self ..))
    case enrolled => exact Or.inr (Or.inr (PartialMap.remove_self ..))
    all_goals exact Or.inr (Or.inl rfl)
  · exact Or.inr (Or.inl (Session.mk.inj (ht.frame hu)).2.1)

/-- A completion that succeeds after the latest begin uses the key of that begin. -/
theorem pendingKey_of_latest {i j : ℕ} {e f : Event} {u : String} {resp : EnrollBeginResponse}
    {req : EnrollCompleteRequest} (hij : i < j) (he : (history crates serverId calls)[i]? = some e)
    (hbegun : Begun u resp e) (hf : (history crates serverId calls)[j]? = some f) (hcompleted : Completed req f)
    (huser : req.userId = u)
    (hlatest : ∀ (m : ℕ) g, i < m → m < j → (history crates serverId calls)[m]? = some g →
      ∀ resp', ¬ Begun u resp' g) :
    pendingKey crates f.before u = some resp.kyberPublicKey := by
  have htb := transition_at he
  rw [hbegun.1, hbegun.2] at htb
  obtain ⟨_,hafter,hresp⟩ := htb.begun_inv rfl
  have hkey := congrArg EnrollBeginResponse.kyberPublicKey (Response.enrollBegin.inj (Except.ok.inj hresp))
  have hmine : e.after.pendingEnrollments u = none ∨ pendingKey crates e.after u = some resp.kyberPublicKey := by
    refine Or.inr ?_
    rw [hafter, hkey, pendingKey]
    simp [afterBegin, logged]
  have hkept := Machine.carried
    (Q := fun s => s.pendingEnrollments u = none ∨ pendingKey crates s u = some resp.kyberPublicKey) hij he hf hmine
    (by
      intro m g him hmj hg hq
      rcases (transition_at hg).pendingEnrollments_cases u with ⟨resp',hreq,hout⟩ | hsame | hnone
      · exact absurd ⟨hreq,hout⟩ (hlatest m g him hmj hg resp')
      · simpa only [pendingKey, hsame] using hq
      · exact Or.inl hnone)
  have htc := transition_at hf
  rw [hcompleted.1] at htc
  obtain ⟨enrollment,_,hp,_⟩ := htc.completed_inv hcompleted.2
  rw [huser] at hp
  rcases hkept with hnone | hkey
  · exact absurd (hnone.symm.trans hp) (by simp)
  · exact hkey

theorem Transition.totp_inv {s s' : ServerInner} {env : Env} {u : String} {code : UInt32} {reply : Reply}
    {record : EnrollmentRecord} (ht : Transition crates s env (.verify ⟨u,.totp code⟩) reply s')
    (hu : s.users u = some record) :
    reply = .error .rateLimited ∨
      reply = .ok (.verify (totpResponse (PqTotp.verify crates.shake256 record.totpSeed code env.ts 1))) := by
  cases hl : passes s env u with
  | false => exact Or.inl (ht.deterministic (.verifyLimited hu hl)).1
  | true => exact Or.inr (ht.deterministic (.totp hu hl rfl)).1

/-- A client that answers the latest begin holds the stored seed from then on,
and its codes verify whenever the clocks are at most one time step apart. -/
theorem totp_login_complete (hx : crates.hex.RoundTrip) (hs : crates.kyber768.Sizes)
    (hc : crates.kyber768.Correct) {i j : ℕ} {e f : Event} {u : String} {resp : EnrollBeginResponse}
    {dilithiumPublicKey coins : Bytes} {req : EnrollCompleteRequest} {client : ClientEnrollment} (hij : i < j)
    (he : (history crates serverId calls)[i]? = some e) (hbegun : Begun u resp e)
    (hf : (history crates serverId calls)[j]? = some f) (hcompleted : Completed req f)
    (hlatest : ∀ (m : ℕ) g, i < m → m < j → (history crates serverId calls)[m]? = some g →
      ∀ resp', ¬ Begun u resp' g)
    (hclient : honestCompletion crates u resp dilithiumPublicKey coins = .ok (req,client)) :
    ∃ record, f.after.users u = some record ∧ record.totpSeed = client.totpSeed ∧
      ∀ (k : ℕ) g ct, j < k → (history crates serverId calls)[k]? = some g →
        g.input.request = .verify ⟨u,.totp (PqTotp.generate crates.shake256 client.totpSeed ct)⟩ →
        Words.absDiff ct g.input.env.ts ≤ 30 →
        g.output = .error .rateLimited ∨ g.output = .ok (.verify ⟨true,"TOTP verified"⟩) := by
  have hpending := pendingKey_of_latest hij he hbegun hf hcompleted (honestCompletion_ok hx hclient).1 hlatest
  obtain ⟨record,hstored,hseed,_⟩ := agreement_at_completion hx hs hc hf hcompleted (hbegun.serverId_eq he)
    hclient hpending
  refine ⟨record,hstored,hseed,?_⟩
  intro k g ct hjk hg hreq hclock
  have ht := transition_at hg
  rw [hreq] at ht
  rcases ht.totp_inv (users_carried hjk hf hg hstored) with hl | hv
  · exact Or.inl hl
  · rw [hseed, PqTotp.verify_generate _ _ _ _ hclock] at hv
    exact Or.inr hv

/-- The code of a client whose clock is one step ahead. -/
def totpCall (now clientTime : UInt64) (u : String) : Call :=
  ⟨sampleEnv now [] (sampleNonce 0),
    .verify ⟨u,.totp (PqTotp.generate Transparent.shake256 sampleClient.totpSeed clientTime)⟩⟩

open Transparent in
theorem totp_login_alone :
    ∃ g, (history Transparent.crates "example.org"
        [beginCall 1000 [1] "alice",completeCall 1001 "alice",totpCall 1010 1040 "alice"])[2]? = some g ∧
      (g.output = .error .rateLimited ∨ g.output = .ok (.verify ⟨true,"TOTP verified"⟩)) := by
  obtain ⟨record,_,_,hlogin⟩ := @totp_login_complete Transparent.crates "example.org"
    [beginCall 1000 [1] "alice",completeCall 1001 "alice",totpCall 1010 1040 "alice"]
    hex_roundTrip kyber768_sizes kyber768_correct 0 1 _ _ "alice" sampleBegin keypair.publicKey [9]
    (sampleRequest "alice") sampleClient (by decide) rfl (sample_begun "alice") (by simp [history, step_sampleBegin])
    (sample_completed 1001 "alice") (by omega) (sampleCompletion "alice")
  exact ⟨_,rfl,hlogin 2 _ 1040 (by decide) rfl rfl (by decide)⟩

end PqAuth.PqAuthServer
