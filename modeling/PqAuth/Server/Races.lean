import PqAuth.Server.BruteForce
import PqAuth.Server.Linearizability

/-! What clients that race for one user can get out of the service. -/
namespace PqAuth.PqAuthServer
variable {crates : Crates} {serverId : String}

/-- An enrollment of `u` that succeeded. -/
def enrolls (u : String) : Request × Reply → Bool
  | (.enrollComplete req,.ok _) => req.userId == u
  | _ => false

/-- A challenge verification for `u` that was answered, whatever the verdict. -/
def spends (u : String) : Request × Reply → Bool
  | (.verify ⟨v,.challenge ..⟩,.ok _) => v == u
  | _ => false

def exchange (e : Event) : Request × Reply := (e.input.request,e.output)

theorem enrolls_iff {u : String} {e : Event} :
    enrolls u (exchange e) = true ↔ ∃ req, req.userId = u ∧ Completed req e := by
  unfold enrolls exchange Completed
  cases e.input.request <;> cases e.output <;> simp [Except.isOk, Except.toBool]

/-- A user is enrolled at most once. -/
theorem enrolled_once (crates : Crates) (serverId : String) (calls : List Call) (u : String) :
    ((history crates serverId calls).map exchange).countP (enrolls u) ≤ 1 := by
  rw [List.countP_map]
  apply Machine.countP_le_one
  intro i j e f hij he hf hpe hpf
  obtain ⟨req,rfl,hcompleted⟩ := enrolls_iff.mp hpe
  obtain ⟨req',hsame,hcompleted'⟩ := enrolls_iff.mp hpf
  exact hcompleted.userId_ne hij he hf hcompleted' hsame

/-- Whether `u` has a challenge to answer. -/
def owed (s : ServerInner) (u : String) : ℕ := (s.pendingChallenges u).isSome.toNat

/-- An answer spends a challenge, and only a request for one adds to them. -/
theorem Transition.spends_le {s s' : ServerInner} {env : Env} {request : Request} {reply : Reply}
    (ht : Transition crates s env request reply s') (u : String) :
    [(request,reply)].countP (spends u) + owed s' u ≤ owed s u + [request].countP (· = .issueChallenge u) := by
  have howed (t : ServerInner) : owed t u ≤ 1 := Bool.toNat_le _
  cases ht
  case issued v record hu hl =>
    by_cases h : v = u
    · subst h
      have := howed (afterIssue s env v)
      simp [spends]
      omega
    · have hsame : owed (afterIssue s env v) u = owed s u := by
        simp [owed, afterIssue, logged, counted, Ne.symm h]
      simp [spends, hsame]
  case answered v nonce ct sig record challenge outcome hu hl hp ho =>
    by_cases h : v = u
    · subst h
      simp [spends, owed, hp]
    · have hsame : owed (afterAnswer s env v outcome) u = owed s u := by
        simp [owed, afterAnswer, logged, counted, Ne.symm h]
      simp [spends, hsame, h]
  all_goals simp [spends, owed, afterBegin, afterComplete, logged, counted]

/-- No challenge is answered twice. -/
theorem spends_le_requested (crates : Crates) (serverId : String) (calls : List Call) (u : String) :
    ((history crates serverId calls).map exchange).countP (spends u) ≤
      (calls.map Call.request).countP (· = .issueChallenge u) := by
  have hrun : ((history crates serverId calls).map exchange).countP (spends u) + owed (final crates serverId calls) u ≤
      ((history crates serverId calls).map (fun e => e.input.request)).countP (· = .issueChallenge u) := by
    refine Machine.history_invariant (J := fun past s => (past.map exchange).countP (spends u) + owed s u ≤
      (past.map (fun e => e.input.request)).countP (· = .issueChallenge u)) (by simp [owed, new]) ?_ calls
    intro past t c hpast
    have hstep : ([Machine.event (step crates) t c].map exchange).countP (spends u) +
        owed (step crates t c).2 u ≤ owed t u +
          ([Machine.event (step crates) t c].map (fun e => e.input.request)).countP (· = .issueChallenge u) :=
      (transition crates t c).spends_le u
    rw [List.map_append, List.map_append, List.countP_append, List.countP_append]
    omega
  have hcalls := congrArg (List.map Call.request) (Machine.history_inputs (step crates) (new serverId) calls)
  rw [List.map_map] at hcalls
  rw [← hcalls]
  exact le_trans (Nat.le_add_right _ _) hrun

section
open Locked
variable {build : Build} {R : SystemTime → SystemTime → Prop} [Std.Refl R] [IsTrans SystemTime R] {τ : Type}
  [DecidableEq τ] {boot : SystemTime} {ls : List (Mutex.Label τ Request Reply SystemTime)}
  {c : Mutex.Config τ Request Reply ServerInner SystemTime Draw.Value}

/-- However clients race, one enrollment of a user succeeds at most, and no more
challenge verifications are answered than challenges were asked for. -/
theorem races_settled (hrun : Served crates build R serverId boot ls c) (u : String) :
    (Mutex.received ls).countP (fun x => enrolls u x = true) ≤ 1 ∧
      (Mutex.received ls).countP (fun x => spends u x = true) ≤
        (Mutex.invocations ls).countP (fun x => x.2 = .issueChallenge u) := by
  obtain ⟨xs,_,hreceived,hrequested⟩ := service_received hrun
  constructor
  · apply (Multiset.countP_le_of_le _ hreceived).trans
    rw [Multiset.coe_countP]
    simp only [Bool.decide_eq_true]
    exact enrolled_once crates serverId (xs.map TimedCall.call) u
  · apply (Multiset.countP_le_of_le _ hreceived).trans
    have hspent := spends_le_requested crates serverId (xs.map TimedCall.call) u
    rw [requests_calls] at hspent
    have hasked := Multiset.countP_le_of_le (· = Request.issueChallenge u) hrequested
    rw [Multiset.coe_countP, Multiset.countP_map, ← Multiset.countP_eq_card_filter] at hasked
    rw [Multiset.coe_countP]
    simp only [Bool.decide_eq_true]
    exact hspent.trans hasked

section
open Transparent

/-- Alice's answer to her challenge of 1010. -/
def sampleAnswer : Request := (answerCall ⟨sampleNonce 0,1010⟩ (sampleNonce 0) "alice" 1010).request

def sampleGuess : Request := (guessCall 100000000).request

/-- Alice enrolls and asks for a challenge. Her answer is sent over two connections at
once, and with it somebody's guess of a code. -/
def sampleLogins : List (Mutex.Label Bool Request Reply SystemTime) :=
  [.invoke false (.enrollBegin "alice"),
    .reply false (.enrollBegin "alice") (some (.ok (.enrollBegin sampleBegin))),
    .advance (some 1001),
    .invoke false (.enrollComplete (sampleRequest "alice")),
    .reply false (.enrollComplete (sampleRequest "alice"))
      (some (.ok (.enrollComplete ⟨true,"Enrollment successful"⟩))),
    .advance (some 1010),
    .invoke false (.issueChallenge "alice"),
    .reply false (.issueChallenge "alice")
      (some (.ok (.challengeIssued ⟨hex.encode (sampleNonce 0).val,1010⟩))),
    .invoke false sampleAnswer,
    .invoke true sampleAnswer,
    .reply true sampleAnswer (some (.ok (.verify (challengeResponse true)))),
    .invoke true sampleGuess,
    .reply false sampleAnswer (some (.error (.noPendingChallenge "alice"))),
    .reply true sampleGuess (some (.ok (.verify (totpResponse false))))]

/-- What the handler leaves behind that issued the challenge. -/
def sampleChallenged (build : Build) : ServerInner :=
  ((handler Transparent.crates build (.issueChallenge "alice")).outcome (some 1010) sampleDraws
    (sampleEnrolled 1001 "alice")).2

private theorem outcome_issue (build : Build) :
    (handler Transparent.crates build (.issueChallenge "alice")).outcome (some 1010) sampleDraws
      (sampleEnrolled 1001 "alice") =
        (some (.ok (.challengeIssued ⟨hex.encode (sampleNonce 0).val,1010⟩)),sampleChallenged build) :=
  Prod.ext (by cases build <;> rfl) rfl

private theorem sampleChallenged_users (build : Build) :
    (sampleChallenged build).users "alice" = some sampleRecord := by
  cases build <;> rfl

private theorem sampleChallenged_challenge (build : Build) :
    (sampleChallenged build).pendingChallenges "alice" = some ⟨sampleNonce 0,1010⟩ := by
  cases build <;> rfl

private theorem sampleChallenged_verifier (build : Build) :
    (sampleChallenged build).verifier = ChallengeVerifier.new 60 := by
  cases build <;> rfl

/-- Alice has made `n` limited calls, all at 1010. -/
private structure Counting (s : ServerInner) (n : UInt32) : Prop where
  users : s.users "alice" = some sampleRecord
  entry : s.rateLimits "alice" = some (n,1010)
  maxAttempts : s.maxAttempts = 5
  rateWindow : s.rateWindow = 300

private theorem sampleChallenged_counting (build : Build) : Counting (sampleChallenged build) 1 := by
  cases build <;> exact ⟨rfl,rfl,rfl,rfl⟩

private theorem attempt_sample (n : UInt32) :
    attempt 5 300 (some (n,1010)) 1010 = (decide (n + 1 ≤ 5),n + 1,1010) :=
  attempt_within 5 n (by decide) (by decide)

private theorem Counting.passes {s : ServerInner} {n : UInt32} (h : Counting s n) (hn : n + 1 ≤ 5) (seed : Bytes)
    (nonce : Nonce) : passes s ⟨1010,1010,1010,seed,nonce⟩ "alice" = true := by
  rw [PqAuthServer.passes, h.entry, h.maxAttempts, h.rateWindow, attempt_sample]
  exact decide_eq_true hn

private theorem Counting.counted {s : ServerInner} {n : UInt32} (h : Counting s n) :
    Counting (counted s (envAt 1010) "alice") (n + 1) := by
  refine ⟨h.users,?_,h.maxAttempts,h.rateWindow⟩
  simp only [PqAuthServer.counted, envAt, PartialMap.insert_self, h.entry, h.maxAttempts, h.rateWindow,
    attempt_sample]

private theorem Counting.answered {s : ServerInner} {n : UInt32} (h : Counting s n)
    (outcome : Except ChallengeError Unit × ChallengeVerifier) :
    Counting (afterAnswer s (envAt 1010) "alice" outcome) (n + 1) :=
  ⟨h.users,h.counted.entry,h.maxAttempts,h.rateWindow⟩

private theorem Counting.safe {s : ServerInner} {n : UInt32} (h : Counting s n) (hn : n.toNat + 1 < 2 ^ 32)
    {request : Request} (hl : request.limitedUser = some "alice") :
    limiterAborts build s (.instant (some 1010) request) = false := by
  refine limiterAborts_of_fits rfl (.inr fun u hu => ?_)
  obtain rfl := Option.some.inj (hl.symm.trans hu)
  intro m start hentry
  obtain ⟨rfl,rfl⟩ := Prod.mk.inj (Option.some.inj (h.entry.symm.trans hentry))
  exact ⟨le_rfl,fun _ => hn⟩

/-- How the verifier judges the answer. -/
def sampleOutcome : Except ChallengeError Unit × ChallengeVerifier :=
  ChallengeVerifier.verify dilithium3 (ChallengeVerifier.new 60) ⟨sampleNonce 0,1010⟩
    (respond ⟨sampleNonce 0,1010⟩ (sampleNonce 0) 1010) keypair.publicKey 1010

private theorem sampleOutcome_ok : sampleOutcome.1 = .ok () :=
  (ChallengeVerifier.verify_eq_ok_iff ..).mpr ⟨acceptable_respond (by decide) (by decide) _,rfl⟩

def sampleAnswered (build : Build) : ServerInner :=
  afterAnswer (sampleChallenged build) (envAt 1010) "alice" sampleOutcome

private theorem sampleAnswered_counting (build : Build) : Counting (sampleAnswered build) 2 :=
  (sampleChallenged_counting build).answered sampleOutcome

private theorem outcome_answer (build : Build) :
    (handler Transparent.crates build sampleAnswer).outcome (some 1010) sampleDraws (sampleChallenged build) =
      (some (.ok (.verify (challengeResponse true))),sampleAnswered build) := by
  have hok : sampleOutcome.1.isOk = true := by
    rw [sampleOutcome_ok]
    rfl
  rw [← hok]
  refine outcome_of_transition ((sampleChallenged_counting build).safe (by decide) rfl) fun seed nonce => ?_
  refine .answered (sampleChallenged_users build) ((sampleChallenged_counting build).passes (by decide) seed nonce)
    (sampleChallenged_challenge build) ?_
  rw [decodeResponse_encode hex_roundTrip, sampleChallenged_verifier]
  rfl

private theorem outcome_late (build : Build) :
    (handler Transparent.crates build sampleAnswer).outcome (some 1010) sampleDraws (sampleAnswered build) =
      (some (.error (.noPendingChallenge "alice")),counted (sampleAnswered build) (envAt 1010) "alice") :=
  outcome_of_transition ((sampleAnswered_counting build).safe (by decide) rfl) fun seed nonce =>
    .noPendingChallenge (sampleAnswered_counting build).users
      ((sampleAnswered_counting build).passes (by decide) seed nonce) (afterAnswer_pendingChallenges ..)

private theorem outcome_guess (build : Build) :
    (handler Transparent.crates build sampleGuess).outcome (some 1010) sampleDraws
      (counted (sampleAnswered build) (envAt 1010) "alice") = (some (.ok (.verify (totpResponse false))),
        logged (counted (counted (sampleAnswered build) (envAt 1010) "alice") (envAt 1010) "alice") (envAt 1010)
          "alice" "verify_totp" false none) := by
  have hcounting : Counting (counted (sampleAnswered build) (envAt 1010) "alice") 3 :=
    (sampleAnswered_counting build).counted
  have hwrong : PqTotp.verify Transparent.shake256 sampleRecord.totpSeed 100000000 1010 1 = false := by
    rw [Bool.eq_false_iff]
    exact fun hv => absurd (PqTotp.accepted_lt hv) (by decide)
  exact outcome_of_transition (hcounting.safe (by decide) rfl) fun seed nonce =>
    .totp hcounting.users (hcounting.passes (by decide) seed nonce) hwrong

/-- The schedule, whatever states the handlers lead through. -/
private theorem sampleLogins_schedule {begun enrolled issued answered late guessed : ServerInner}
    (hbegin : (handler Transparent.crates build (.enrollBegin "alice")).outcome (some 1000) sampleDraws
      (new "example.org") = (some (.ok (.enrollBegin sampleBegin)),begun))
    (hcomplete : (handler Transparent.crates build (.enrollComplete (sampleRequest "alice"))).outcome (some 1001)
      sampleDraws begun = (some (.ok (.enrollComplete ⟨true,"Enrollment successful"⟩)),enrolled))
    (hissue : (handler Transparent.crates build (.issueChallenge "alice")).outcome (some 1010) sampleDraws enrolled =
      (some (.ok (.challengeIssued ⟨hex.encode (sampleNonce 0).val,1010⟩)),issued))
    (hanswer : (handler Transparent.crates build sampleAnswer).outcome (some 1010) sampleDraws issued =
      (some (.ok (.verify (challengeResponse true))),answered))
    (hlate : (handler Transparent.crates build sampleAnswer).outcome (some 1010) sampleDraws answered =
      (some (.error (.noPendingChallenge "alice")),late))
    (hguess : (handler Transparent.crates build sampleGuess).outcome (some 1010) sampleDraws late =
      (some (.ok (.verify (totpResponse false))),guessed)) :
    ∃ c, Served Transparent.crates build SystemTime.NotAfter "example.org" (some 1000) sampleLogins c ∧
      c.clock = some 1010 :=
  ⟨_,.cons (.invoke rfl) <| .served (t := false) hbegin rfl rfl rfl <| .cons (.reply rfl) <|
    .cons (.advance (show (1000 : UInt64) ≤ 1001 by decide)) <|
    .cons (.invoke rfl) <| .served (t := false) hcomplete rfl rfl rfl <| .cons (.reply rfl) <|
    .cons (.advance (show (1001 : UInt64) ≤ 1010 by decide)) <|
    .cons (.invoke rfl) <| .served (t := false) hissue rfl rfl rfl <| .cons (.reply rfl) <|
    .cons (.invoke rfl) <| .cons (.invoke rfl) <|
    .served (t := true) hanswer rfl rfl rfl <| .cons (.reply rfl) <| .cons (.invoke rfl) <|
    .served (t := false) hlate rfl rfl rfl <|
    .served (t := true) hguess rfl rfl rfl <| .cons (.reply rfl) <| .cons (.reply rfl) .nil,
    rfl⟩

private theorem sampleLogins_served (build : Build) :
    ∃ c, Served Transparent.crates build SystemTime.NotAfter "example.org" (some 1000) sampleLogins c ∧
      c.clock = some 1010 :=
  sampleLogins_schedule (outcome_begin build) (outcome_complete build) (outcome_issue build) (outcome_answer build)
    (outcome_late build) (outcome_guess build)

/-- One enrollment, one challenge, one of the answers that raced. -/
theorem races_settled_logins : (Mutex.received sampleLogins).countP (fun x => enrolls "alice" x = true) ≤ 1 ∧
    (Mutex.received sampleLogins).countP (fun x => spends "alice" x = true) ≤
      (Mutex.invocations sampleLogins).countP (fun x => x.2 = .issueChallenge "alice") := by
  obtain ⟨c,hrun,_⟩ := sampleLogins_served .release
  exact races_settled hrun "alice"

end

/-- A verification for `u` that got a verdict. -/
def judges (u : String) : Request × Reply → Bool
  | (.verify req,.ok _) => req.userId == u
  | _ => false

theorem judgedBetween_of_judges {u : String} {a b : ℕ} {e : Event} (h : judges u (exchange e) = true)
    (ha : a ≤ e.input.env.limitNow.toNat) (hb : e.input.env.limitNow.toNat ≤ b) : judgedBetween u a b e = true := by
  unfold judges exchange at h
  split at h
  · rename_i req resp hexchange
    obtain ⟨hrequest,hreply⟩ := Prod.mk.inj hexchange
    simp only [judgedBetween, hrequest, hreply, h, ha, hb, decide_true, Bool.and_true]
    rfl
  · cases h

/-- Guessing over many connections gains nothing: all verdicts that clients got
for a user together stay within the bound for one queue. -/
theorem parallel_guesses_le (hrun : Served crates build R serverId boot ls c)
    (hclock : ∀ a b, R a b → SystemTime.NotAfter a b)
    (hfew : (Mutex.invocations ls).card < 2 ^ 32) (u : String) :
    (Mutex.received ls).countP (fun x => judges u x = true) ≤
      5 * ((c.clock.secs.toNat - boot.secs.toNat) / 301) + 9 := by
  obtain ⟨xs,htimes,hreceived,hrequested⟩ := service_received hrun
  have hcount := Multiset.card_le_card hrequested
  rw [Multiset.coe_card, List.length_map, Multiset.card_map] at hcount
  -- where the clock never steps back, neither do the seconds it gives
  have hordered := (htimes.imp (hclock _ _)).map SystemTime.secs fun _ _ h => h.secs_le
  rw [List.map_cons, List.map_append, secs_readings] at hordered
  obtain ⟨hstart,hrest⟩ := List.pairwise_cons.mp hordered
  obtain ⟨hchron,_,hend⟩ := List.pairwise_append.mp hrest
  have hreading {e : Event} (he : e ∈ history crates serverId (xs.map TimedCall.call)) :
      e.input.env.limitNow ∈ (xs.map TimedCall.call).flatMap
        fun c => [c.env.limitNow,c.env.ts,c.env.auditNow] :=
    List.mem_flatMap.mpr ⟨e.input,Machine.input_mem he,by simp⟩
  have hfits : CounterFits u (history crates serverId (xs.map TimedCall.call)) :=
    counterFits_of_length (by rw [List.length_map]; exact Nat.lt_of_le_of_lt hcount hfew)
  have hnow : boot.secs.toNat ≤ c.clock.secs.toNat := UInt64.le_iff_toNat_le.mp (hstart _ (by simp))
  have hbound := countP_passesBetween_le hchron hfits hnow
  have hmono : ((history crates serverId (xs.map TimedCall.call)).map exchange).countP (judges u) ≤
      (history crates serverId (xs.map TimedCall.call)).countP
        (passesBetween u boot.secs.toNat c.clock.secs.toNat) := by
    rw [List.countP_map]
    apply List.countP_mono_left
    intro e he hjudged
    obtain ⟨k,hk⟩ := List.mem_iff_getElem?.mp he
    have hlow := UInt64.le_iff_toNat_le.mp (hstart _ (List.mem_append_left _ (hreading he)))
    have hhigh := UInt64.le_iff_toNat_le.mp (hend _ (hreading he) _ (List.mem_singleton_self _))
    exact judged_passes hk (judgedBetween_of_judges hjudged hlow hhigh)
  have hanswers := Multiset.countP_le_of_le (fun x => judges u x = true) hreceived
  rw [Multiset.coe_countP] at hanswers
  simp only [Bool.decide_eq_true] at hanswers
  have htotal : (Mutex.received ls).countP (fun x => judges u x = true) ≤ _ := hanswers.trans (hmono.trans hbound)
  omega

/-- Of three verifications at once two got a verdict, within ten seconds. -/
theorem parallel_guesses_le_logins :
    (Mutex.received sampleLogins).countP (fun x => judges "alice" x = true) ≤
      5 * (((1010 : UInt64).toNat - (1000 : UInt64).toNat) / 301) + 9 := by
  obtain ⟨c,hrun,hclock⟩ := sampleLogins_served .checked
  have hle := parallel_guesses_le hrun (fun _ _ h => h) (by decide) "alice"
  rwa [hclock] at hle

end

end PqAuth.PqAuthServer
