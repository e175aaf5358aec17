import PqAuth.Server.BruteForce
import PqAuth.Server.Linearizability

/-! Requests under way are answered. What could keep a client waiting is a lock
that is not given back, or a mutex poisoned by a panic in the limiter or at the
reading of a clock before 1970. -/
namespace PqAuth.PqAuthServer
open Locked
variable {crates : Crates} {serverId : String} {calls : List Call}

/-- With a clock that never steps back the limiter's arithmetic fits at every call. -/
theorem fits_at (hchron : Chronological calls) (hfew : calls.length < 2 ^ 32) {k : ℕ} {e : Event}
    (he : (history crates serverId calls)[k]? = some e) (u : String) : Fits e.before e.input.env u := by
  have hk : k < calls.length := (List.getElem?_eq_some_iff.mp (Machine.input_at he)).1
  have hbefore : e.before = final crates serverId (calls.take k) := Machine.before_at he
  intro n start hentry
  rw [hbefore] at hentry
  obtain ⟨hn,d,hd,rfl⟩ := entry_bounded hentry
  have hlen := List.length_take_le k calls
  refine ⟨UInt64.le_iff_toNat_le.mp (limitNow_le (chronological_at hchron he) hd),?_⟩
  intro _
  omega

section
variable {build : Build} {R : SystemTime → SystemTime → Prop} [Std.Refl R] [IsTrans SystemTime R] {τ : Type}
  [DecidableEq τ] {boot : SystemTime} {ls : List (Mutex.Label τ Request Reply SystemTime)}
  {c : Mutex.Config τ Request Reply ServerInner SystemTime Draw.Value}

/-- No input of an execution aborts whose readings are from 1970 on and whose
arithmetic fits. -/
theorem safe_of (build : Build) {requests : Multiset (τ × Request)} (hepoch : ∀ t, R boot t → t.isSome = true)
    (h : build = .release ∨ (∀ a b, R a b → SystemTime.NotAfter a b) ∧ requests.card < 2 ^ 32) :
    Mutex.Safe R (object crates build) (new serverId) boot requests := by
  rintro ps a hatomic rfl e he
  have hreadings := readings_atomic hatomic
  have hsome {t : SystemTime} (ht : t ∈ readings e.input) : t.isSome = true :=
    hepoch t ((List.pairwise_cons.mp hreadings).1 t
      (List.mem_append_left _ (List.mem_flatMap.mpr ⟨e.input,Machine.input_mem he,ht⟩)))
  obtain ⟨now,hnow⟩ := Option.isSome_iff_exists.mp (hsome (t := e.input.limitNow) (by simp [readings]))
  have hlimit : limiterAborts build e.before e.input = false := by
    refine limiterAborts_of_fits hnow (h.imp_right ?_)
    rintro ⟨hclock,hfew⟩ u _
    have hmem := List.mem_map_of_mem (f := Machine.Event.map id TimedCall.call) he
    rw [history_object] at hmem
    obtain ⟨k,hk⟩ := List.mem_iff_getElem?.mp hmem
    have hchron : Chronological ((Mutex.calls ps).map TimedCall.call) := by
      rw [Chronological, ← secs_readings]
      exact ((readings_pairwise_atomic hatomic).imp (hclock _ _)).map SystemTime.secs fun _ _ h => h.secs_le
    have hcount := Multiset.card_le_card (hatomic.requested fun _ => rfl)
    rw [Multiset.coe_card, List.length_map, Multiset.card_map] at hcount
    have hlen : ((Mutex.calls ps).map TimedCall.call).length < 2 ^ 32 := by
      rw [List.length_map]
      exact Nat.lt_of_le_of_lt hcount hfew
    have hsecs : e.input.limitNow.secs = now := by rw [hnow]; rfl
    intro n start hentry
    rw [envAt, ← hsecs]
    exact fits_at hchron hlen hk u n start hentry
  have hlater : (later e.input).any Option.isNone = false := by
    rw [List.any_eq_false]
    intro t ht hnone
    rw [Option.isNone_iff_eq_none] at hnone
    exact absurd (hsome (later_subset e.input ht)) (by rw [hnone]; decide)
  change abortsIn crates build e.before e.input = false
  rw [abortsIn, hlimit, hlater, Bool.and_false]
  rfl

/-- Under any schedule no client gets a panic and no request waits for ever, with a
clock from 1970 on. In the build with overflow checks this also takes a clock that never
steps back and fewer requests than the counter can count. -/
theorem service_available (hrun : Served crates build R serverId boot ls c)
    (hepoch : ∀ t, R boot t → t.isSome = true)
    (hsafe : build = .release ∨
      (∀ a b, R a b → SystemTime.NotAfter a b) ∧ (Mutex.invocations ls).card < 2 ^ 32) :
    c.poisoned = false ∧ (∀ x ∈ Mutex.replies ls, x.2.2.isSome = true) ∧
      ∀ t request, (c.threads t).phase = .pending request →
        ∃ reply c', Mutex.Run (handler crates build) R c [.reply t request (some reply)] c' := by
  have hsafe' := @safe_of crates serverId R _ _ τ _ boot build _ hepoch hsafe
  obtain ⟨hpoisoned,hreplies⟩ := hrun.sound handler_implements hsafe'
  exact ⟨hpoisoned,hreplies,fun t request ht => hrun.available handler_implements sampleDraws hsafe' ht⟩

end

section
open Transparent

/-- One thread holds the lock for Alice's enrollment and a second one waits for it. -/
def contention : List (Mutex.Label Bool Request Reply SystemTime) :=
  [.invoke false (.enrollBegin "alice"),.invoke true (.enrollBegin "alice")]

private theorem contention_served : ∃ c,
    Served Transparent.crates .checked SystemTime.NotAfter "example.org" (some 1000) contention c ∧
      c.holder = some false ∧ (c.threads true).phase = .pending (.enrollBegin "alice") :=
  ⟨_,.cons (.invoke rfl) <| .cons (.lock (t := false) rfl rfl rfl) <| .cons (.invoke rfl) .nil,rfl,rfl⟩

/-- The one that waits is answered after the other. -/
theorem service_available_contended : ∃ c,
    Served Transparent.crates .checked SystemTime.NotAfter "example.org" (some 1000) contention c ∧
      c.holder = some false ∧ ∃ reply c', Mutex.Run (handler Transparent.crates .checked) SystemTime.NotAfter c
        [.reply true (.enrollBegin "alice") (some reply)] c' := by
  obtain ⟨c,hrun,hheld,hpending⟩ := contention_served
  have havailable := service_available hrun (fun t ht => SystemTime.NotAfter.isSome ht rfl)
    (Or.inr ⟨fun _ _ h => h,by decide⟩)
  exact ⟨c,hrun,hheld,havailable.2.2 true _ hpending⟩

/-- With a clock before 1970 the first enrollment poisons the mutex, in either build. -/
example (build : Build) : ∃ c, Served Transparent.crates build SystemTime.NotAfter "example.org" none
    [.invoke false (.enrollBegin "alice"),.reply false (.enrollBegin "alice") none] c ∧ c.poisoned = true := by
  obtain ⟨s,hpanic⟩ : ∃ s, (handler Transparent.crates build (.enrollBegin "alice")).outcome none sampleDraws
      (new "example.org") = (none,s) := ⟨_,rfl⟩
  exact ⟨_,.cons (.invoke rfl) <| .served (t := false) hpanic rfl rfl rfl <| .cons (.reply rfl) .nil,rfl⟩

end

end PqAuth.PqAuthServer
