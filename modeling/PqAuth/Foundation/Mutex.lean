import Mathlib.Algebra.Order.Group.Multiset
import Mathlib.Data.List.Chain
import PqAuth.Foundation.CriticalSection
import PqAuth.Foundation.Poison

/-! Threads that share a value behind a mutex. Each locks it, runs a critical
section one access at a time and unlocks it. A section that panics poisons the
mutex. Any such execution is one of an object that answers in a single step. -/
namespace PqAuth.Mutex
variable {τ ι ο κ σ θ δ : Type} {A : δ → Type}

/-- What can be seen from outside; an answer of none is a panic. -/
inductive Label (τ ι ο θ : Type) where
  | invoke (t : τ) (i : ι)
  | reply (t : τ) (i : ι) (o : Option ο)
  | advance (now : θ)

inductive Thread (ι ο σ θ : Type) {δ : Type} (A : δ → Type) where
  | idle
  | waiting (i : ι)
  | inside (i : ι) (p : Critical σ θ A ο)
  | finished (i : ι) (o : Option ο)

structure Config (τ ι ο σ θ : Type) {δ : Type} (A : δ → Type) where
  shared : σ
  poisoned : Bool
  holder : Option τ
  clock : θ
  threads : τ → Thread ι ο σ θ A

def Config.start (s : σ) (now : θ) : Config τ ι ο σ θ A := ⟨s,false,none,now,fun _ => .idle⟩

/-- The object the mutex protects, as a machine. An input `κ` is a request with
the readings and draws made for it. -/
structure Object (ι ο κ σ θ : Type) where
  step : σ → κ → ο × σ
  aborts : σ → κ → Bool
  input : κ → ι
  times : κ → List θ

def Object.atomic (obj : Object ι ο κ σ θ) : Option σ → κ → Option ο × Option σ := Poison.step obj.aborts obj.step

section
variable [DecidableEq τ] (prog : ι → Critical σ θ A ο) (R : θ → θ → Prop)

/-- One access by one thread, or the clock moving on. -/
inductive Step (c : Config τ ι ο σ θ A) : Option (Label τ ι ο θ) → Config τ ι ο σ θ A → Prop
  | invoke {t i} (ht : c.threads t = .idle) :
      Step c (some (.invoke t i)) { c with threads := Function.update c.threads t (.waiting i) }
  | lock {t i} (ht : c.threads t = .waiting i) (hfree : c.holder = none) (hp : c.poisoned = false) :
      Step c none { c with holder := some t, threads := Function.update c.threads t (.inside i (prog i)) }
  | lockPoisoned {t i} (ht : c.threads t = .waiting i) (hfree : c.holder = none) (hp : c.poisoned = true) :
      Step c none { c with threads := Function.update c.threads t (.finished i none) }
  | load {t i k} (ht : c.threads t = .inside i (.load k)) :
      Step c none { c with threads := Function.update c.threads t (.inside i (k c.shared)) }
  | store {t i s k} (ht : c.threads t = .inside i (.store s k)) :
      Step c none { c with shared := s, threads := Function.update c.threads t (.inside i k) }
  | clock {t i k} (ht : c.threads t = .inside i (.clock k)) :
      Step c none { c with threads := Function.update c.threads t (.inside i (k c.clock)) }
  | random {t i d k} (ht : c.threads t = .inside i (.random d k)) (a : A d) :
      Step c none { c with threads := Function.update c.threads t (.inside i (k a)) }
  | unlock {t i o} (ht : c.threads t = .inside i (.done o)) :
      Step c none { c with holder := none, threads := Function.update c.threads t (.finished i (some o)) }
  | panic {t i} (ht : c.threads t = .inside i .abort) :
      Step c none
        { c with poisoned := true, holder := none, threads := Function.update c.threads t (.finished i none) }
  | reply {t i o} (ht : c.threads t = .finished i o) :
      Step c (some (.reply t i o)) { c with threads := Function.update c.threads t .idle }
  | advance {now} (h : R c.clock now) : Step c (some (.advance now)) { c with clock := now }

inductive Run : Config τ ι ο σ θ A → List (Label τ ι ο θ) → Config τ ι ο σ θ A → Prop
  | nil {c} : Run c [] c
  | cons {c l c' ls c''} (h : Step prog R c l c') (hs : Run c' ls c'') : Run c (l.toList ++ ls) c''

end

/-! The object without a lock. -/

inductive Phase (ι ο : Type) where
  | idle
  | pending (i : ι)
  | finished (i : ι) (o : Option ο)

structure State (τ ι ο σ θ : Type) where
  state : Option σ
  /-- When the last input was answered. -/
  since : θ
  clock : θ
  phases : τ → Phase ι ο

def State.start (s : σ) (now : θ) : State τ ι ο σ θ := ⟨some s,now,now,fun _ => .idle⟩

inductive Point (τ ι ο κ θ : Type) where
  | visible (l : Label τ ι ο θ)
  | commit (t : τ) (c : κ) (o : Option ο)

section
variable [DecidableEq τ] (obj : Object ι ο κ σ θ) (R : θ → θ → Prop)

/-- Between its invocation and its reply an input takes effect at one point. -/
inductive Atomic (a : State τ ι ο σ θ) : Point τ ι ο κ θ → State τ ι ο σ θ → Prop
  | invoke {t i} (ht : a.phases t = .idle) :
      Atomic a (.visible (.invoke t i)) { a with phases := Function.update a.phases t (.pending i) }
  | commit {t c o s} (ht : a.phases t = .pending (obj.input c))
      (htimes : (a.since :: (obj.times c ++ [a.clock])).Pairwise R) (ho : obj.atomic a.state c = (o,s)) :
      Atomic a (.commit t c o)
        ⟨s,a.clock,a.clock,Function.update a.phases t (.finished (obj.input c) o)⟩
  | reply {t i o} (ht : a.phases t = .finished i o) :
      Atomic a (.visible (.reply t i o)) { a with phases := Function.update a.phases t .idle }
  | advance {now} (h : R a.clock now) : Atomic a (.visible (.advance now)) { a with clock := now }

inductive AtomicRun : State τ ι ο σ θ → List (Point τ ι ο κ θ) → State τ ι ο σ θ → Prop
  | nil {a} : AtomicRun a [] a
  | cons {a p a' ps a''} (h : Atomic obj R a p a') (hs : AtomicRun a' ps a'') : AtomicRun a (p :: ps) a''

end

def Point.label : Point τ ι ο κ θ → Option (Label τ ι ο θ)
  | visible l => some l
  | commit .. => none

def Point.effect : Point τ ι ο κ θ → Option (κ × Option ο)
  | visible _ => none
  | commit _ c o => some (c,o)

/-- The trace of an atomic run. -/
def labels (ps : List (Point τ ι ο κ θ)) : List (Label τ ι ο θ) := ps.filterMap Point.label

/-- The inputs that took effect and their answers, in that order. -/
def effects (ps : List (Point τ ι ο κ θ)) : List (κ × Option ο) := ps.filterMap Point.effect

def calls (ps : List (Point τ ι ο κ θ)) : List κ := (effects ps).map Prod.fst

/-- The requests that were answered, with the threads that made them. -/
def replies (ls : List (Label τ ι ο θ)) : Multiset (τ × ι × Option ο) :=
  ls.filterMap fun
    | .reply t i o => some (t,i,o)
    | _ => none

def invocations (ls : List (Label τ ι ο θ)) : Multiset (τ × ι) :=
  ls.filterMap fun
    | .invoke t i => some (t,i)
    | _ => none

/-- The inputs that took effect, as requests. -/
def answers (obj : Object ι ο κ σ θ) (ps : List (Point τ ι ο κ θ)) : Multiset (τ × ι × Option ο) :=
  ps.filterMap fun
    | .commit t c o => some (t,obj.input c,o)
    | _ => none

/-! A critical section performs an input of the object. -/

/-- What a section that started at `s` and `lo` has done: one step on some input. -/
def Performs (R : θ → θ → Prop) (obj : Object ι ο κ σ θ) (i : ι) (s : σ) (lo : θ) (r : Option ο) (s' : σ)
    (last : θ) : Prop :=
  ∃ c, obj.input c = i ∧ (lo :: (obj.times c ++ [last])).Pairwise R ∧
    obj.atomic (some s) c = (r,r.map fun _ => s')

structure Implements (R : θ → θ → Prop) (prog : ι → Critical σ θ A ο) (obj : Object ι ο κ σ θ) : Prop where
  performs : ∀ i s lo, (prog i).wp R (Performs R obj i s lo) s lo
  /-- Every request has an input with all its readings at one time. -/
  instant : ∀ i now, ∃ c, obj.input c = i ∧ ∀ t ∈ obj.times c, t = now

theorem Performs.of_abort {R : θ → θ → Prop} {obj : Object ι ο κ σ θ} {s : σ} {lo last : θ} {c : κ}
    (ha : obj.aborts s c = true) (htimes : (lo :: (obj.times c ++ [last])).Pairwise R) (s' : σ) :
    Performs R obj (obj.input c) s lo none s' last :=
  ⟨c,rfl,htimes,if_pos ha⟩

def Thread.phase : Thread ι ο σ θ A → Phase ι ο
  | idle => .idle
  | waiting i => .pending i
  | inside i _ => .pending i
  | finished i o => .finished i o

/-- The thread at the lock is in the middle of a section that started from the
state of the object; without one the object is as the shared value says. -/
inductive Agrees (R : θ → θ → Prop) (obj : Object ι ο κ σ θ) (c : Config τ ι ο σ θ A) (a : State τ ι ο σ θ) : Prop
  | free (hfree : c.holder = none) (hstate : a.state = if c.poisoned then none else some c.shared)
  | held {t i p s lo last} (hheld : c.holder = some t) (hp : c.poisoned = false)
      (ht : c.threads t = .inside i p) (hstate : a.state = some s) (hlo : R a.since lo) (hlast : R last c.clock)
      (hwp : p.wp R (Performs R obj i s lo) c.shared last)

structure Simulates (R : θ → θ → Prop) (obj : Object ι ο κ σ θ) (c : Config τ ι ο σ θ A) (a : State τ ι ο σ θ) :
    Prop where
  phases : a.phases = fun t => (c.threads t).phase
  clock : a.clock = c.clock
  since : R a.since c.clock
  exclusive : ∀ t i p, c.threads t = .inside i p → c.holder = some t
  agrees : Agrees R obj c a

section
variable [DecidableEq τ] {R : θ → θ → Prop} {obj : Object ι ο κ σ θ} {prog : ι → Critical σ θ A ο}
  {c c' : Config τ ι ο σ θ A} {a a' : State τ ι ο σ θ}

theorem phases_update (threads : τ → Thread ι ο σ θ A) (t : τ) (x : Thread ι ο σ θ A) :
    (fun u => (Function.update threads t x u).phase) = Function.update (fun u => (threads u).phase) t x.phase :=
  Function.comp_update Thread.phase threads t x

omit [DecidableEq τ] in
/-- A thread inside is the one whose section is under way. -/
theorem Simulates.section {t : τ} {i : ι} {p : Critical σ θ A ο} (h : Simulates R obj c a)
    (ht : c.threads t = .inside i p) : c.holder = some t ∧ c.poisoned = false ∧ ∃ s lo last,
      a.state = some s ∧ R a.since lo ∧ R last c.clock ∧ p.wp R (Performs R obj i s lo) c.shared last := by
  have hheld := h.exclusive t i p ht
  cases h.agrees with
  | free hfree => rw [hheld] at hfree; cases hfree
  | held hheld' hp ht' hstate hlo hlast hwp =>
    obtain rfl := Option.some.inj (hheld.symm.trans hheld')
    obtain ⟨rfl,rfl⟩ := Thread.inside.inj (ht.symm.trans ht')
    exact ⟨hheld,hp,_,_,_,hstate,hlo,hlast,hwp⟩

/-- An access inside a section leaves the object alone. -/
theorem Simulates.access {t : τ} {i : ι} {p p' : Critical σ θ A ο} {s' : σ} (h : Simulates R obj c a)
    (ht : c.threads t = .inside i p)
    (hwp : ∀ Q last, R last c.clock → p.wp R Q c.shared last → ∃ last', R last' c.clock ∧ p'.wp R Q s' last') :
    Simulates R obj { c with shared := s', threads := Function.update c.threads t (.inside i p') } a := by
  obtain ⟨hheld,hp,s,lo,last,hstate,hlo,hlast,hold⟩ := h.section ht
  obtain ⟨last',hlast',hnew⟩ := hwp _ last hlast hold
  refine ⟨?_,h.clock,h.since,?_,.held hheld hp (Function.update_self ..) hstate hlo hlast' hnew⟩
  · rw [phases_update, h.phases, Function.eq_update_iff]
    exact ⟨by rw [ht]; rfl,fun _ _ => rfl⟩
  · intro u j q hu
    by_cases hut : u = t
    · exact hut ▸ hheld
    · exact h.exclusive u j q (by simpa [hut] using hu)

omit [DecidableEq τ] in
/-- Readings that end where others begin, without the reading they share. -/
theorem pairwise_join [IsTrans θ R] {y : θ} {l r : List θ} (h : (l ++ [y]).Pairwise R)
    (h' : (y :: r).Pairwise R) : (l ++ r).Pairwise R := by
  have hchain : (l ++ y :: r).IsChain R := List.isChain_split.mpr ⟨h.isChain,h'.isChain⟩
  exact (List.isChain_iff_pairwise.mp hchain).sublist ((List.sublist_cons_self y r).append_left l)

omit [DecidableEq τ] in
/-- The readings of a section lie between the last answer and the present. -/
theorem pairwise_within [IsTrans θ R] {since lo last clock : θ} {times : List θ} (hlo : R since lo)
    (hlast : R last clock) (h : (lo :: (times ++ [last])).Pairwise R) : (since :: (times ++ [clock])).Pairwise R := by
  have hrest : (lo :: times ++ [clock]).Pairwise R := pairwise_join h (List.pairwise_pair.mpr hlast)
  exact pairwise_join (l := [since]) (List.pairwise_pair.mpr hlo) hrest

omit [DecidableEq τ] in
theorem Simulates.pending {t : τ} {i : ι} (h : Simulates R obj c a) (ht : c.threads t = .waiting i) :
    a.phases t = .pending i := by
  rw [h.phases]
  exact congrArg Thread.phase ht

omit [DecidableEq τ] in
theorem Simulates.inside_pending {t : τ} {i : ι} {p : Critical σ θ A ο} (h : Simulates R obj c a)
    (ht : c.threads t = .inside i p) : a.phases t = .pending i := by
  rw [h.phases]
  exact congrArg Thread.phase ht

/-- A thread that is not inside moves on to a phase that is not inside. -/
theorem Simulates.outside {t : τ} {x : Thread ι ο σ θ A} (h : Simulates R obj c a)
    (ht : ∀ i p, c.threads t ≠ .inside i p) (hx : ∀ i p, x ≠ .inside i p) :
    Simulates R obj { c with threads := Function.update c.threads t x }
      { a with phases := Function.update a.phases t x.phase } := by
  refine ⟨?_,h.clock,h.since,?_,?_⟩
  · rw [phases_update, h.phases]
  · intro u j q hu
    by_cases hut : u = t
    · subst hut
      exact absurd ((Function.update_self ..).symm.trans hu) (hx j q)
    · exact h.exclusive u j q (by simpa [hut] using hu)
  · cases h.agrees with
    | free hfree hstate => exact .free hfree hstate
    | held hheld hp hin hstate hlo hlast hwp =>
      refine .held hheld hp ?_ hstate hlo hlast hwp
      rw [← hin]
      apply Function.update_of_ne
      rintro rfl
      exact ht _ _ hin

/-- The thread at the lock leaves. -/
theorem Simulates.leave {t : τ} {i : ι} {p : Critical σ θ A ο} (o : Option ο) (poisoned : Bool)
    (h : Simulates R obj c a) (hrefl : R c.clock c.clock) (ht : c.threads t = .inside i p) :
    Simulates R obj
      { c with poisoned := poisoned, holder := none, threads := Function.update c.threads t (.finished i o) }
      ⟨if poisoned then none else some c.shared,a.clock,a.clock,Function.update a.phases t (.finished i o)⟩ := by
  refine ⟨?_,h.clock,h.clock ▸ hrefl,?_,.free rfl rfl⟩
  · rw [phases_update, h.phases]
    rfl
  · intro u j q hu
    by_cases hut : u = t
    · subst hut
      exact absurd ((Function.update_self ..).symm.trans hu) (by simp)
    · have hother := h.exclusive u j q (by simpa [hut] using hu)
      exact absurd (Option.some.inj (hother.symm.trans (h.section ht).1)) hut

/-- An input whose readings are all the present takes effect when none is under way. -/
theorem pairwise_instant [IsTrans θ R] {since clock : θ} {times : List θ} (hrefl : R clock clock)
    (hsince : R since clock) (h : ∀ t ∈ times, t = clock) : (since :: (times ++ [clock])).Pairwise R := by
  have hall : ∀ t ∈ times ++ [clock], t = clock := by
    intro t ht
    rcases List.mem_append.mp ht with ht | ht
    · exact h t ht
    · exact List.mem_singleton.mp ht
  refine List.pairwise_cons.mpr ⟨fun t ht => hall t ht ▸ hsince,?_⟩
  apply List.pairwise_of_forall_mem_list
  intro t ht u hu
  rw [hall t ht, hall u hu]
  exact hrefl

theorem AtomicRun.single {a a' : State τ ι ο σ θ} {p : Point τ ι ο κ θ} (h : Atomic obj R a p a') :
    AtomicRun obj R a [p] a' := .cons h .nil

theorem Atomic.commitAs {a : State τ ι ο σ θ} {t : τ} {i : ι} {call : κ} {o : Option ο} {s : Option σ}
    (ht : a.phases t = .pending i) (hinput : obj.input call = i)
    (htimes : (a.since :: (obj.times call ++ [a.clock])).Pairwise R) (ho : obj.atomic a.state call = (o,s)) :
    Atomic obj R a (.commit t call o)
      ⟨s,a.clock,a.clock,Function.update a.phases t (.finished i o)⟩ := by
  subst hinput
  exact .commit ht htimes ho

/-- One access by one thread is at most one point of the object. -/
theorem Simulates.step [Std.Refl R] [IsTrans θ R] (hi : Implements R prog obj) (h : Simulates R obj c a)
    {l : Option (Label τ ι ο θ)} (hs : Step prog R c l c') :
    ∃ ps a', AtomicRun obj R a ps a' ∧ labels ps = l.toList ∧ Simulates R obj c' a' := by
  cases hs with
  | invoke ht =>
    refine ⟨_,_,.single (.invoke ?_),rfl,h.outside (x := .waiting _) ?_ ?_⟩
    · rw [h.phases]
      exact congrArg Thread.phase ht
    · simp [ht]
    · simp
  | @lock t i ht hfree hp =>
    refine ⟨[],a,.nil,rfl,?_,h.clock,h.since,?_,?_⟩
    · rw [phases_update, h.phases, Function.eq_update_iff]
      exact ⟨by rw [ht]; rfl,fun _ _ => rfl⟩
    · intro u j q hu
      by_cases hut : u = t
      · exact congrArg some hut.symm
      · have hother := h.exclusive u j q (by simpa [hut] using hu)
        rw [hfree] at hother
        cases hother
    · cases h.agrees with
      | free _ hstate =>
        rw [hp] at hstate
        exact .held rfl hp (Function.update_self ..) hstate h.since (refl_of R _) (hi.performs i c.shared c.clock)
      | held hheld => rw [hfree] at hheld; cases hheld
  | @lockPoisoned t i ht hfree hp =>
    obtain ⟨call,hinput,htimes⟩ := hi.instant i c.clock
    have hstate : a.state = none := by
      cases h.agrees with
      | free _ hstate => rwa [hp] at hstate
      | held hheld => rw [hfree] at hheld; cases hheld
    have hanswer : obj.atomic a.state call = (none,none) := by
      rw [hstate]
      rfl
    have hcommit := Atomic.commitAs (h.pending ht) hinput
      (h.clock ▸ pairwise_instant (refl_of R _) h.since htimes) hanswer
    refine ⟨_,_,.single hcommit,rfl,?_⟩
    have hout := h.outside (t := t) (x := .finished i none) (by simp [ht]) (by simp)
    refine ⟨hout.phases,h.clock,h.clock ▸ refl_of R _,hout.exclusive,.free hfree ?_⟩
    rw [hp]
    rfl
  | load ht => exact ⟨[],a,.nil,rfl,h.access ht fun Q last hlast hwp => ⟨last,hlast,hwp⟩⟩
  | store ht => exact ⟨[],a,.nil,rfl,h.access ht fun Q last hlast hwp => ⟨last,hlast,hwp⟩⟩
  | clock ht => exact ⟨[],a,.nil,rfl,h.access ht fun Q last hlast hwp => ⟨_,refl_of R _,hwp _ hlast⟩⟩
  | random ht x => exact ⟨[],a,.nil,rfl,h.access ht fun Q last hlast hwp => ⟨last,hlast,hwp x⟩⟩
  | @unlock _ _ o ht =>
    obtain ⟨_,hp,s,lo,last,hstate,hlo,hlast,call,hinput,htimes,hanswer⟩ := h.section ht
    refine ⟨_,_,.single (Atomic.commitAs (h.inside_pending ht) hinput
      (h.clock ▸ pairwise_within hlo hlast htimes) (hstate ▸ hanswer)),rfl,?_⟩
    have hleave := h.leave (some o) c.poisoned (refl_of R _) ht
    have hsound : (if c.poisoned then none else some c.shared) = some c.shared := by rw [hp]; rfl
    rwa [hsound] at hleave
  | panic ht =>
    obtain ⟨_,hp,s,lo,last,hstate,hlo,hlast,call,hinput,htimes,hanswer⟩ := h.section ht
    exact ⟨_,_,.single (Atomic.commitAs (h.inside_pending ht) hinput
      (h.clock ▸ pairwise_within hlo hlast htimes) (hstate ▸ hanswer)),rfl,h.leave none true (refl_of R _) ht⟩
  | reply ht =>
    refine ⟨_,_,.single (.reply ?_),rfl,h.outside (x := .idle) ?_ ?_⟩
    · rw [h.phases]
      exact congrArg Thread.phase ht
    · simp [ht]
    · simp
  | advance hnow =>
    refine ⟨_,_,.single (.advance (h.clock ▸ hnow)),rfl,h.phases,rfl,trans_of R h.since hnow,h.exclusive,?_⟩
    cases h.agrees with
    | free hfree hstate => exact .free hfree hstate
    | held hheld hp hin hstate hlo hlast hwp => exact .held hheld hp hin hstate hlo (trans_of R hlast hnow) hwp

theorem AtomicRun.append {a a' a'' : State τ ι ο σ θ} {ps qs : List (Point τ ι ο κ θ)}
    (h : AtomicRun obj R a ps a') (h' : AtomicRun obj R a' qs a'') : AtomicRun obj R a (ps ++ qs) a'' := by
  induction h with
  | nil => exact h'
  | cons hp _ ih => exact .cons hp (ih h')

omit [DecidableEq τ] in
theorem Simulates.start [Std.Refl R] (s : σ) (now : θ) :
    Simulates R obj (Config.start s now : Config τ ι ο σ θ A) (.start s now) := by
  refine ⟨rfl,rfl,refl_of R now,?_,.free rfl rfl⟩
  intro t i p h
  cases h

/-- Whatever the threads do, each request took effect at one point between its
invocation and its reply, and while nobody holds the lock the shared value is
what these points made of it. -/
theorem linearizable [Std.Refl R] [IsTrans θ R] (hi : Implements R prog obj) (h : Simulates R obj c a)
    {ls : List (Label τ ι ο θ)} (hrun : Run prog R c ls c') :
    ∃ ps a', AtomicRun obj R a ps a' ∧ labels ps = ls ∧ Simulates R obj c' a' := by
  induction hrun generalizing a with
  | nil => exact ⟨[],a,.nil,rfl,h⟩
  | cons hs _ ih =>
    obtain ⟨ps,a₁,hps,hl,h₁⟩ := h.step hi hs
    obtain ⟨qs,a₂,hqs,hl',h₂⟩ := ih h₁
    refine ⟨ps ++ qs,a₂,hps.append hqs,?_,h₂⟩
    rw [labels, List.filterMap_append, ← hl, ← hl']
    rfl

omit [DecidableEq τ] in
theorem Simulates.state_eq (h : Simulates R obj c a) (hfree : c.holder = none) :
    a.state = if c.poisoned then none else some c.shared := by
  cases h.agrees with
  | free _ hstate => exact hstate
  | held hheld => rw [hfree] at hheld; cases hheld

/-! What an atomic run amounts to. -/

/-- Its answers are those of the object to the inputs in the order they took effect. -/
theorem AtomicRun.history {ps : List (Point τ ι ο κ θ)} (h : AtomicRun obj R a ps a') :
    effects ps = (Machine.history obj.atomic a.state (calls ps)).map (fun e => (e.input,e.output)) ∧
      a'.state = Machine.final obj.atomic a.state (calls ps) := by
  induction h with
  | nil => exact ⟨rfl,rfl⟩
  | cons hp _ ih =>
    cases hp with
    | commit _ _ ho =>
      rw [calls, effects, List.filterMap_cons] 
      simp only [Point.effect, List.map_cons, Machine.history_cons, Machine.final_cons, Machine.event, ho]
      exact ⟨congrArg (_ :: ·) ih.1,ih.2⟩
    | invoke => exact ih
    | reply => exact ih
    | advance => exact ih

/-- The readings advance from one input to the next. -/
theorem AtomicRun.times [Std.Refl R] [IsTrans θ R] {ps : List (Point τ ι ο κ θ)} (h : AtomicRun obj R a ps a')
    (hsince : R a.since a.clock) :
    R a'.since a'.clock ∧ (a.since :: ((calls ps).flatMap obj.times ++ [a'.since])).Pairwise R := by
  induction h with
  | nil => exact ⟨hsince,List.pairwise_pair.mpr (refl_of R _)⟩
  | cons hp _ ih =>
    cases hp with
    | @commit _ c _ _ _ htimes _ =>
      obtain ⟨hclock,hrest⟩ := ih (refl_of R _)
      refine ⟨hclock,?_⟩
      rw [calls, effects, List.filterMap_cons, Point.effect, List.map_cons, List.flatMap_cons, List.append_assoc,
        ← List.cons_append]
      exact pairwise_join htimes hrest
    | advance hnow => exact ih (trans_of R hsince hnow)
    | invoke => exact ih hsince
    | reply => exact ih hsince

private theorem of_update {phases : τ → Phase ι ο} {t u : τ} {x y : Phase ι ο}
    (h : Function.update phases t x u = y) : (u = t ∧ x = y) ∨ (u ≠ t ∧ phases u = y) := by
  by_cases hut : u = t
  · subst hut
    exact Or.inl ⟨rfl,by rwa [Function.update_self] at h⟩
  · exact Or.inr ⟨hut,by rwa [Function.update_of_ne hut] at h⟩

/-- The answers not yet replied, `owed`, belong to threads that are finished. -/
theorem AtomicRun.balance {ps : List (Point τ ι ο κ θ)} (h : AtomicRun obj R a ps a')
    {owed : Multiset (τ × ι × Option ο)} (howed : ∀ t i o, a.phases t = .finished i o → (t,i,o) ∈ owed) :
    ∃ owed', replies (labels ps) + owed' = answers obj ps + owed ∧
      ∀ t i o, a'.phases t = .finished i o → (t,i,o) ∈ owed' := by
  induction h generalizing owed with
  | nil => exact ⟨owed,rfl,howed⟩
  | @cons a _ _ _ _ hp _ ih =>
    cases hp with
    | invoke ht =>
      apply ih
      intro u j o hu
      rcases of_update hu with ⟨_,h⟩ | ⟨_,hold⟩
      · cases h
      · exact howed u j o hold
    | @commit t c o _ _ _ =>
      have hnext : ∀ u j r, Function.update a.phases t (.finished (obj.input c) o) u = .finished j r →
          (u,j,r) ∈ (t,obj.input c,o) ::ₘ owed := by
        intro u j r hu
        rcases of_update hu with ⟨rfl,h⟩ | ⟨_,hold⟩
        · obtain ⟨rfl,rfl⟩ := Phase.finished.inj h
          exact Multiset.mem_cons_self _ _
        · exact Multiset.mem_cons_of_mem (howed u j r hold)
      obtain ⟨owed',hbalance,howed'⟩ := ih hnext
      rw [Multiset.add_cons, ← Multiset.cons_add] at hbalance
      exact ⟨owed',hbalance,howed'⟩
    | @reply t i o ht =>
      obtain ⟨rest,rfl⟩ := Multiset.exists_cons_of_mem (howed t i o ht)
      have hnext : ∀ u j r, Function.update a.phases t .idle u = .finished j r → (u,j,r) ∈ rest := by
        intro u j r hu
        rcases of_update hu with ⟨_,h⟩ | ⟨hne,hold⟩
        · cases h
        · rcases Multiset.mem_cons.mp (howed u j r hold) with heq | hmem
          · exact absurd (congrArg Prod.fst heq) hne
          · exact hmem
      obtain ⟨owed',hbalance,howed'⟩ := ih hnext
      refine ⟨owed',?_,howed'⟩
      rw [Multiset.add_cons]
      exact (Multiset.cons_add ..).trans (congrArg ((t,i,o) ::ₘ ·) hbalance)
    | advance => exact ih howed

/-- The requests that did not take effect yet, `waiting`, belong to threads that wait. -/
theorem AtomicRun.demand {ps : List (Point τ ι ο κ θ)} (h : AtomicRun obj R a ps a')
    {waiting : Multiset (τ × ι)} (hwaiting : ∀ t i, a.phases t = .pending i → (t,i) ∈ waiting) :
    ∃ waiting', (answers obj ps).map (fun x => (x.1,x.2.1)) + waiting' = invocations (labels ps) + waiting ∧
      ∀ t i, a'.phases t = .pending i → (t,i) ∈ waiting' := by
  induction h generalizing waiting with
  | nil => exact ⟨waiting,rfl,hwaiting⟩
  | @cons a _ _ _ _ hp _ ih =>
    cases hp with
    | @invoke t i ht =>
      have hnext : ∀ u j, Function.update a.phases t (.pending i) u = .pending j → (u,j) ∈ (t,i) ::ₘ waiting := by
        intro u j hu
        rcases of_update hu with ⟨rfl,h⟩ | ⟨_,hold⟩
        · obtain rfl := Phase.pending.inj h
          exact Multiset.mem_cons_self _ _
        · exact Multiset.mem_cons_of_mem (hwaiting u j hold)
      obtain ⟨waiting',hbalance,hwaiting'⟩ := ih hnext
      rw [Multiset.add_cons, ← Multiset.cons_add] at hbalance
      exact ⟨waiting',hbalance,hwaiting'⟩
    | @commit t c o _ ht =>
      obtain ⟨rest,rfl⟩ := Multiset.exists_cons_of_mem (hwaiting t _ ht)
      have hnext : ∀ u j, Function.update a.phases t (.finished (obj.input c) o) u = .pending j → (u,j) ∈ rest := by
        intro u j hu
        rcases of_update hu with ⟨_,h⟩ | ⟨hne,hold⟩
        · cases h
        · rcases Multiset.mem_cons.mp (hwaiting u j hold) with heq | hmem
          · exact absurd (congrArg Prod.fst heq) hne
          · exact hmem
      obtain ⟨waiting',hbalance,hwaiting'⟩ := ih hnext
      refine ⟨waiting',?_,hwaiting'⟩
      rw [Multiset.add_cons]
      exact (Multiset.cons_add ..).trans (congrArg ((t,obj.input c) ::ₘ ·) hbalance)
    | reply ht =>
      apply ih
      intro u j hu
      rcases of_update hu with ⟨_,h⟩ | ⟨_,hold⟩
      · cases h
      · exact hwaiting u j hold
    | advance => exact ih hwaiting

/-- A reply is the answer to an input that took effect, and to one only. -/
theorem AtomicRun.answered {ps : List (Point τ ι ο κ θ)} (h : AtomicRun obj R a ps a')
    (hidle : ∀ t, a.phases t = .idle) : replies (labels ps) ≤ answers obj ps := by
  have hnone (t : τ) (i : ι) (o : Option ο) (ht : a.phases t = .finished i o) :
      (t,i,o) ∈ (0 : Multiset (τ × ι × Option ο)) := by
    rw [hidle t] at ht
    cases ht
  obtain ⟨owed,hbalance,_⟩ := h.balance hnone
  rw [add_zero] at hbalance
  exact hbalance ▸ Multiset.le_add_right _ _

/-- The replies that are no panics, as requests and answers. -/
def received (ls : List (Label τ ι ο θ)) : Multiset (ι × ο) :=
  (replies ls).filterMap fun x => x.2.2.map (Prod.mk x.2.1)

omit [DecidableEq τ] in
theorem answers_eq (ps : List (Point τ ι ο κ θ)) :
    (answers obj ps).filterMap (fun x => x.2.2.map (Prod.mk x.2.1)) =
      (((effects ps).filterMap fun x => x.2.map (Prod.mk x.1)).map fun x => (obj.input x.1,x.2) : List (ι × ο)) := by
  rw [answers, Multiset.filterMap_coe, effects, List.filterMap_filterMap, List.filterMap_filterMap,
    List.map_filterMap]
  congr 2
  funext p
  rcases p with _ | ⟨t,c,_ | o⟩ <;> rfl

/-- Every reply that is no panic is the answer to its own input in one run of the
machine alone. -/
theorem AtomicRun.received_history {ps : List (Point τ ι ο κ θ)} (h : AtomicRun obj R a ps a')
    (hidle : ∀ t, a.phases t = .idle) {s : σ} (hstate : a.state = some s) :
    ∃ k, received (labels ps) ≤
      ((Machine.history obj.step s ((calls ps).take k)).map (fun e => (obj.input e.input,e.output)) :
        List (ι × ο)) := by
  obtain ⟨k,hk⟩ := Poison.history_answered obj.aborts obj.step s (calls ps)
  refine ⟨k,(Multiset.filterMap_le_filterMap _ (h.answered hidle)).trans (le_of_eq ?_)⟩
  have heffects : (effects ps).filterMap (fun x => x.2.map (Prod.mk x.1)) =
      (Machine.history obj.step s ((calls ps).take k)).map (fun e => (e.input,e.output)) := by
    rw [h.history.1, hstate, Object.atomic, List.filterMap_map, ← hk]
    rfl
  rw [answers_eq, heffects, List.map_map]
  rfl

/-- If nothing aborts, every request is answered and the object survives. -/
theorem AtomicRun.sound {ps : List (Point τ ι ο κ θ)} (h : AtomicRun obj R a ps a') {s : σ} (hstate : a.state = some s)
    (hsafe : ∀ e ∈ Machine.history obj.step s (calls ps), obj.aborts e.before e.input = false) :
    a'.state = some (Machine.final obj.step s (calls ps)) ∧ ∀ x ∈ answers obj ps, x.2.2.isSome = true := by
  obtain ⟨heffects,hfinal⟩ := h.history
  rw [hstate] at heffects hfinal
  refine ⟨hfinal.trans (Poison.final_eq hsafe),?_⟩
  have hanswered := Poison.answered_iff.mpr hsafe
  intro x hx
  obtain ⟨p,hp,hpoint⟩ := List.mem_filterMap.mp (Multiset.mem_coe.mp hx)
  cases p with
  | visible l => cases hpoint
  | commit t call o =>
    obtain rfl := Option.some.inj hpoint
    have hmem : (call,o) ∈ effects ps := List.mem_filterMap.mpr ⟨_,hp,rfl⟩
    rw [heffects] at hmem
    obtain ⟨e,he,heq⟩ := List.mem_map.mp hmem
    have houtput := hanswered e he
    rwa [(Prod.mk.inj heq).2] at houtput

omit [DecidableEq τ] in
theorem Simulates.unpoisoned (h : Simulates R obj c a) {s : σ} (hstate : a.state = some s) : c.poisoned = false := by
  cases h.agrees with
  | free _ hfree =>
    rw [hstate] at hfree
    cases hp : c.poisoned with
    | false => rfl
    | true => rw [hp] at hfree; cases hfree
  | held _ hp => exact hp

/-- A request that took effect had been made, and once for each time. -/
theorem AtomicRun.invoked {ps : List (Point τ ι ο κ θ)} (h : AtomicRun obj R a ps a')
    (hidle : ∀ t, a.phases t = .idle) :
    (answers obj ps).map (fun x => (x.1,x.2.1)) ≤ invocations (labels ps) := by
  have hnone (t : τ) (i : ι) (ht : a.phases t = .pending i) : (t,i) ∈ (0 : Multiset (τ × ι)) := by
    rw [hidle t] at ht
    cases ht
  obtain ⟨waiting,hbalance,_⟩ := h.demand hnone
  rw [add_zero] at hbalance
  exact hbalance ▸ Multiset.le_add_right _ _

theorem AtomicRun.requested {ps : List (Point τ ι ο κ θ)} (h : AtomicRun obj R a ps a')
    (hidle : ∀ t, a.phases t = .idle) :
    ((calls ps).map obj.input : Multiset ι) ≤ (invocations (labels ps)).map Prod.snd := by
  refine le_trans (le_of_eq ?_) (Multiset.map_le_map (h.invoked hidle))
  rw [answers, Multiset.map_coe, Multiset.map_coe, calls, effects, List.map_map, List.map_filterMap,
    List.map_filterMap, List.map_filterMap]
  congr 2
  funext p
  rcases p with _ | ⟨t,c,o⟩ <;> rfl

/-! No thread waits for ever. -/

theorem Run.append {c₁ c₂ c₃ : Config τ ι ο σ θ A} {ls ls' : List (Label τ ι ο θ)} (h : Run prog R c₁ ls c₂)
    (h' : Run prog R c₂ ls' c₃) : Run prog R c₁ (ls ++ ls') c₃ := by
  induction h with
  | nil => exact h'
  | cons hs _ ih =>
    rw [List.append_assoc]
    exact .cons hs (ih h')

theorem Run.single {l : Option (Label τ ι ο θ)} (h : Step prog R c l c') : Run prog R c l.toList c' := by
  have hrun := Run.cons h .nil
  rwa [List.append_nil] at hrun

/-- What a thread at the lock leaves behind if nobody else moves. -/
def Config.left (c : Config τ ι ο σ θ A) (t : τ) (i : ι) (r : Option ο × σ) : Config τ ι ο σ θ A :=
  ⟨r.2,c.poisoned || r.1.isNone,none,c.clock,Function.update c.threads t (.finished i r.1)⟩

theorem Config.left_update (c : Config τ ι ο σ θ A) (s : σ) (t : τ) (i : ι) (x : Thread ι ο σ θ A)
    (r : Option ο × σ) :
    Config.left { c with shared := s, threads := Function.update c.threads t x } t i r = c.left t i r := by
  simp only [Config.left, Function.update_idem]

/-- One access, then the rest of the section. -/
private theorem Run.access {draws : ∀ d, A d} {t : τ} {i : ι} {q : Critical σ θ A ο} {s : σ}
    (hs : Step prog R c none { c with shared := s, threads := Function.update c.threads t (.inside i q) })
    (ih : ∀ {c : Config τ ι ο σ θ A}, c.threads t = .inside i q →
      Run prog R c [] (c.left t i (q.outcome c.clock draws c.shared))) :
    Run prog R c [] (c.left t i (q.outcome c.clock draws s)) := by
  have hrest := @ih { c with shared := s, threads := Function.update c.threads t (.inside i q) }
    (Function.update_self ..)
  rw [c.left_update] at hrest
  exact .cons hs hrest

/-- A thread at the lock can run to the end of its section. -/
theorem Run.finish (draws : ∀ d, A d) {t : τ} {i : ι} {p : Critical σ θ A ο} (ht : c.threads t = .inside i p) :
    Run prog R c [] (c.left t i (p.outcome c.clock draws c.shared)) := by
  induction p generalizing c with
  | done o =>
    have hdone : c.left t i (some o,c.shared) =
        { c with holder := none, threads := Function.update c.threads t (.finished i (some o)) } := by
      simp [Config.left]
    rw [Critical.outcome, hdone]
    exact .single (.unlock ht)
  | abort =>
    have hpanic : c.left t i (none,c.shared) =
        { c with poisoned := true, holder := none, threads := Function.update c.threads t (.finished i none) } := by
      simp [Config.left]
    rw [Critical.outcome, hpanic]
    exact .single (.panic ht)
  | load k ih => exact .access (q := k c.shared) (.load ht) (ih _)
  | store s k ih => exact .access (q := k) (.store ht) ih
  | clock k ih => exact .access (q := k c.clock) (.clock ht) (ih _)
  | random d k ih => exact .access (q := k (draws d)) (.random ht (draws d)) (ih _)

/-- A waiting thread can lock a free mutex and run its whole section. -/
theorem Run.serve (draws : ∀ d, A d) {t : τ} {i : ι} (ht : c.threads t = .waiting i) (hfree : c.holder = none)
    (hp : c.poisoned = false) : Run prog R c [] (c.left t i ((prog i).outcome c.clock draws c.shared)) := by
  have hrest := @Run.finish τ ι ο σ θ δ A _ R prog
    { c with holder := some t, threads := Function.update c.threads t (.inside i (prog i)) } draws t i (prog i)
    (Function.update_self ..)
  have hleft (r : Option ο × σ) :
      Config.left { c with holder := some t, threads := Function.update c.threads t (.inside i (prog i)) } t i r =
        c.left t i r := by
    simp only [Config.left, Function.update_idem]
  rw [hleft] at hrest
  exact .cons (.lock ht hfree hp) hrest

theorem Run.served {draws : ∀ d, A d} {t : τ} {i : ι} {r : Option ο × σ} {ls : List (Label τ ι ο θ)}
    (hr : (prog i).outcome c.clock draws c.shared = r) (ht : c.threads t = .waiting i) (hfree : c.holder = none)
    (hp : c.poisoned = false) (hrest : Run prog R (c.left t i r) ls c') : Run prog R c ls c' :=
  (hr ▸ Run.serve draws ht hfree hp).append hrest

theorem Run.serve_free (draws : ∀ d, A d) {t : τ} {i : ι} (ht : c.threads t = .waiting i) (hfree : c.holder = none) :
    ∃ c' o, Run prog R c [] c' ∧ c'.threads t = .finished i o := by
  cases hp : c.poisoned with
  | false => exact ⟨_,_,.serve draws ht hfree hp,Function.update_self ..⟩
  | true => exact ⟨_,_,.single (.lockPoisoned ht hfree hp),Function.update_self ..⟩

/-- Whatever the threads did, a request under way can still be answered. -/
theorem Simulates.answerable (h : Simulates R obj c a) (draws : ∀ d, A d) {t : τ} {i : ι}
    (ht : (c.threads t).phase = .pending i) : ∃ c' o, Run prog R c [] c' ∧ c'.threads t = .finished i o := by
  cases h.agrees with
  | free hfree =>
    cases hx : c.threads t with
    | waiting j =>
      rw [hx] at ht
      obtain rfl := Phase.pending.inj ht
      exact Run.serve_free draws hx hfree
    | inside j p =>
      have hheld := h.exclusive t j p hx
      rw [hfree] at hheld
      cases hheld
    | idle => rw [hx] at ht; cases ht
    | finished j o => rw [hx] at ht; cases ht
  | @held u j p _ _ _ hheld _ hu =>
    have hfinish := @Run.finish τ ι ο σ θ δ A _ R prog c draws u j p hu
    by_cases hut : t = u
    · subst hut
      rw [hu] at ht
      obtain rfl := Phase.pending.inj ht
      exact ⟨_,_,hfinish,Function.update_self ..⟩
    · cases hx : c.threads t with
      | waiting k =>
        rw [hx] at ht
        obtain rfl := Phase.pending.inj ht
        obtain ⟨c',o,hrun,hdone⟩ := @Run.serve_free τ ι ο σ θ δ A _ R prog (c.left u j _) draws t k
          ((Function.update_of_ne hut ..).trans hx) rfl
        exact ⟨c',o,hfinish.append hrun,hdone⟩
      | inside k q => exact absurd (Option.some.inj ((h.exclusive t k q hx).symm.trans hheld)) hut
      | idle => rw [hx] at ht; cases ht
      | finished k o => rw [hx] at ht; cases ht

/-- No input that could take effect in an execution with these requests aborts. -/
def Safe (R : θ → θ → Prop) (obj : Object ι ο κ σ θ) (s : σ) (now : θ) (requests : Multiset (τ × ι)) : Prop :=
  ∀ ps a, AtomicRun obj R (.start s now) ps a → invocations (labels ps) = requests →
    ∀ e ∈ Machine.history obj.step s (calls ps), obj.aborts e.before e.input = false

/-- Then no request panics or finds the mutex poisoned. -/
theorem Run.sound [Std.Refl R] [IsTrans θ R] (hi : Implements R prog obj) {s : σ} {now : θ}
    {ls : List (Label τ ι ο θ)} (hrun : Run prog R (.start s now) ls c) (hsafe : Safe R obj s now (invocations ls)) :
    c.poisoned = false ∧ ∀ x ∈ replies ls, x.2.2.isSome = true := by
  obtain ⟨ps,a,hatomic,rfl,hsim⟩ := linearizable hi (.start s now) hrun
  obtain ⟨hstate,hanswers⟩ := hatomic.sound rfl (hsafe ps a hatomic rfl)
  refine ⟨hsim.unpoisoned hstate,?_⟩
  intro x hx
  exact hanswers x (Multiset.mem_of_le (hatomic.answered fun _ => rfl) hx)

/-- Nor does one wait for ever: its thread can be given an answer. -/
theorem Run.available [Std.Refl R] [IsTrans θ R] (hi : Implements R prog obj) (draws : ∀ d, A d) {s : σ} {now : θ}
    {ls : List (Label τ ι ο θ)} (hrun : Run prog R (.start s now) ls c) (hsafe : Safe R obj s now (invocations ls))
    {t : τ} {i : ι} (ht : (c.threads t).phase = .pending i) : ∃ o c', Run prog R c [.reply t i (some o)] c' := by
  obtain ⟨ps,a,_,_,hsim⟩ := linearizable hi (.start s now) hrun
  obtain ⟨c',o,hserved,hdone⟩ := @Simulates.answerable τ ι ο κ σ θ δ A _ R obj prog c a hsim draws t i ht
  have hreply := hserved.append (.single (.reply hdone))
  have hrequests : invocations (ls ++ [.reply t i o]) = invocations ls := by
    rw [invocations, List.filterMap_append]
    exact congrArg _ (List.append_nil _)
  have hanswered := ((hrun.append hreply).sound hi (hrequests ▸ hsafe)).2 (t,i,o) (by
    rw [List.nil_append, Option.toList_some, replies, List.filterMap_append]
    exact Multiset.mem_coe.mpr (List.mem_append_right _ (List.mem_singleton_self _)))
  obtain ⟨reply,rfl⟩ := Option.isSome_iff_exists.mp hanswered
  exact ⟨reply,_,hreply⟩

end

end PqAuth.Mutex
