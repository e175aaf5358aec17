import Mathlib.Logic.Basic

/-! What a thread does while it holds a lock, one access of the shared value,
the clock or the random generator at a time, and its weakest preconditions. -/
namespace PqAuth

/-- A computation on a shared `σ` that reads a clock and draws an `A d` for a kind `d`. -/
inductive Critical (σ θ : Type) {δ : Type} (A : δ → Type) (α : Type) where
  | done (a : α)
  | abort
  | load (k : σ → Critical σ θ A α)
  | store (s : σ) (k : Critical σ θ A α)
  | clock (k : θ → Critical σ θ A α)
  | random (d : δ) (k : A d → Critical σ θ A α)

namespace Critical
variable {σ θ δ α β ε : Type} {A : δ → Type}

def bind (f : α → Critical σ θ A β) : Critical σ θ A α → Critical σ θ A β
  | done a => f a
  | abort => abort
  | load k => load fun s => (k s).bind f
  | store s k => store s (k.bind f)
  | clock k => clock fun t => (k t).bind f
  | random d k => random d fun a => (k a).bind f

instance : Monad (Critical σ θ A) where
  pure := done
  bind m f := m.bind f

instance : MonadStateOf σ (Critical σ θ A) where
  get := load done
  set s := store s (done ⟨⟩)
  modifyGet f := load fun s => store (f s).2 (done (f s).1)

variable (R : θ → θ → Prop)

/-- What must hold before for `Q` to hold of the result, none if the computation
panicked, the shared value and the last clock reading. Readings advance by `R`. -/
def wp (Q : Option α → σ → θ → Prop) : Critical σ θ A α → σ → θ → Prop
  | done a, s, last => Q (some a) s last
  | abort, s, last => Q none s last
  | load k, s, last => (k s).wp Q s last
  | store s k, _, last => k.wp Q s last
  | clock k, s, last => ∀ t, R last t → (k t).wp Q s t
  | random _ k, s, last => ∀ a, (k a).wp Q s last

theorem wp_bind (m : Critical σ θ A α) (f : α → Critical σ θ A β) (Q : Option β → σ → θ → Prop) :
    (m.bind f).wp R Q = m.wp R fun r s last =>
      match r with
      | some a => (f a).wp R Q s last
      | none => Q none s last := by
  induction m with
  | done a => rfl
  | abort => rfl
  | load k ih => funext s last; exact congrFun (congrFun (ih s) s) last
  | store t k ih => funext _ last; exact congrFun (congrFun ih t) last
  | clock k ih =>
    funext s last
    apply forall_congr
    intro t
    exact congrArg (R last t → ·) (congrFun (congrFun (ih t) s) t)
  | random d k ih =>
    funext s last
    apply forall_congr
    intro a
    exact congrFun (congrFun (ih a) s) last

/-- The computation with all readings at one time and each kind drawn alike. -/
def outcome (now : θ) (draws : ∀ d, A d) : Critical σ θ A α → σ → Option α × σ
  | done a, s => (some a,s)
  | abort, s => (none,s)
  | load k, s => (k s).outcome now draws s
  | store s k, _ => k.outcome now draws s
  | clock k, s => (k now).outcome now draws s
  | random d k, s => (k (draws d)).outcome now draws s

/-- What must hold after holds of that outcome. -/
theorem outcome_of_wp {R : θ → θ → Prop} {now : θ} (hnow : R now now) (draws : ∀ d, A d)
    {Q : Option α → σ → θ → Prop} {p : Critical σ θ A α} {s : σ} (h : p.wp R Q s now) :
    Q (p.outcome now draws s).1 (p.outcome now draws s).2 now := by
  induction p generalizing s with
  | done a => exact h
  | abort => exact h
  | load k ih => exact ih _ h
  | store t k ih => exact ih h
  | clock k ih => exact ih _ (h now hnow)
  | random d k ih => exact ih _ (h (draws d))

/-- A computation that may also fail and whose earlier mutations then stay. -/
abbrev Handler (ε σ θ : Type) {δ : Type} (A : δ → Type) := ExceptT ε (Critical σ θ A)

namespace Handler

def panic : Handler ε σ θ A α := ExceptT.mk abort

def now : Handler ε σ θ A θ := ExceptT.mk (clock fun t => done (.ok t))

def draw (d : δ) : Handler ε σ θ A (A d) := ExceptT.mk (random d fun a => done (.ok a))

def wp (Q : Option (Except ε α) → σ → θ → Prop) (m : Handler ε σ θ A α) (s : σ) (last : θ) : Prop :=
  Critical.wp R Q m.run s last

variable {R} {Q : Option (Except ε α) → σ → θ → Prop} {s : σ} {last : θ}

@[simp] theorem wp_pure (a : α) : wp R Q (pure a : Handler ε σ θ A α) s last = Q (some (.ok a)) s last := rfl

@[simp] theorem wp_throw (e : ε) : wp R Q (throw e : Handler ε σ θ A α) s last = Q (some (.error e)) s last := rfl

@[simp] theorem wp_panic : wp R Q (panic : Handler ε σ θ A α) s last = Q none s last := rfl

@[simp] theorem wp_get {Q : Option (Except ε σ) → σ → θ → Prop} :
    wp R Q (get : Handler ε σ θ A σ) s last = Q (some (.ok s)) s last := rfl

@[simp] theorem wp_set (t : σ) {Q : Option (Except ε PUnit) → σ → θ → Prop} :
    wp R Q (set t : Handler ε σ θ A PUnit) s last = Q (some (.ok ⟨⟩)) t last := rfl

@[simp] theorem wp_modify (f : σ → σ) {Q : Option (Except ε PUnit) → σ → θ → Prop} :
    wp R Q (modify f : Handler ε σ θ A PUnit) s last = Q (some (.ok ⟨⟩)) (f s) last := rfl

@[simp] theorem wp_now {Q : Option (Except ε θ) → σ → θ → Prop} :
    wp R Q (now : Handler ε σ θ A θ) s last = ∀ t, R last t → Q (some (.ok t)) s t := rfl

@[simp] theorem wp_draw (d : δ) {Q : Option (Except ε (A d)) → σ → θ → Prop} :
    wp R Q (draw d : Handler ε σ θ A (A d)) s last = ∀ a, Q (some (.ok a)) s last := rfl

@[simp] theorem wp_bind (m : Handler ε σ θ A α) (f : α → Handler ε σ θ A β)
    (Q : Option (Except ε β) → σ → θ → Prop) :
    wp R Q (m >>= f) s last = wp R (fun r t last =>
      match r with
      | some (.ok a) => wp R Q (f a) t last
      | some (.error e) => Q (some (.error e)) t last
      | none => Q none t last) m s last := by
  change Critical.wp R Q (Critical.bind (ExceptT.bindCont f) m.run) s last = _
  rw [Critical.wp_bind]
  unfold wp
  congr 1
  funext r t last
  rcases r with _ | _ | _ <;> rfl

@[simp] theorem wp_map (m : Handler ε σ θ A α) (f : α → β) (Q : Option (Except ε β) → σ → θ → Prop) :
    wp R Q (f <$> m) s last = wp R (fun r => Q (r.map (Except.map f))) m s last := by
  change wp R Q (m >>= fun a => pure (f a)) s last = _
  rw [wp_bind]
  congr 1
  funext r t last
  rcases r with _ | _ | _ <;> rfl

theorem wp_ite (p : Prop) [Decidable p] (m n : Handler ε σ θ A α) :
    wp R Q (if p then m else n) s last = if p then wp R Q m s last else wp R Q n s last := by
  split <;> rfl

end Handler
end Critical
end PqAuth
