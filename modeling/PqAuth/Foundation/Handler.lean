import Mathlib.Logic.Basic

/-! Handlers that may fail and whose earlier mutations then stay in place, with
the equations that evaluate them from a state. -/
namespace PqAuth

abbrev Handler (ε σ : Type) := ExceptT ε (StateM σ)

namespace Handler
variable {ε σ α β : Type}

def exec (m : Handler ε σ α) (s : σ) : Except ε α × σ := (m.run.run s).run

@[simp] theorem exec_pure (a : α) (s : σ) : exec (pure a : Handler ε σ α) s = (.ok a,s) := rfl

@[simp] theorem exec_throw (e : ε) (s : σ) : exec (throw e : Handler ε σ α) s = (.error e,s) := rfl

@[simp] theorem exec_get (s : σ) : exec (get : Handler ε σ σ) s = (.ok s,s) := rfl

@[simp] theorem exec_set (t s : σ) : exec (set t : Handler ε σ PUnit) s = (.ok ⟨⟩,t) := rfl

@[simp] theorem exec_modify (f : σ → σ) (s : σ) :
    exec (modify f : Handler ε σ PUnit) s = (.ok ⟨⟩,f s) := rfl

@[simp] theorem exec_bind (m : Handler ε σ α) (f : α → Handler ε σ β) (s : σ) :
    exec (m >>= f) s =
      match exec m s with
      | (.ok a,t) => exec (f a) t
      | (.error e,t) => (.error e,t) := by
  change ((ExceptT.bindCont f ((m.run.run s).run).1).run ((m.run.run s).run).2).run = _
  unfold exec
  rcases (m.run.run s).run with ⟨_ | _,t⟩ <;> rfl

@[simp] theorem exec_map (m : Handler ε σ α) (f : α → β) (s : σ) :
    exec (f <$> m) s = ((exec m s).1.map f,(exec m s).2) := by
  rw [map_eq_pure_bind, exec_bind]
  rcases exec m s with ⟨_ | _,t⟩ <;> rfl

theorem exec_ite (p : Prop) [Decidable p] (m n : Handler ε σ α) (s : σ) :
    exec (if p then m else n) s = if p then exec m s else exec n s := by
  split <;> rfl

end Handler
end PqAuth
