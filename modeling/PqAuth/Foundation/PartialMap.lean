import Mathlib.Logic.Function.Basic

/-! Finite maps by their lookup function, with the operations of a hash map. -/
namespace PqAuth

abbrev PartialMap (κ α : Type*) := κ → Option α

namespace PartialMap
variable {κ α : Type*} [DecidableEq κ]

def empty : PartialMap κ α := fun _ => none

def containsKey (m : PartialMap κ α) (k : κ) : Bool := (m k).isSome

def insert (m : PartialMap κ α) (k : κ) (a : α) : PartialMap κ α := Function.update m k (some a)

def remove (m : PartialMap κ α) (k : κ) : PartialMap κ α := Function.update m k none

def retain (m : PartialMap κ α) (keep : κ → α → Bool) : PartialMap κ α :=
  fun k => (m k).filter (keep k)

/-- The same keys with what is seen of their values. -/
def map {β : Type*} (f : α → β) (m : PartialMap κ α) : PartialMap κ β := fun k => (m k).map f

theorem map_insert {β : Type*} (f : α → β) (m : PartialMap κ α) (k : κ) (a : α) :
    (m.insert k a).map f = (m.map f).insert k (f a) := by
  funext k'
  by_cases h : k' = k <;> simp [map, insert, h]

theorem map_remove {β : Type*} (f : α → β) (m : PartialMap κ α) (k : κ) :
    (m.remove k).map f = (m.map f).remove k := by
  funext k'
  by_cases h : k' = k <;> simp [map, remove, h]

omit [DecidableEq κ] in
@[simp] theorem empty_apply (k : κ) : (empty : PartialMap κ α) k = none := rfl

theorem remove_apply (m : PartialMap κ α) (k k' : κ) :
    m.remove k k' = if k' = k then none else m k' := by
  simp [remove, Function.update_apply]

@[simp] theorem insert_self (m : PartialMap κ α) (k : κ) (a : α) : m.insert k a k = some a :=
  Function.update_self ..

@[simp] theorem remove_self (m : PartialMap κ α) (k : κ) : m.remove k k = none :=
  Function.update_self ..

@[simp] theorem insert_of_ne (m : PartialMap κ α) {k k' : κ} (h : k' ≠ k) (a : α) :
    m.insert k a k' = m k' := Function.update_of_ne h ..

@[simp] theorem remove_of_ne (m : PartialMap κ α) {k k' : κ} (h : k' ≠ k) : m.remove k k' = m k' :=
  Function.update_of_ne h ..

omit [DecidableEq κ] in
theorem retain_apply (m : PartialMap κ α) (keep : κ → α → Bool) (k : κ) :
    m.retain keep k = (m k).filter (keep k) := rfl

omit [DecidableEq κ] in
theorem retain_eq_some (m : PartialMap κ α) (keep : κ → α → Bool) (k : κ) (a : α) :
    m.retain keep k = some a ↔ m k = some a ∧ keep k a := by
  simp [retain_apply, Option.filter_eq_some_iff]

omit [DecidableEq κ] in
theorem containsKey_eq_false (m : PartialMap κ α) (k : κ) : m.containsKey k = false ↔ m k = none := by
  simp [containsKey]

end PartialMap
end PqAuth
