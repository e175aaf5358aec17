import Mathlib.Data.List.Basic

/-! Wrapping a message between two copies of a key, without lengths or
separators. Two wrappings meet exactly when one key borders the other. -/
namespace PqAuth.Envelope
variable {α : Type*} {key key' message message' : List α}

def wrap (key message : List α) : List α := key ++ message ++ key

/-- The shorter key stands at both ends of the longer one, whose remainders the
first message carries around the second. -/
def Overlaps (key message key' message' : List α) : Prop :=
  ∃ a b, a ≠ [] ∧ key' = key ++ a ∧ key' = b ++ key ∧ message = a ++ message' ++ b

/-- Keys of one length are recovered from the front, then the messages agree. -/
theorem wrap_inj_of_length (hlen : key.length = key'.length) (heq : wrap key message = wrap key' message') :
    key = key' ∧ message = message' := by
  unfold wrap at heq
  rw [List.append_assoc, List.append_assoc] at heq
  obtain ⟨rfl,hrest⟩ := List.append_inj heq hlen
  exact ⟨rfl,List.append_cancel_right hrest⟩

theorem Overlaps.wrap_eq (h : Overlaps key message key' message') : wrap key message = wrap key' message' := by
  obtain ⟨a,b,_,hfront,hback,rfl⟩ := h
  calc wrap key (a ++ message' ++ b)
      _ = (key ++ a) ++ message' ++ (b ++ key) := by simp only [wrap, List.append_assoc]
      _ = wrap key' message' := by rw [← hfront, ← hback, wrap]

theorem Overlaps.ne (h : Overlaps key message key' message') : key ≠ key' := by
  obtain ⟨a,_,hne,hfront,_⟩ := h
  rintro rfl
  exact hne (List.self_eq_append_right.mp hfront)

theorem overlaps_of_wrap_eq (hlt : key.length < key'.length) (heq : wrap key message = wrap key' message') :
    Overlaps key message key' message' := by
  have hfront : key <+: key' := by
    apply List.prefix_of_prefix_length_le _ _ (Nat.le_of_lt hlt)
    · exact wrap key message
    · exact ⟨message ++ key,by simp only [wrap, List.append_assoc]⟩
    · exact ⟨message' ++ key',by rw [heq]; simp only [wrap, List.append_assoc]⟩
  have hback : key <:+ key' := by
    apply List.suffix_of_suffix_length_le _ _ (Nat.le_of_lt hlt)
    · exact wrap key message
    · exact ⟨key ++ message,rfl⟩
    · exact ⟨key' ++ message',heq ▸ rfl⟩
  obtain ⟨a,ha⟩ := hfront
  obtain ⟨b,hb⟩ := hback
  refine ⟨a,b,?_,ha.symm,hb.symm,?_⟩
  · rintro rfl
    rw [List.append_nil] at ha
    exact Nat.ne_of_lt hlt (congrArg List.length ha)
  · have hmiddle : key ++ message ++ key = key ++ (a ++ message' ++ b) ++ key := by
      calc key ++ message ++ key
          _ = key' ++ message' ++ key' := heq
          _ = (key ++ a) ++ message' ++ (b ++ key) := by rw [ha, hb]
          _ = key ++ (a ++ message' ++ b) ++ key := by simp only [List.append_assoc]
    exact List.append_cancel_left (List.append_cancel_right hmiddle)

/-- Two wrappings agree for equal pairs and for overlapping ones. -/
theorem wrap_eq_iff : wrap key message = wrap key' message' ↔
    (key = key' ∧ message = message') ∨ Overlaps key message key' message' ∨
      Overlaps key' message' key message := by
  constructor
  · intro heq
    rcases Nat.lt_trichotomy key.length key'.length with hlt | hlen | hlt
    · exact Or.inr (Or.inl (overlaps_of_wrap_eq hlt heq))
    · exact Or.inl (wrap_inj_of_length hlen heq)
    · exact Or.inr (Or.inr (overlaps_of_wrap_eq hlt heq.symm))
  · rintro (⟨rfl,rfl⟩ | h | h)
    · rfl
    · exact h.wrap_eq
    · exact h.wrap_eq.symm

theorem wrap_injective_iff : (wrap key message = wrap key' message' → key = key' ∧ message = message') ↔
    ¬ (Overlaps key message key' message' ∨ Overlaps key' message' key message) := by
  constructor
  · rintro hinj (h | h)
    · exact h.ne (hinj h.wrap_eq).1
    · exact h.ne (hinj h.wrap_eq.symm).1.symm
  · intro hnone heq
    exact (wrap_eq_iff.mp heq).resolve_right hnone

end PqAuth.Envelope
