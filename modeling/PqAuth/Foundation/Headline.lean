import Mathlib.Data.List.Basic

/-! Messages made of one of several headlines and a detail. Where no headline
begins another, a message can be read in one way only. -/
namespace PqAuth.Headline
variable {heads : List String}

/-- No headline begins another. -/
def PrefixFree (heads : List String) : Prop :=
  ∀ i j : Fin heads.length, (heads.get i).toList <+: (heads.get j).toList → i = j

instance (heads : List String) : Decidable (PrefixFree heads) := inferInstanceAs (Decidable (∀ _ _, _))

theorem get_append_inj (h : PrefixFree heads) {i j : Fin heads.length} {s t : String}
    (heq : heads.get i ++ s = heads.get j ++ t) : i = j ∧ s = t := by
  have hlist : (heads.get i).toList ++ s.toList = (heads.get j).toList ++ t.toList := by
    rw [← String.toList_append, ← String.toList_append, heq]
  have hsame : i = j := by
    have hleft : (heads.get i).toList <+: (heads.get j).toList ++ t.toList := hlist ▸ List.prefix_append ..
    rcases List.prefix_or_prefix_of_prefix hleft (List.prefix_append ..) with hij | hji
    · exact h i j hij
    · exact (h j i hji).symm
  subst hsame
  exact ⟨rfl,(String.append_right_inj _).mp heq⟩

/-- A text determines what it tells of, if its headline and its detail do. -/
theorem injective {α : Type*} (h : PrefixFree heads) {text detail : α → String} {kind : α → Fin heads.length}
    (htext : ∀ x, text x = heads.get (kind x) ++ detail x)
    (hparts : ∀ x y, kind x = kind y → detail x = detail y → x = y) : Function.Injective text := by
  intro x y hxy
  rw [htext, htext] at hxy
  obtain ⟨hkind,hdetail⟩ := get_append_inj h hxy
  exact hparts x y hkind hdetail

end PqAuth.Headline
