import Mathlib.Data.List.Nodup
import PqAuth.Mac.Separation
import PqAuth.Source.Transparent

/-! The normal form of a code keeps its letters: every draw, and no more than the
draws. Dashes and ASCII case are spelling. -/
namespace PqAuth.Recovery
variable {lib : RecoveryLibrary}

/-- Another way to write a text: dashes come and go, ASCII letters change case. -/
inductive Respelling (text : List Char) : List Char → Prop where
  | refl : Respelling text text
  | insertDash {before after} : Respelling text (before ++ after) → Respelling text (before ++ '-' :: after)
  | deleteDash {before after} : Respelling text (before ++ '-' :: after) → Respelling text (before ++ after)
  | upperCase {before c after} :
      Respelling text (before ++ c :: after) → Respelling text (before ++ c.toUpper :: after)
  | lowerCase {before c after} :
      Respelling text (before ++ c :: after) → Respelling text (before ++ c.toLower :: after)

/-- What a spelling cannot change. -/
def letters (text : List Char) : List Char := (text.filter (· != '-')).map Char.toUpper

@[simp] theorem letters_append (a b : List Char) : letters (a ++ b) = letters a ++ letters b := by
  simp [letters]

theorem letters_cons (c : Char) (text : List Char) :
    letters (c :: text) = (if c = '-' then [] else [c.toUpper]) ++ letters text := by
  by_cases hc : c = '-' <;> simp [letters, hc]

@[simp] theorem letters_dash (text : List Char) : letters ('-' :: text) = letters text := by
  rw [letters_cons, if_pos rfl, List.nil_append]

private theorem toUpper_of_not_ascii {c : Char} (h : ¬ c.toNat < 128) : c.toUpper = c := by
  apply dif_neg
  rintro ⟨_,hz⟩
  exact h (Nat.lt_of_le_of_lt (UInt32.le_iff_toNat_le.mp hz) (by decide))

private theorem toLower_of_not_ascii {c : Char} (h : ¬ c.toNat < 128) : c.toLower = c := by
  apply dif_neg
  rintro ⟨_,hz⟩
  exact h (Nat.lt_of_le_of_lt (UInt32.le_iff_toNat_le.mp hz) (by decide))

private theorem ascii_cases : ∀ n < 128, (Char.ofNat n).toUpper.toNat < 128 ∧
    (Char.ofNat n).toUpper.toUpper = (Char.ofNat n).toUpper ∧
    (Char.ofNat n).toLower.toUpper = (Char.ofNat n).toUpper ∧
    ((Char.ofNat n).toUpper = '-' ↔ Char.ofNat n = '-') ∧ ((Char.ofNat n).toLower = '-' ↔ Char.ofNat n = '-') := by
  decide +kernel

/-- Changing the case of a character twice is changing it once, and dashes have none. -/
theorem case_change (c : Char) : c.toUpper.toUpper = c.toUpper ∧ c.toLower.toUpper = c.toUpper ∧
    (c.toUpper = '-' ↔ c = '-') ∧ (c.toLower = '-' ↔ c = '-') := by
  by_cases h : c.toNat < 128
  · have hcases := (ascii_cases c.toNat h).2
    rwa [Char.ofNat_toNat] at hcases
  · rw [toUpper_of_not_ascii h, toLower_of_not_ascii h, toUpper_of_not_ascii h]
    exact ⟨rfl,rfl,Iff.rfl,Iff.rfl⟩

theorem Respelling.letters_eq {text other : List Char} (h : Respelling text other) :
    letters other = letters text := by
  induction h with
  | refl => rfl
  | insertDash _ ih => rwa [letters_append, letters_dash, ← letters_append]
  | deleteDash _ ih => rwa [letters_append, letters_dash, ← letters_append] at ih
  | @upperCase before c after _ ih =>
    obtain ⟨htwice,_,hdash,_⟩ := case_change c
    simpa only [letters_append, letters_cons, htwice, hdash] using ih
  | @lowerCase before c after _ ih =>
    obtain ⟨_,hlower,_,hdash⟩ := case_change c
    simpa only [letters_append, letters_cons, hlower, hdash] using ih

/-- Unicode's mapping does not see the ASCII case. -/
theorem uppercase_toUpper (hu : lib.UppercasesAscii) (c : Char) : lib.uppercase c.toUpper = lib.uppercase c := by
  by_cases h : c.toNat < 128
  · have hupper := (ascii_cases c.toNat h).1
    rw [Char.ofNat_toNat] at hupper
    rw [hu _ hupper, hu c h, (case_change c).1]
  · rw [toUpper_of_not_ascii h]

/-- The normal form is a function of the letters. -/
theorem normalize_letters (hu : lib.UppercasesAscii) (code : String) :
    normalize lib code = toUppercase lib (String.ofList (letters code.toList)) := by
  rw [normalize, toUppercase, toUppercase, String.toList_ofList, String.toList_ofList, letters, List.flatMap_map]
  congr 1
  apply List.flatMap_congr
  intro c _
  exact (uppercase_toUpper hu c).symm

theorem normalize_respelling (hu : lib.UppercasesAscii) {code other : String}
    (h : Respelling code.toList other.toList) : normalize lib other = normalize lib code := by
  rw [normalize_letters hu, normalize_letters hu, h.letters_eq]

/-- The letters a code was drawn from. -/
def drawn (draws : Draws) : List Char := List.ofFn fun k => alphabet[draws k]

theorem drawn_injective : Function.Injective drawn := by
  intro a b h
  funext k
  have hletter : alphabet[a k] = alphabet[b k] := congrFun (List.ofFn_injective h) k
  have hnodup : alphabet.Nodup := by decide
  exact Fin.ext (hnodup.getElem_inj_iff.mp hletter)

private theorem letters_intercalate (groups : List (List Char)) :
    letters (['-'].intercalate groups) = letters groups.flatten := by
  induction groups with
  | nil => rfl
  | cons g groups ih =>
    cases groups with
    | nil => simp
    | cons g' groups => rw [List.intercalate_cons_cons, List.flatten_cons, letters_append, letters_append, ih,
        letters_append, letters_dash, show letters [] = [] from rfl, List.append_nil]

private theorem alphabet_letters {c : Char} (h : c ∈ alphabet) : c ≠ '-' ∧ c.toUpper = c ∧ c.toNat < 128 := by
  have hall : alphabet.all (fun c => c != '-' && (c.toUpper == c && c.toNat < 128)) = true := by decide
  simpa using List.all_eq_true.mp hall c h

private theorem mem_drawn {draws : Draws} {c : Char} (h : c ∈ drawn draws) : c ∈ alphabet := by
  obtain ⟨k,rfl⟩ := (List.mem_ofFn' _ _).mp h
  exact List.getElem_mem _

/-- The separators are not in the alphabet, and the alphabet is in upper case. -/
theorem letters_generateCode (draws : Draws) : letters (generateCode draws).code.toList = drawn draws := by
  have hgroups : (generateCode draws).code.toList = ['-'].intercalate
      (List.ofFn fun i => List.ofFn fun j => alphabet[draws (drawIndex i j)]) := by
    rw [generateCode, String.toList_intercalate, List.map_ofFn, Function.comp_def]
    simp only [String.toList_ofList]
    rfl
  -- the groups are consecutive stretches of the draws
  have hflat : (List.ofFn fun i => List.ofFn fun j => alphabet[draws (drawIndex i j)]).flatten = drawn draws :=
    (List.ofFn_mul fun k => alphabet[draws k]).symm
  rw [hgroups, letters_intercalate, hflat, letters, List.filter_eq_self.mpr, List.map_congr_left, List.map_id]
  · exact fun c hc => (alphabet_letters (mem_drawn hc)).2.1
  · intro c hc
    simpa using (alphabet_letters (mem_drawn hc)).1

/-- The normal form of a generated code is its draws. -/
theorem normalize_generateCode (hu : lib.UppercasesAscii) (draws : Draws) :
    normalize lib (generateCode draws).code = String.ofList (drawn draws) := by
  have hupper (l : List Char) (h : ∀ c ∈ l, c ∈ alphabet) : l.flatMap lib.uppercase = l := by
    induction l with
    | nil => rfl
    | cons c l ih =>
      obtain ⟨_,hc,hascii⟩ := alphabet_letters (h c List.mem_cons_self)
      rw [List.flatMap_cons, hu c hascii, hc, ih fun d hd => h d (List.mem_cons_of_mem c hd), List.singleton_append]
  rw [normalize_letters hu, letters_generateCode, toUppercase, String.toList_ofList, hupper _ fun _ => mem_drawn]

theorem normalize_generateCode_inj (hu : lib.UppercasesAscii) {a b : Draws} :
    normalize lib (generateCode a).code = normalize lib (generateCode b).code ↔ a = b := by
  rw [normalize_generateCode hu, normalize_generateCode hu, String.ofList_inj, drawn_injective.eq_iff]

/-- Generated codes keep all their draws, every spelling of one is accepted where
it is, and two hashes agree for equal codes or by a collision. -/
theorem code_kept (hx : lib.hex.RoundTrip) (hu : lib.UppercasesAscii) (a b : Draws) :
    (normalize lib (generateCode a).code = normalize lib (generateCode b).code ↔ a = b) ∧
    (∀ other : String, Respelling (generateCode a).code.toList other.toList →
      hashCode lib other = hashCode lib (generateCode a).code ∧
        ∀ stored, verifyCode lib other stored = verifyCode lib (generateCode a).code stored) ∧
    (hashCode lib (generateCode a).code = hashCode lib (generateCode b).code →
      generateCode a = generateCode b ∨ ShakeMac.Collides lib.shake256 32
        (ShakeMac.envelope domain (normalize lib (generateCode a).code).toUTF8.data.toList)
        (ShakeMac.envelope domain (normalize lib (generateCode b).code).toUTF8.data.toList)) := by
  refine ⟨normalize_generateCode_inj hu,?_,?_⟩
  · intro other h
    have hhash : hashCode lib other = hashCode lib (generateCode a).code := by
      rw [hashCode, hashCode, normalize_respelling hu h]
    refine ⟨hhash,fun stored => ?_⟩
    rw [verifyCode, verifyCode, hhash]
  · intro h
    have hdigest := (hash_eq_iff hx).mp (congrArg HashedRecoveryCode.hash h)
    rcases ShakeMac.eq_or_collides hdigest with heq | hcollides
    · have htext := Words.utf8_inj.mp (Envelope.wrap_inj_of_length rfl heq).2
      exact Or.inl (congrArg generateCode ((normalize_generateCode_inj hu).mp htext))
    · exact Or.inr hcollides

/-- One letter of a code typed in lower case. -/
theorem code_kept_lower_case :
    hashCode Transparent.recoveryLibrary "aAAA-AAAA-AAAA-AAAA-AAAA-AAAA-AAAA-AAAA" =
      hashCode Transparent.recoveryLibrary "AAAA-AAAA-AAAA-AAAA-AAAA-AAAA-AAAA-AAAA" := by
  have hcode : (generateCode fun _ => ⟨7,by decide⟩).code = "AAAA-AAAA-AAAA-AAAA-AAAA-AAAA-AAAA-AAAA" := by
    decide +kernel
  have hkept := (code_kept Transparent.hex_roundTrip Transparent.recoveryLibrary_uppercasesAscii
    (fun _ => ⟨7,by decide⟩) (fun _ => ⟨7,by decide⟩)).2.1
  rw [hcode] at hkept
  have hupper : "AAAA-AAAA-AAAA-AAAA-AAAA-AAAA-AAAA-AAAA".toList =
      [] ++ 'A' :: "AAA-AAAA-AAAA-AAAA-AAAA-AAAA-AAAA-AAAA".toList := by decide +kernel
  have hlower : "aAAA-AAAA-AAAA-AAAA-AAAA-AAAA-AAAA-AAAA".toList =
      [] ++ 'A'.toLower :: "AAA-AAAA-AAAA-AAAA-AAAA-AAAA-AAAA-AAAA".toList := by decide +kernel
  have hspelled : Respelling "AAAA-AAAA-AAAA-AAAA-AAAA-AAAA-AAAA-AAAA".toList
      "aAAA-AAAA-AAAA-AAAA-AAAA-AAAA-AAAA-AAAA".toList := by
    rw [hupper, hlower]
    exact Respelling.lowerCase Respelling.refl
  exact (hkept _ hspelled).1

end PqAuth.Recovery
