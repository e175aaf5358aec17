import PqAuth.Foundation.TokenPool
import PqAuth.Source.Recovery
import PqAuth.Source.Transparent

/-! Runs over a set of recovery codes. The unused entries are a pool of hashes,
and every attempt spends the hash of what was typed. -/
namespace PqAuth.Recovery
variable {lib : RecoveryLibrary}

/-- What an attempt does: it uses the first unused entry of its hash, or nothing. -/
theorem useCode_cases (set : RecoveryCodeSet) (code : String) :
    (∃ before after, set.codes = before ++ ⟨(hashCode lib code).hash,false⟩ :: after ∧
      useCode lib set code =
        (true,⟨before ++ ⟨(hashCode lib code).hash,true⟩ :: after,decrement set.remaining⟩)) ∨
    ((∀ h ∈ set.codes, h.used = false → h.hash ≠ (hashCode lib code).hash) ∧
      useCode lib set code = (false,set)) := by
  cases hv : verifyCode lib code set.codes with
  | none =>
    refine Or.inr ⟨?_,by simp only [useCode, hv]⟩
    intro h hmem hunused hhash
    exact verifyCode_eq_none_iff.mp hv h hmem ⟨hunused,hhash⟩
  | some idx =>
    obtain ⟨hlt,havailable,_⟩ := verifyCode_eq_some_iff.mp hv
    have hentry := available_iff_eq.mp havailable
    refine Or.inl ⟨set.codes.take idx,set.codes.drop (idx + 1),?_,?_⟩
    · rw [← hentry, ← List.drop_eq_getElem_cons hlt, List.take_append_drop]
    · simp only [useCode, hv]
      rw [List.modify_eq_take_cons_drop hlt, hentry]

/-- The hashes of the unused entries, each as often as it occurs. -/
def unspent (set : RecoveryCodeSet) : Multiset String :=
  ((set.codes.filter (fun h => !h.used)).map HashedRecoveryCode.hash : List String)

theorem mem_unspent (set : RecoveryCodeSet) (hash : String) :
    hash ∈ unspent set ↔ ∃ h ∈ set.codes, h.used = false ∧ h.hash = hash := by
  simp [unspent, and_assoc]

theorem unspent_append (before after : List HashedRecoveryCode) (n : ℕ) (h : HashedRecoveryCode) :
    unspent ⟨before ++ h :: after,n⟩ =
      (if h.used then 0 else {h.hash}) + unspent ⟨before ++ after,n⟩ := by
  cases hu : h.used with
  | true => simp [unspent, List.filter_append, hu]
  | false => simp [unspent, List.filter_append, hu, ← Multiset.coe_add, ← Multiset.cons_coe, Multiset.add_cons]

/-- A set of codes is a pool of hashes. -/
theorem spend_unspent (set : RecoveryCodeSet) (code : String) :
    TokenPool.spend (unspent set) (hashCode lib code).hash =
      ((useCode lib set code).1,unspent (useCode lib set code).2) := by
  obtain ⟨codes,remaining⟩ := set
  rcases @useCode_cases lib ⟨codes,remaining⟩ code with ⟨before,after,rfl,he⟩ | ⟨hnone,he⟩
  · rw [he, TokenPool.spend, unspent_append, unspent_append]
    simp [unspent]
  · have hmem : (hashCode lib code).hash ∉ unspent ⟨codes,remaining⟩ := by
      rw [mem_unspent]
      rintro ⟨h,hh,hunused,heq⟩
      exact hnone h hh hunused heq
    rw [he, TokenPool.spend, Multiset.erase_of_notMem hmem, decide_eq_false hmem]

theorem unspent_fromCodes (codes : List RecoveryCode) :
    unspent (fromCodes lib codes) =
      ((codes.map (fun c => (hashCode lib c.code).hash) : List String) : Multiset String) := by
  have hfresh : (codes.map (fun c => hashCode lib c.code)).filter (fun h => !h.used) =
      codes.map (fun c => hashCode lib c.code) := by
    rw [List.filter_eq_self]
    intro h hmem
    obtain ⟨c,_,rfl⟩ := List.mem_map.mp hmem
    rfl
  rw [unspent, fromCodes, hfresh, List.map_map]
  rfl

/-- The counter agrees with the entries. -/
def Counted (set : RecoveryCodeSet) : Prop := set.remaining = set.codes.countP (fun h => !h.used)

theorem counted_fromCodes (codes : List RecoveryCode) : Counted (fromCodes lib codes) := by
  simp [Counted, fromCodes, List.countP_map, Function.comp_def, hashCode]

theorem Counted.pos {before after : List HashedRecoveryCode} {hash : String} {n : ℕ}
    (h : Counted ⟨before ++ ⟨hash,false⟩ :: after,n⟩) : 0 < n := by
  simp [Counted] at h
  omega

theorem Counted.useCode {set : RecoveryCodeSet} (h : Counted set) (code : String) :
    Counted (useCode lib set code).2 := by
  obtain ⟨codes,remaining⟩ := set
  rcases @useCode_cases lib ⟨codes,remaining⟩ code with ⟨before,after,rfl,he⟩ | ⟨_,he⟩
  · rw [he, decrement_of_pos h.pos]
    simp only [Counted, List.countP_append, List.countP_cons] at h ⊢
    simp at h ⊢
    omega
  · rw [he]
    exact h

/-- A failed attempt changes nothing. A successful one marks one unused entry and
finds the counter positive, so the decrement is exact in either build. -/
theorem useCode_effect {set : RecoveryCodeSet} (h : Counted set) (code : String) :
    useCodeChecked lib set code = some (useCode lib set code) ∧
    ((useCode lib set code).1 = false → (useCode lib set code).2 = set) ∧
    ((useCode lib set code).1 = true → 0 < set.remaining ∧ ∃ before hash after,
      set.codes = before ++ ⟨hash,false⟩ :: after ∧
        (useCode lib set code).2 = ⟨before ++ ⟨hash,true⟩ :: after,set.remaining - 1⟩) := by
  obtain ⟨codes,remaining⟩ := set
  rcases @useCode_cases lib ⟨codes,remaining⟩ code with ⟨before,after,rfl,he⟩ | ⟨_,he⟩
  · refine ⟨useCodeChecked_of_pos fun _ => h.pos,?_⟩
    rw [he, decrement_of_pos h.pos]
    exact ⟨by simp,fun _ => ⟨h.pos,before,_,after,rfl,rfl⟩⟩
  · have hfails : (useCode lib ⟨codes,remaining⟩ code).1 ≠ true := by simp [he]
    refine ⟨useCodeChecked_of_pos fun hsome => absurd hsome hfails,?_⟩
    rw [he]
    exact ⟨fun _ => rfl,by simp⟩

/-- No two normal forms of the texts share their hash. -/
def CollisionFree (lib : RecoveryLibrary) (texts : List String) : Prop :=
  ∀ a ∈ texts, ∀ b ∈ texts, digest lib (normalize lib a) = digest lib (normalize lib b) →
    normalize lib a = normalize lib b

private theorem count_map_congr {α β γ : Type} [DecidableEq β] [DecidableEq γ] {f : α → β} {g : α → γ} {l : List α}
    {x : β} {y : γ} (h : ∀ a ∈ l, f a = x ↔ g a = y) : (l.map f).count x = (l.map g).count y := by
  rw [List.count, List.count, List.countP_map, List.countP_map]
  apply List.countP_congr
  intro a ha
  simpa using h a ha

/-- What is compared: the hash of one text under its normal form. -/
private def codeHash (lib : RecoveryLibrary) (code : String) : String := (hashCode lib code).hash

private theorem spend_codeHash (set : RecoveryCodeSet) (code : String) :
    TokenPool.spend (unspent set) (codeHash lib code) =
      ((useCode lib set code).1,unspent (useCode lib set code).2) :=
  spend_unspent set code

private theorem countP_spent_hash (codes : List RecoveryCode) (attempts : List String) (hash : String) :
    (Machine.history (useCode lib) (fromCodes lib codes) attempts).countP
        (fun e => codeHash lib e.input = hash && e.output) =
      min ((attempts.map (codeHash lib)).count hash) ((codes.map (fun c => codeHash lib c.code)).count hash) := by
  have hpool := TokenPool.countP_spent (unspent (fromCodes lib codes)) (attempts.map (codeHash lib)) hash
  rw [Machine.history_map spend_codeHash, List.countP_map, unspent_fromCodes, Multiset.coe_count] at hpool
  exact hpool

/-- The attempts on one normal form that succeed are as many as were made, but no
more than the codes of that form. -/
theorem countP_accepted (hx : lib.hex.RoundTrip) {codes : List RecoveryCode} {attempts : List String}
    (hfree : CollisionFree lib (codes.map RecoveryCode.code ++ attempts)) (n : String) :
    (Machine.history (useCode lib) (fromCodes lib codes) attempts).countP
        (fun e => normalize lib e.input = n && e.output) =
      min ((attempts.map (normalize lib)).count n)
        ((codes.map (fun c => normalize lib c.code)).count n) := by
  by_cases hn : ∃ text ∈ codes.map RecoveryCode.code ++ attempts, normalize lib text = n
  · obtain ⟨text,htext,rfl⟩ := hn
    -- within the run a hash and a normal form determine each other
    have hsame {other : String} (hother : other ∈ codes.map RecoveryCode.code ++ attempts) :
        codeHash lib other = codeHash lib text ↔ normalize lib other = normalize lib text := by
      rw [codeHash, codeHash, hash_eq_iff hx]
      exact ⟨hfree other hother text htext,congrArg (digest lib)⟩
    have htried : (attempts.map (codeHash lib)).count (codeHash lib text) =
        (attempts.map (normalize lib)).count (normalize lib text) :=
      count_map_congr fun other hother => hsame (List.mem_append_right _ hother)
    have hstored : (codes.map (fun c => codeHash lib c.code)).count (codeHash lib text) =
        (codes.map (fun c => normalize lib c.code)).count (normalize lib text) :=
      count_map_congr fun c hc => hsame (List.mem_append_left _ (List.mem_map_of_mem hc))
    rw [← htried, ← hstored, ← countP_spent_hash]
    apply List.countP_congr
    intro e he
    have hinput := hsame (List.mem_append_right _ (Machine.input_mem he))
    rw [Bool.and_eq_true, Bool.and_eq_true, decide_eq_true_iff, decide_eq_true_iff, hinput]
  · -- a form that neither a code nor an attempt has is counted nowhere
    have hnone (other : String) (hother : other ∈ attempts) : normalize lib other ≠ n :=
      fun h => hn ⟨other,List.mem_append_right _ hother,h⟩
    have htried : (attempts.map (normalize lib)).count n = 0 := by
      rw [List.count_eq_zero]
      rintro hmem
      obtain ⟨other,hother,h⟩ := List.mem_map.mp hmem
      exact hnone other hother h
    rw [htried, Nat.zero_min, List.countP_eq_zero]
    intro e he
    simp [hnone _ (Machine.input_mem he)]

theorem counted_final (codes : List RecoveryCode) (attempts : List String) :
    Counted (Machine.final (useCode lib) (fromCodes lib codes) attempts) :=
  Machine.final_invariant (fun _ code h => h.useCode code) (counted_fromCodes codes) attempts

/-- Every run over a set keeps its counter, spends each code once for every time
it was issued, and changes one entry for each success and none otherwise. No
decrement underflows. -/
theorem codes_spent_once (hx : lib.hex.RoundTrip) {codes : List RecoveryCode} {attempts : List String}
    (hfree : CollisionFree lib (codes.map RecoveryCode.code ++ attempts)) :
    let start := fromCodes lib codes
    let past := Machine.history (useCode lib) start attempts
    (∀ k, let set := Machine.final (useCode lib) start (attempts.take k)
      set.remaining = set.codes.countP (fun h => !h.used)) ∧
    (∀ n, past.countP (fun e => normalize lib e.input = n && e.output) =
      min ((attempts.map (normalize lib)).count n) ((codes.map (fun c => normalize lib c.code)).count n)) ∧
    (∀ (k : ℕ) e, past[k]? = some e → useCodeChecked lib e.before e.input = some (e.output,e.after) ∧
      (e.output = false → e.after = e.before) ∧
      (e.output = true → 0 < e.before.remaining ∧ ∃ before hash after,
        e.before.codes = before ++ ⟨hash,false⟩ :: after ∧
          e.after = ⟨before ++ ⟨hash,true⟩ :: after,e.before.remaining - 1⟩)) := by
  intro start past
  refine ⟨fun k => counted_final codes (attempts.take k),countP_accepted hx hfree,?_⟩
  intro k e he
  have hcounted : Counted e.before := by
    rw [Machine.before_at he]
    exact counted_final codes (attempts.take k)
  have heffect := @useCode_effect lib e.before hcounted e.input
  rwa [Machine.step_at he] at heffect

section
open Transparent

/-- A code issued twice and typed three times is accepted twice. -/
theorem codes_spent_once_duplicate :
    (Machine.history (useCode recoveryLibrary) (fromCodes recoveryLibrary [⟨"XA-B"⟩,⟨"XAB"⟩,⟨"XQ"⟩])
        ["xab","X-ab","XAB"]).countP (fun e => normalize recoveryLibrary e.input = "XAB" && e.output) = 2 := by
  have hfree : CollisionFree recoveryLibrary
      (([⟨"XA-B"⟩,⟨"XAB"⟩,⟨"XQ"⟩] : List RecoveryCode).map RecoveryCode.code ++ ["xab","X-ab","XAB"]) := by
    unfold CollisionFree
    decide +kernel
  rw [(codes_spent_once hex_roundTrip hfree).2.1 "XAB"]
  decide +kernel

end
end PqAuth.Recovery
