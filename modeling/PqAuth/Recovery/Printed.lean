import Mathlib.Data.Multiset.MapFold
import PqAuth.Recovery.Spelling
import PqAuth.Recovery.Spending

/-! A printed batch of codes from the user's side: each code works once, in any
order and however it is typed. -/
namespace PqAuth.Recovery
variable {lib : RecoveryLibrary}

/-- A code as it was typed. -/
def Types (draws : Draws) (text : String) : Prop := Respelling (generateCode draws).code.toList text.toList

theorem Types.hash_eq (hu : lib.UppercasesAscii) {draws : Draws} {text : String} (h : Types draws text) :
    (hashCode lib text).hash = (hashCode lib (generateCode draws).code).hash := by
  rw [hashCode, hashCode, normalize_respelling hu h]

theorem typed_hashes (hu : lib.UppercasesAscii) {chosen : List Draws} {attempts : List String}
    (h : List.Forall₂ Types chosen attempts) : attempts.map (fun text => (hashCode lib text).hash) =
      chosen.map (fun draws => (hashCode lib (generateCode draws).code).hash) := by
  induction h with
  | nil => rfl
  | cons htyped _ ih => rw [List.map_cons, List.map_cons, htyped.hash_eq hu, ih]

/-- Attempts on hashes that are unspent, each as often as it is there, all succeed. -/
theorem accepts_unspent {set : RecoveryCodeSet} {attempts : List String}
    (h : (attempts.map (fun text => (hashCode lib text).hash) : Multiset String) ≤ unspent set) :
    (∀ e ∈ Machine.history (useCode lib) set attempts, e.output = true) ∧
      unspent (Machine.final (useCode lib) set attempts) =
        unspent set - (attempts.map (fun text => (hashCode lib text).hash) : Multiset String) := by
  obtain ⟨hspent,hfinal⟩ := TokenPool.spend_all h
  rw [Machine.history_map spend_unspent] at hspent
  rw [Machine.final_map spend_unspent] at hfinal
  exact ⟨fun e he => hspent _ (List.mem_map_of_mem he),hfinal⟩

theorem Counted.card_unspent {set : RecoveryCodeSet} (h : Counted set) : set.remaining = (unspent set).card := by
  rw [h, unspent, Multiset.coe_card, List.length_map, List.countP_eq_length_filter]

/-- Codes of a printed batch, typed in any order and any spelling, are all
accepted. The counter goes down by one for each, and once every code was used
nothing else is accepted. -/
theorem printed_codes_usable (hu : lib.UppercasesAscii) {draws chosen : List Draws} (hchosen : chosen.Subperm draws)
    {attempts : List String} (htyped : List.Forall₂ Types chosen attempts) :
    let start := fromCodes lib (generateCodes draws)
    (∀ e ∈ Machine.history (useCode lib) start attempts, e.output = true) ∧
      (Machine.final (useCode lib) start attempts).remaining = draws.length - chosen.length ∧
      (chosen.length = draws.length → ∀ text,
        (useCode lib (Machine.final (useCode lib) start attempts) text).1 = false) := by
  intro start
  have hpool : unspent start =
      (draws.map (fun d => (hashCode lib (generateCode d).code).hash) : List String) := by
    rw [unspent_fromCodes, generateCodes, List.map_map]
    rfl
  have hle : (attempts.map (fun text => (hashCode lib text).hash) : Multiset String) ≤ unspent start := by
    rw [typed_hashes hu htyped, hpool, ← Multiset.map_coe, ← Multiset.map_coe]
    exact Multiset.map_le_map (Multiset.coe_le.mpr hchosen)
  obtain ⟨haccepted,hrest⟩ := accepts_unspent hle
  have hcount : (unspent (Machine.final (useCode lib) start attempts)).card = draws.length - chosen.length := by
    rw [hrest, Multiset.card_sub hle, hpool, typed_hashes hu htyped]
    simp
  refine ⟨haccepted,(counted_final _ attempts).card_unspent.trans hcount,?_⟩
  intro hall text
  rw [hall, Nat.sub_self, Multiset.card_eq_zero] at hcount
  have hspend := @spend_unspent lib (Machine.final (useCode lib) start attempts) text
  rw [hcount] at hspend
  exact (congrArg Prod.fst hspend).symm

/-- Codes of one letter. -/
def printedDraws (letter : Fin 29) : Draws := fun _ => letter

private theorem printedDraws_typed :
    List.Forall₂ Types [printedDraws 7] ["AAAAAAAA-AAAA-AAAA-AAAA-AAAA-AAAA-AAAA"] := by
  have hcode : (generateCode (printedDraws 7)).code.toList =
      "AAAA".toList ++ '-' :: "AAAA-AAAA-AAAA-AAAA-AAAA-AAAA-AAAA".toList := by decide +kernel
  have htext : "AAAAAAAA-AAAA-AAAA-AAAA-AAAA-AAAA-AAAA".toList =
      "AAAA".toList ++ "AAAA-AAAA-AAAA-AAAA-AAAA-AAAA-AAAA".toList := by decide +kernel
  refine .cons ?_ .nil
  rw [Types, hcode, htext]
  exact .deleteDash .refl

/-- Of two printed codes the first was typed, without its first dash. -/
theorem printed_codes_usable_undashed : (Machine.final (useCode Transparent.recoveryLibrary)
    (fromCodes Transparent.recoveryLibrary (generateCodes [printedDraws 7,printedDraws 8]))
      ["AAAAAAAA-AAAA-AAAA-AAAA-AAAA-AAAA-AAAA"]).remaining = 1 := by
  have hsub : [printedDraws 7].Subperm [printedDraws 7,printedDraws 8] :=
    (List.sublist_append_left [printedDraws 7] [printedDraws 8]).subperm
  have husable := printed_codes_usable Transparent.recoveryLibrary_uppercasesAscii hsub printedDraws_typed
  exact husable.2.1

end PqAuth.Recovery
