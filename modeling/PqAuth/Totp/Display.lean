import PqAuth.Source.Cli
import PqAuth.Totp.Acceptance

/-! A displayed code: the truncation that makes it, its eight digits, and the way
back through the command line. -/
namespace PqAuth.PqTotp
open Words ShakeMac
variable {xof : Xof}

/-- The MAC behind the code of a time step. -/
abbrev stepMac (xof : Xof) (secret : Bytes) (timestamp : UInt64) : Bytes :=
  shake256Mac xof secret (toBeBytes (timestamp / timeStep)) 32

/-- The documented formula: the low thirty-one bits of the word at the offset,
reduced to eight digits. -/
def Specified (mac : Bytes) (code : UInt32) : Prop :=
  ∃ last, mac[31]? = some last ∧ (last &&& 0x0F).toNat + 4 ≤ mac.length ∧
    code = (UInt32.ofNat (fromBigEndian (mac.extract (last &&& 0x0F).toNat ((last &&& 0x0F).toNat + 4))) &&&
      0x7FFFFFFF) % 100000000

/-- Clearing the sign bit of the first byte clears it in the word. -/
theorem fromBeBytes32_mask (a b c d : UInt8) :
    fromBeBytes32 (a &&& 0x7F) b c d = fromBeBytes32 a b c d &&& 0x7FFFFFFF := by
  have hmask : (a &&& 0x7F).toNat = a.toNat % 128 := by
    rw [UInt8.toNat_and]
    exact Nat.and_two_pow_sub_one_eq_mod a.toNat 7
  apply UInt32.toNat_inj.mp
  rw [UInt32.toNat_and]
  change _ = _ &&& (2 ^ 31 - 1)
  rw [Nat.and_two_pow_sub_one_eq_mod]
  have ha := a.toNat_lt
  have hb := b.toNat_lt
  have hc := c.toNat_lt
  have hd := d.toNat_lt
  simp only [fromBeBytes32, fromBigEndian, List.foldl_cons, List.foldl_nil, UInt32.toNat_ofNat', hmask]
  omega

theorem extract_four {bytes : Bytes} {i : ℕ} (h : i + 3 < bytes.length) :
    bytes.extract i (i + 4) = [bytes[i],bytes[i + 1],bytes[i + 2],bytes[i + 3]] := by
  have hlen : i + 4 - i = 4 := by omega
  rw [List.extract_eq_take_drop, hlen, List.drop_eq_getElem_cons (by omega), List.drop_eq_getElem_cons (by omega),
    List.drop_eq_getElem_cons (by omega), List.drop_eq_getElem_cons (by omega)]
  rfl

/-- The source masks one byte, the documentation the whole word. -/
theorem specified_truncate {mac : Bytes} {code : UInt32} (hmac : mac.length = 32) (h : truncate mac = some code) :
    Specified mac code := by
  have hlast : mac[mac.length - 1]? = some mac[31] := by
    simp only [hmac]
    exact List.getElem?_eq_getElem _
  obtain ⟨hoffset,he⟩ := truncate_eq hmac hlast
  obtain rfl := Option.some.inj (h.symm.trans he)
  refine ⟨mac[31],List.getElem?_eq_getElem _,hoffset,?_⟩
  rw [extract_four hoffset, fromBeBytes32_mask]
  rfl

theorem formatCode_length {code : UInt32} (h : code.toNat < 10 ^ 8) : (formatCode code).toList.length = 8 := by
  rw [formatCode, String.toList_ofList]
  exact Decimal.padded_length (by decide) h

theorem isDigit_of_mem_formatCode (code : UInt32) : ∀ c ∈ (formatCode code).toList, c.isDigit = true := by
  rw [formatCode, String.toList_ofList]
  exact fun _ => Decimal.isDigit_of_mem_padded

theorem parseU32_formatCode (code : UInt32) : Decimal.parseU32 (formatCode code) = .ok code :=
  Decimal.parseU32_padded 8 code

/-- Leading zeros keep codes of any size apart. -/
theorem formatCode_injective : Function.Injective formatCode := by
  intro a b h
  have hdigits := congrArg String.toList h
  rw [formatCode, formatCode, String.toList_ofList, String.toList_ofList] at hdigits
  exact UInt32.toNat_inj.mp (Decimal.padded_injective 8 hdigits)

/-- A code is accepted wherever the tolerance covers the step it was made for,
by either build. -/
theorem verifyChecked_generate {secret : Bytes} {made now window : UInt64} (hfits : Fits now window)
    (hstep : Candidate now window (made / timeStep)) :
    verify xof secret (generate xof secret made) now window = true ∧
      verifyChecked xof secret (generate xof secret made) now window = some true := by
  have haccepted : verify xof secret (generate xof secret made) now window = true :=
    (verify_iff_candidate hfits _).mpr ⟨made / timeStep,hstep,rfl⟩
  refine ⟨haccepted,?_⟩
  rw [verifyChecked_eq, if_pos hfits, haccepted]

/-- What is displayed is the documented code in eight digits, names it uniquely,
and is accepted by the command line within the tolerance. -/
theorem displayed_code_roundTrip (hex : Hex) (xof : Xof) :
    (∀ (secret : Bytes) (timestamp : UInt64),
      (stepMac xof secret timestamp).length = 32 ∧
      truncate (stepMac xof secret timestamp) = some (generate xof secret timestamp) ∧
      Specified (stepMac xof secret timestamp) (generate xof secret timestamp) ∧
      (formatCode (generate xof secret timestamp)).toList.length = 8 ∧
      (∀ c ∈ (formatCode (generate xof secret timestamp)).toList, '0' ≤ c ∧ c ≤ '9') ∧
      Decimal.parseU32 (formatCode (generate xof secret timestamp)) = .ok (generate xof secret timestamp)) ∧
    Set.InjOn formatCode {code | ∃ secret timestamp, generate xof secret timestamp = code} ∧
    (∀ (secret : String) (secretBytes : Bytes) (made now window : UInt64), hex.decode secret = some secretBytes →
      Fits now window → Candidate now window (made / timeStep) →
        ∃ exit, Cli.auth hex xof secret made = .ok exit ∧
          exit.lines.head? = some (formatCode (generate xof secretBytes made)) ∧
          Cli.verify hex xof (formatCode (generate xof secretBytes made)) secret window now = .ok Cli.valid ∧
          Cli.verifyChecked hex xof (formatCode (generate xof secretBytes made)) secret window now =
            .ok Cli.valid) := by
  refine ⟨?_,?_,?_⟩
  · intro secret timestamp
    have hmac : (stepMac xof secret timestamp).length = 32 := shake256Mac_length ..
    have htruncate := truncate_mac xof secret (timestamp / timeStep)
    refine ⟨hmac,htruncate,specified_truncate hmac htruncate,formatCode_length (generateAtStep_lt ..),?_,
      parseU32_formatCode _⟩
    intro c hc
    have hdigit := isDigit_of_mem_formatCode _ c hc
    rw [Char.isDigit, Bool.and_eq_true, decide_eq_true_iff, decide_eq_true_iff] at hdigit
    exact hdigit
  · exact formatCode_injective.injOn
  · intro secret secretBytes made now window hd hfits hstep
    obtain ⟨haccepted,hchecked⟩ := @verifyChecked_generate xof secretBytes made now window hfits hstep
    refine ⟨_,Cli.auth_of_decode hd made,rfl,?_,Cli.verifyWith_formatCode hd hchecked⟩
    exact Cli.verifyWith_formatCode hd (congrArg some haccepted)

/-- A code printed in one step passes in the next. -/
theorem displayed_code_roundTrip_next_step :
    let secret := Transparent.hex.encode (List.replicate 15 0)
    let code := formatCode (generate Transparent.shake256 (List.replicate 15 0) 30)
    ∃ exit, Cli.auth Transparent.hex Transparent.shake256 secret 30 = .ok exit ∧ exit.lines.head? = some code ∧
      Cli.verify Transparent.hex Transparent.shake256 code secret 1 60 = .ok Cli.valid ∧
      Cli.verifyChecked Transparent.hex Transparent.shake256 code secret 1 60 = .ok Cli.valid :=
  (displayed_code_roundTrip Transparent.hex Transparent.shake256).2.2 _ _ 30 60 1
    (Transparent.hex_roundTrip (List.replicate 15 0)) (by decide) (by decide)

end PqAuth.PqTotp
