import PqAuth.Keystore.RoundTrip
import PqAuth.Recovery.Spending
import PqAuth.Source.Transparent
import PqAuth.Source.Wire

/-! What was stored as JSON is loaded again: an encrypted keystore, and a set of
recovery codes at any point of its life. -/
namespace PqAuth
open Json

/-- A keystore file may be rearranged and added to. -/
theorem EncryptedKeystore.fromJson_members {keystore : EncryptedKeystore} {ms : Members}
    (h : Extends ["salt","nonce","ciphertext","key_type","version"] keystore.members ms) :
    fromJson (.object ms) = some keystore := by
  have hfields := @Extends.read _ ms ["salt","nonce","ciphertext","key_type","version"]
    [.string keystore.salt,.string keystore.nonce,.string keystore.ciphertext,.string keystore.keyType,
      ofNat keystore.version.toNat] h (List.Subset.refl _) (by decide) rfl
  rw [fromJson, hfields, Option.bind_eq_bind, Option.bind_some]
  dsimp only
  rw [asU32_ofNat]
  rfl

namespace Keystore
variable {hex : Hex} {argon2 : Argon2} {aes : Aes256Gcm}

/-- The key comes back from its file, under its password. -/
theorem file_decrypts (hx : hex.RoundTrip) (hc : aes.Correct) {keyMaterial password : Bytes} {keyType : String}
    {salt : FixedBytes saltLen} {nonceBytes : FixedBytes nonceLen} {keystore : EncryptedKeystore}
    (h : encrypt hex argon2 aes keyMaterial password keyType salt nonceBytes = some (.ok keystore)) {ms : Members}
    (hms : Extends ["salt","nonce","ciphertext","key_type","version"] keystore.members ms) :
    ∃ loaded, EncryptedKeystore.fromJson (.object ms) = some loaded ∧ loaded.keyType = keyType ∧
      decrypt hex argon2 aes loaded password = some (.ok keyMaterial) := by
  refine ⟨keystore,EncryptedKeystore.fromJson_members hms,?_,decrypt_encrypt hx hc h⟩
  obtain ⟨_,_,_,_,_,_,_,_,rfl⟩ := encrypt_ok h
  rfl

/-- A file with a comment, and its members the other way round. -/
theorem file_decrypts_rearranged :
    let keyMaterial : Bytes := List.replicate 16 7
    ∃ keystore, encrypt Transparent.hex Transparent.argon2 Transparent.aes256Gcm keyMaterial [1,2,3] "dilithium3"
        (Transparent.sized 32 []) (Transparent.sized 12 [9]) = some (.ok keystore) ∧
      ∃ loaded, EncryptedKeystore.fromJson (.object (("comment",.null) :: keystore.members.reverse)) = some loaded ∧
        loaded.keyType = "dilithium3" ∧
        decrypt Transparent.hex Transparent.argon2 Transparent.aes256Gcm loaded [1,2,3] = some (.ok keyMaterial) := by
  intro keyMaterial
  obtain ⟨keystore,hencrypt⟩ : ∃ keystore, encrypt Transparent.hex Transparent.argon2 Transparent.aes256Gcm keyMaterial
      [1,2,3] "dilithium3" (Transparent.sized 32 []) (Transparent.sized 12 [9]) = some (.ok keystore) := ⟨_,rfl⟩
  exact ⟨keystore,hencrypt,file_decrypts Transparent.hex_roundTrip Transparent.aes256Gcm_correct hencrypt
    ((Extends.of_perm _ (List.reverse_perm _)).cons (by simp) .null)⟩

end Keystore

namespace Recovery
variable {lib : RecoveryLibrary}

theorem fromJson_code (h : HashedRecoveryCode) : HashedRecoveryCode.fromJson h.toJson = some h := by
  have hfields := @fields_zip ["hash","used"] (by decide) [.string h.hash,.bool h.used] rfl
  have hobject : fields ["hash","used"] h.toJson = some [.string h.hash,.bool h.used] := hfields
  rw [HashedRecoveryCode.fromJson, hobject]
  rfl

theorem fromJson_codes (codes : List HashedRecoveryCode) :
    (codes.map HashedRecoveryCode.toJson).mapM HashedRecoveryCode.fromJson = some codes := by
  induction codes with
  | nil => rfl
  | cons h codes ih => simp [fromJson_code, ih]

theorem fromJson_set {set : RecoveryCodeSet} (hr : set.remaining < 2 ^ 64) {ms : Members}
    (h : Extends ["codes","remaining"] set.members ms) : RecoveryCodeSet.fromJson (.object ms) = some set := by
  have hfields := @Extends.read _ ms ["codes","remaining"]
    [.array (set.codes.map HashedRecoveryCode.toJson),ofNat set.remaining] h (List.Subset.refl _) (by decide) rfl
  rw [RecoveryCodeSet.fromJson, hfields, Option.bind_eq_bind, Option.bind_some]
  dsimp only
  rw [asNat_ofNat hr]
  simp only [asArray, Option.bind_eq_bind, Option.bind_some, fromJson_codes]
  rfl

theorem useCode_length (set : RecoveryCodeSet) (code : String) :
    (useCode lib set code).2.codes.length = set.codes.length := by
  rcases @useCode_cases lib set code with ⟨before,after,hcodes,he⟩ | ⟨_,he⟩
  · rw [he, hcodes]
    simp
  · rw [he]

/-- The counter never exceeds the number of codes issued. -/
theorem remaining_le (codes : List RecoveryCode) (attempts : List String) :
    (Machine.final (useCode lib) (fromCodes lib codes) attempts).remaining ≤ codes.length := by
  have hlen : (Machine.final (useCode lib) (fromCodes lib codes) attempts).codes.length = codes.length :=
    Machine.final_invariant (I := fun set : RecoveryCodeSet => set.codes.length = codes.length)
      (fun set code h => (useCode_length set code).trans h) (by simp [fromCodes]) attempts
  rw [counted_final codes attempts, ← hlen]
  exact List.countP_le_length

/-- However many attempts came before, a set that is stored is loaded as it was. -/
theorem set_restored {codes : List RecoveryCode} (hlen : codes.length < 2 ^ 64) (attempts : List String) {ms : Members}
    (h : Extends ["codes","remaining"] (Machine.final (useCode lib) (fromCodes lib codes) attempts).members ms) :
    RecoveryCodeSet.fromJson (.object ms) = some (Machine.final (useCode lib) (fromCodes lib codes) attempts) :=
  fromJson_set (Nat.lt_of_le_of_lt (remaining_le codes attempts) hlen) h

section
open Transparent

/-- A set of which one code was spent, with its members the other way round. -/
theorem set_restored_spent :
    let set := (useCode recoveryLibrary (fromCodes recoveryLibrary [⟨"XA-B"⟩,⟨"XQ"⟩]) "xab").2
    RecoveryCodeSet.fromJson (.object set.members.reverse) = some set := by
  intro set
  have hlen : ([⟨"XA-B"⟩,⟨"XQ"⟩] : List RecoveryCode).length < 2 ^ 64 := by decide
  exact @set_restored recoveryLibrary _ hlen ["xab"] _ (Extends.of_perm _ (List.reverse_perm _))

end

end Recovery
end PqAuth
