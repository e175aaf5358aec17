import PqAuth.Keystore.RoundTrip

/-! What decryption accepts: files that encryption could have written, up to the
spelling of their hex fields. -/
namespace PqAuth.Keystore
variable {hex : Hex} {argon2 : Argon2} {aes : Aes256Gcm} {keystore other : EncryptedKeystore}
  {keyMaterial password : Bytes}

/-- The same file, with its hex fields perhaps spelled another way. -/
structure Respells (hex : Hex) (keystore other : EncryptedKeystore) : Prop where
  salt : hex.decode keystore.salt = hex.decode other.salt
  nonce : hex.decode keystore.nonce = hex.decode other.nonce
  ciphertext : hex.decode keystore.ciphertext = hex.decode other.ciphertext
  keyType : keystore.keyType = other.keyType
  version : keystore.version = other.version

theorem Respells.decrypt_eq (h : Respells hex keystore other) (password : Bytes) :
    decrypt hex argon2 aes keystore password = decrypt hex argon2 aes other password := by
  unfold decrypt prepare
  rw [h.salt, h.nonce, h.ciphertext, h.version]

/-- The stages a successful decryption went through. -/
theorem decrypt_ok (h : decrypt hex argon2 aes keystore password = some (.ok keyMaterial)) :
    ∃ salt nonceBytes ciphertext derived cipher nonce, WellFormed hex keystore salt nonceBytes ciphertext ∧
      deriveKey argon2 password salt = .ok derived ∧ aes.newFromSlice derived.val = .ok cipher ∧
      aes.nonceFromSlice nonceBytes = some nonce ∧ aes.decrypt cipher nonce ciphertext = .ok keyMaterial := by
  by_cases hw : ∃ salt nonceBytes ciphertext, WellFormed hex keystore salt nonceBytes ciphertext
  · obtain ⟨salt,nonceBytes,ciphertext,hw⟩ := hw
    rw [decrypt, prepare_of_wellFormed hw] at h
    cases hderived : deriveKey argon2 password salt with
    | error e => simp [hderived, Except.map] at h
    | ok derived =>
      simp only [hderived, Except.map, AesCall.run] at h
      cases hcipher : aes.newFromSlice derived.val with
      | error e => simp [hcipher] at h
      | ok cipher =>
        cases hnonce : aes.nonceFromSlice nonceBytes with
        | none => simp [hcipher, hnonce] at h
        | some nonce =>
          cases hplain : aes.decrypt cipher nonce ciphertext with
          | error e => simp [hcipher, hnonce, hplain] at h
          | ok plaintext =>
            simp only [hcipher, hnonce, hplain] at h
            obtain rfl := Except.ok.inj (Option.some.inj h)
            exact ⟨salt,nonceBytes,ciphertext,derived,cipher,nonce,hw,hderived,hcipher,hnonce,hplain⟩
  · rw [decrypt, prepare_of_not_wellFormed hw] at h
    cases Option.some.inj h

/-- A file with a salt of the usual size decrypts to a key exactly if encrypting
that key with the file's own salt and nonce writes the file again. -/
theorem decrypts_iff_encrypted (hx : hex.RoundTrip) (hc : aes.Correct) (ha : aes.Authentic) {salt : FixedBytes saltLen}
    (hsalt : hex.decode keystore.salt = some salt.val) :
    decrypt hex argon2 aes keystore password = some (.ok keyMaterial) ↔
      ∃ nonceBytes fresh,
        encrypt hex argon2 aes keyMaterial password keystore.keyType salt nonceBytes = some (.ok fresh) ∧
          Respells hex keystore fresh := by
  constructor
  · intro h
    obtain ⟨salt',nonceBytes,ciphertext,derived,cipher,nonce,hw,hderived,hcipher,hnonce,hplain⟩ := decrypt_ok h
    obtain rfl := Option.some.inj (hsalt.symm.trans hw.salt)
    have hciphertext := ha _ _ _ _ hplain
    refine ⟨⟨nonceBytes,hw.nonceLen⟩,
      ⟨hex.encode salt.val,hex.encode nonceBytes,hex.encode ciphertext,keystore.keyType,1⟩,?_,?_⟩
    · simp only [encrypt, hderived, hcipher, hnonce, hciphertext]
    · exact ⟨hsalt.trans (hx _).symm,hw.nonce.trans (hx _).symm,hw.ciphertext.trans (hx _).symm,rfl,hw.version⟩
  · rintro ⟨nonceBytes,fresh,hencrypt,hrespells⟩
    rw [hrespells.decrypt_eq]
    exact decrypt_encrypt hx hc hencrypt

/-- A file whose nonce was rewritten in capitals. -/
theorem decrypts_iff_encrypted_capitals :
    let keyMaterial : Bytes := List.replicate 16 7
    ∃ fresh, encrypt Transparent.hex Transparent.argon2 Transparent.aes256Gcm keyMaterial [1,2,3] "dilithium3"
        (Transparent.sized 32 []) (Transparent.sized 12 [171]) = some (.ok fresh) ∧
      decrypt Transparent.hex Transparent.argon2 Transparent.aes256Gcm
        { fresh with nonce := "AB0000000000000000000000" } [1,2,3] = some (.ok keyMaterial) := by
  intro keyMaterial
  obtain ⟨fresh,hencrypt⟩ : ∃ fresh, encrypt Transparent.hex Transparent.argon2 Transparent.aes256Gcm keyMaterial
      [1,2,3] "dilithium3" (Transparent.sized 32 []) (Transparent.sized 12 [171]) = some (.ok fresh) := ⟨_,rfl⟩
  refine ⟨fresh,hencrypt,?_⟩
  obtain ⟨_,_,_,ciphertext,_,_,_,_,rfl⟩ := encrypt_ok hencrypt
  have hnonce : Transparent.hex.decode "AB0000000000000000000000" = some (Transparent.sized 12 [171]).val := by decide
  have hsalt := Transparent.hex_roundTrip (Transparent.sized 32 []).val
  have hiff := @decrypts_iff_encrypted Transparent.hex Transparent.argon2 Transparent.aes256Gcm
    ⟨Transparent.hex.encode (Transparent.sized 32 []).val,"AB0000000000000000000000",
      Transparent.hex.encode ciphertext,"dilithium3",1⟩ keyMaterial [1,2,3] Transparent.hex_roundTrip
    Transparent.aes256Gcm_correct Transparent.aes256Gcm_authentic (Transparent.sized 32 []) hsalt
  exact hiff.mpr ⟨_,_,hencrypt,rfl,hnonce.trans (Transparent.hex_roundTrip _).symm,rfl,rfl,rfl⟩

end PqAuth.Keystore
