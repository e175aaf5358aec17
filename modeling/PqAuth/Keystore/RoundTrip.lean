import PqAuth.Source.Keystore
import PqAuth.Source.Transparent

/-! What a stored key yields: the encrypted material under its password, and an
error for every other file. -/
namespace PqAuth.Keystore
variable {hex : Hex} {argon2 : Argon2} {aes : Aes256Gcm}

/-- The stages a successful encryption went through. -/
theorem encrypt_ok {keyMaterial password : Bytes} {keyType : String} {salt : FixedBytes saltLen}
    {nonceBytes : FixedBytes nonceLen} {keystore : EncryptedKeystore}
    (h : encrypt hex argon2 aes keyMaterial password keyType salt nonceBytes = some (.ok keystore)) :
    ∃ derived cipher nonce ciphertext, deriveKey argon2 password salt.val = .ok derived ∧
      aes.newFromSlice derived.val = .ok cipher ∧ aes.nonceFromSlice nonceBytes.val = some nonce ∧
      aes.encrypt cipher nonce keyMaterial = .ok ciphertext ∧
      keystore = ⟨hex.encode salt.val,hex.encode nonceBytes.val,hex.encode ciphertext,keyType,1⟩ := by
  unfold encrypt at h
  cases hderived : deriveKey argon2 password salt.val with
  | error e => simp [hderived] at h
  | ok derived =>
    cases hcipher : aes.newFromSlice derived.val with
    | error e => simp [hderived, hcipher] at h
    | ok cipher =>
      cases hnonce : aes.nonceFromSlice nonceBytes.val with
      | none => simp [hderived, hcipher, hnonce] at h
      | some nonce =>
        cases hciphertext : aes.encrypt cipher nonce keyMaterial with
        | error e => simp [hderived, hcipher, hnonce, hciphertext] at h
        | ok ciphertext =>
          simp only [hderived, hcipher, hnonce, hciphertext] at h
          have hkeystore := Except.ok.inj (Option.some.inj h)
          exact ⟨derived,cipher,nonce,ciphertext,rfl,hcipher,rfl,hciphertext,hkeystore.symm⟩

/-- The encoder writes well-formed files. -/
theorem wellFormed_encode (hx : hex.RoundTrip) (salt ciphertext : Bytes) (nonceBytes : FixedBytes nonceLen)
    (keyType : String) :
    WellFormed hex ⟨hex.encode salt,hex.encode nonceBytes.val,hex.encode ciphertext,keyType,1⟩ salt nonceBytes.val
      ciphertext :=
  ⟨rfl,hx salt,hx nonceBytes.val,hx ciphertext,nonceBytes.property⟩

theorem decrypt_encrypt (hx : hex.RoundTrip) (hc : aes.Correct) {keyMaterial password : Bytes} {keyType : String}
    {salt : FixedBytes saltLen} {nonceBytes : FixedBytes nonceLen} {keystore : EncryptedKeystore}
    (h : encrypt hex argon2 aes keyMaterial password keyType salt nonceBytes = some (.ok keystore)) :
    decrypt hex argon2 aes keystore password = some (.ok keyMaterial) := by
  obtain ⟨derived,cipher,nonce,ciphertext,hderived,hcipher,hnonce,hciphertext,rfl⟩ := encrypt_ok h
  have hw := wellFormed_encode hx salt.val ciphertext nonceBytes keyType
  have hprepare := @prepare_of_wellFormed hex argon2 _ _ _ _ hw password
  rw [hderived] at hprepare
  simp only [decrypt, hprepare, Except.map, AesCall.run, hcipher, hnonce, hc _ _ _ _ hciphertext]

/-- The three ways the preparation ends. -/
theorem prepare_cases (keystore : EncryptedKeystore) (password : Bytes) :
    ((¬ ∃ salt nonceBytes ciphertext, WellFormed hex keystore salt nonceBytes ciphertext) ∧
      prepare hex argon2 keystore password = .error .invalidFormat) ∨
    ∃ salt nonceBytes ciphertext, WellFormed hex keystore salt nonceBytes ciphertext ∧
      ((∃ text, prepare hex argon2 keystore password = .error (.kdf text)) ∨
        ∃ derived : FixedBytes 32, prepare hex argon2 keystore password = .ok ⟨derived.val,nonceBytes,ciphertext⟩) := by
  by_cases hw : ∃ salt nonceBytes ciphertext, WellFormed hex keystore salt nonceBytes ciphertext
  · obtain ⟨salt,nonceBytes,ciphertext,hw⟩ := hw
    refine Or.inr ⟨salt,nonceBytes,ciphertext,hw,?_⟩
    rw [prepare_of_wellFormed hw]
    cases hderived : deriveKey argon2 password salt with
    | error e =>
      obtain ⟨text,rfl⟩ := deriveKey_error hderived
      exact Or.inl ⟨text,rfl⟩
    | ok derived => exact Or.inr ⟨derived,rfl⟩
  · exact Or.inl ⟨hw,prepare_of_not_wellFormed hw password⟩

/-- The sizes at which AES-GCM neither fails to take its key nor panics. -/
theorem prepare_sizes {keystore : EncryptedKeystore} {password : Bytes} {call : AesCall}
    (h : prepare hex argon2 keystore password = .ok call) : call.key.length = 32 ∧ call.nonceBytes.length = 12 := by
  rcases @prepare_cases hex argon2 keystore password with ⟨_,he⟩ | ⟨_,_,_,hw,⟨_,he⟩ | ⟨derived,he⟩⟩
  · cases h.symm.trans he
  · cases h.symm.trans he
  · obtain rfl := Except.ok.inj (h.symm.trans he)
    exact ⟨derived.property,hw.nonceLen⟩

/-- At these sizes the only error left is a failed authentication. -/
theorem AesCall.run_cases (hs : aes.Sizes) {call : AesCall} (hkey : call.key.length = 32)
    (hnonce : call.nonceBytes.length = 12) :
    call.run aes = some (.error .decrypt) ∨ ∃ keyMaterial, call.run aes = some (.ok keyMaterial) := by
  obtain ⟨cipher,hcipher⟩ := (hs.newFromSlice _).mpr hkey
  obtain ⟨nonce,hnonce⟩ := Option.isSome_iff_exists.mp ((hs.nonceFromSlice _).mpr hnonce)
  simp only [AesCall.run, hcipher, hnonce]
  cases aes.decrypt cipher nonce call.ciphertext with
  | error e => exact Or.inl rfl
  | ok keyMaterial => exact Or.inr ⟨keyMaterial,rfl⟩

/-- A file that is malformed: a wrong version, a field that does not decode, or a
nonce of another size. -/
def Malformed (hex : Hex) (keystore : EncryptedKeystore) : Prop :=
  keystore.version ≠ 1 ∨ hex.decode keystore.salt = none ∨ hex.decode keystore.nonce = none ∨
    hex.decode keystore.ciphertext = none ∨
    ∃ nonceBytes, hex.decode keystore.nonce = some nonceBytes ∧ nonceBytes.length ≠ 12

theorem malformed_iff (keystore : EncryptedKeystore) :
    Malformed hex keystore ↔ ¬ ∃ salt nonceBytes ciphertext, WellFormed hex keystore salt nonceBytes ciphertext := by
  constructor
  · rintro h ⟨salt,nonceBytes,ciphertext,hw⟩
    rcases h with hversion | hsalt | hnonce | hciphertext | ⟨other,hnonce,hlen⟩
    · exact hversion hw.version
    · exact absurd (hsalt.symm.trans hw.salt) (by simp)
    · exact absurd (hnonce.symm.trans hw.nonce) (by simp)
    · exact absurd (hciphertext.symm.trans hw.ciphertext) (by simp)
    · obtain rfl := Option.some.inj (hnonce.symm.trans hw.nonce)
      exact hlen hw.nonceLen
  · intro h
    by_contra hgood
    simp only [Malformed, not_or, not_not, not_exists, not_and, ← ne_eq, Option.ne_none_iff_exists'] at hgood
    obtain ⟨hversion,⟨salt,hsalt⟩,⟨nonceBytes,hnonce⟩,⟨ciphertext,hciphertext⟩,hlen⟩ := hgood
    exact h ⟨salt,nonceBytes,ciphertext,hversion,hsalt,hnonce,hciphertext,hlen nonceBytes hnonce⟩

/-- Every file and password has an outcome, and never the encoder's error. -/
theorem decrypt_total (hs : aes.Sizes) (keystore : EncryptedKeystore) (password : Bytes) :
    ∃ outcome, decrypt hex argon2 aes keystore password = some outcome ∧
      (∀ e, outcome ≠ .error (.encrypt e)) ∧ (outcome = .error .invalidFormat ↔ Malformed hex keystore) := by
  rw [malformed_iff]
  rcases @prepare_cases hex argon2 keystore password with ⟨hw,he⟩ | ⟨salt,nonceBytes,ciphertext,hw,hend⟩
  · refine ⟨.error .invalidFormat,?_,by simp,iff_of_true rfl hw⟩
    simp only [decrypt, he]
  · have hformat : ¬ ¬ ∃ salt nonceBytes ciphertext, WellFormed hex keystore salt nonceBytes ciphertext :=
      not_not_intro ⟨salt,nonceBytes,ciphertext,hw⟩
    rcases hend with ⟨text,he⟩ | ⟨derived,he⟩
    · refine ⟨.error (.kdf text),?_,by simp,iff_of_false (by simp) hformat⟩
      simp only [decrypt, he]
    · simp only [decrypt, he]
      have hcases := @AesCall.run_cases aes hs ⟨derived.val,nonceBytes,ciphertext⟩ derived.property hw.nonceLen
      rcases hcases with hrun | ⟨keyMaterial,hrun⟩
      · exact ⟨_,hrun,by simp,iff_of_false (by simp) hformat⟩
      · exact ⟨_,hrun,by simp,iff_of_false (by simp) hformat⟩

/-- What was encrypted is decrypted. Any file at all is decrypted, refused or found
malformed, with AES-GCM reached at its own sizes only. -/
theorem keystore_roundTrip_total (hx : hex.RoundTrip) (hs : aes.Sizes) (hc : aes.Correct) :
    (∀ (keyMaterial password : Bytes) (keyType : String) (salt : FixedBytes saltLen)
      (nonceBytes : FixedBytes nonceLen) (keystore : EncryptedKeystore),
      encrypt hex argon2 aes keyMaterial password keyType salt nonceBytes = some (.ok keystore) →
        decrypt hex argon2 aes keystore password = some (.ok keyMaterial)) ∧
    (∀ (keystore : EncryptedKeystore) (password : Bytes),
      (∀ call, prepare hex argon2 keystore password = .ok call →
        call.key.length = 32 ∧ call.nonceBytes.length = 12) ∧
      ∃ outcome, decrypt hex argon2 aes keystore password = some outcome ∧
        (∀ e, outcome ≠ .error (.encrypt e)) ∧
        (outcome = .error .invalidFormat ↔ keystore.version ≠ 1 ∨ hex.decode keystore.salt = none ∨
          hex.decode keystore.nonce = none ∨ hex.decode keystore.ciphertext = none ∨
          ∃ nonceBytes, hex.decode keystore.nonce = some nonceBytes ∧ nonceBytes.length ≠ 12)) := by
  refine ⟨?_,?_⟩
  · intro keyMaterial password keyType salt nonceBytes keystore h
    exact decrypt_encrypt hx hc h
  · intro keystore password
    exact ⟨fun call => prepare_sizes,decrypt_total hs keystore password⟩

/-- Sixteen bytes stored under a password come back. -/
theorem keystore_roundTrip_total_stored :
    let keyMaterial : Bytes := List.replicate 16 7
    ∃ keystore, encrypt Transparent.hex Transparent.argon2 Transparent.aes256Gcm keyMaterial [1,2,3] "dilithium3"
        (Transparent.sized 32 []) (Transparent.sized 12 [9]) = some (.ok keystore) ∧
      decrypt Transparent.hex Transparent.argon2 Transparent.aes256Gcm keystore [1,2,3] = some (.ok keyMaterial) := by
  intro keyMaterial
  refine ⟨_,rfl,?_⟩
  exact (keystore_roundTrip_total Transparent.hex_roundTrip Transparent.aes256Gcm_sizes
    Transparent.aes256Gcm_correct).1 keyMaterial [1,2,3] "dilithium3" (Transparent.sized 32 [])
    (Transparent.sized 12 [9]) _ rfl

end PqAuth.Keystore
