import PqAuth.Source.Crates

/-! `keystore.rs`: key material encrypted under a password. -/
namespace PqAuth

inductive KeystoreError where
  | kdf (e : String)
  | encrypt (e : String)
  | decrypt
  | invalidFormat
  deriving DecidableEq, Repr

/-- Encrypted key bundle stored on disk. Salt, nonce and ciphertext are hexadecimal. -/
structure EncryptedKeystore where
  salt : String
  nonce : String
  ciphertext : String
  keyType : String
  version : UInt32
  deriving DecidableEq, Repr

namespace Keystore

def argon2MCost : UInt32 := 65536
def argon2TCost : UInt32 := 3
def argon2PCost : UInt32 := 4
def saltLen : ℕ := 32
def nonceLen : ℕ := 12

variable (hex : Hex) (argon2 : Argon2) (aes : Aes256Gcm)

def deriveKey (password salt : Bytes) : Except KeystoreError (FixedBytes 32) :=
  match argon2.params argon2MCost argon2TCost argon2PCost (some 32) with
  | .error e => .error (.kdf e)
  | .ok params =>
    match argon2.hashPasswordInto .argon2id .v0x13 params password salt 32 with
    | .error e => .error (.kdf e)
    | .ok key => .ok key

/-- Encrypt key material under the drawn salt and nonce; `none` is a panic. -/
def encrypt (keyMaterial password : Bytes) (keyType : String) (salt : FixedBytes saltLen)
    (nonceBytes : FixedBytes nonceLen) : Option (Except KeystoreError EncryptedKeystore) :=
  match deriveKey argon2 password salt.val with
  | .error e => some (.error e)
  | .ok derived =>
    match aes.newFromSlice derived.val with
    | .error e => some (.error (.encrypt e))
    | .ok cipher =>
      match aes.nonceFromSlice nonceBytes.val with
      | none => none
      | some nonce =>
        match aes.encrypt cipher nonce keyMaterial with
        | .error e => some (.error (.encrypt e))
        | .ok ciphertext =>
          some (.ok ⟨hex.encode salt.val,hex.encode nonceBytes.val,hex.encode ciphertext,keyType,1⟩)

/-- What decryption hands to AES-GCM. -/
structure AesCall where
  key : Bytes
  nonceBytes : Bytes
  ciphertext : Bytes
  deriving DecidableEq, Repr

/-- Everything decryption does before its first AES-GCM call. -/
def prepare (keystore : EncryptedKeystore) (password : Bytes) : Except KeystoreError AesCall :=
  if keystore.version != 1 then .error .invalidFormat
  else
    match hex.decode keystore.salt with
    | none => .error .invalidFormat
    | some salt =>
      match hex.decode keystore.nonce with
      | none => .error .invalidFormat
      | some nonceBytes =>
        match hex.decode keystore.ciphertext with
        | none => .error .invalidFormat
        | some ciphertext =>
          if nonceBytes.length != nonceLen then .error .invalidFormat
          else
            match deriveKey argon2 password salt with
            | .error e => .error e
            | .ok derived => .ok ⟨derived.val,nonceBytes,ciphertext⟩

/-- The AES-GCM calls. -/
def AesCall.run (call : AesCall) : Option (Except KeystoreError Bytes) :=
  match aes.newFromSlice call.key with
  | .error e => some (.error (.encrypt e))
  | .ok cipher =>
    match aes.nonceFromSlice call.nonceBytes with
    | none => none
    | some nonce =>
      match aes.decrypt cipher nonce call.ciphertext with
      | .error _ => some (.error .decrypt)
      | .ok keyMaterial => some (.ok keyMaterial)

/-- Decrypt key material. -/
def decrypt (keystore : EncryptedKeystore) (password : Bytes) : Option (Except KeystoreError Bytes) :=
  match prepare hex argon2 keystore password with
  | .error e => some (.error e)
  | .ok call => call.run aes

variable {hex argon2 aes}

/-- A file whose fields decode, with a nonce of its size. -/
structure WellFormed (hex : Hex) (keystore : EncryptedKeystore) (salt nonceBytes ciphertext : Bytes) : Prop where
  version : keystore.version = 1
  salt : hex.decode keystore.salt = some salt
  nonce : hex.decode keystore.nonce = some nonceBytes
  ciphertext : hex.decode keystore.ciphertext = some ciphertext
  nonceLen : nonceBytes.length = nonceLen

theorem prepare_of_wellFormed {keystore : EncryptedKeystore} {salt nonceBytes ciphertext : Bytes}
    (h : WellFormed hex keystore salt nonceBytes ciphertext) (password : Bytes) :
    prepare hex argon2 keystore password =
      (deriveKey argon2 password salt).map (fun derived => ⟨derived.val,nonceBytes,ciphertext⟩) := by
  simp only [prepare, h.version, h.salt, h.nonce, h.ciphertext, h.nonceLen, bne_self_eq_false, Bool.false_eq_true,
    if_false]
  cases deriveKey argon2 password salt with
  | error e => rfl
  | ok derived => rfl

/-- Every other file is refused before the key is derived. -/
theorem prepare_of_not_wellFormed {keystore : EncryptedKeystore}
    (h : ¬ ∃ salt nonceBytes ciphertext, WellFormed hex keystore salt nonceBytes ciphertext) (password : Bytes) :
    prepare hex argon2 keystore password = .error .invalidFormat := by
  unfold prepare
  split
  · rfl
  · rename_i hversion
    split
    · rfl
    · rename_i salt hsalt
      split
      · rfl
      · rename_i nonceBytes hnonce
        split
        · rfl
        · rename_i ciphertext hciphertext
          split
          · rfl
          · rename_i hlen
            exact absurd ⟨salt,nonceBytes,ciphertext,by simpa using hversion,hsalt,hnonce,hciphertext,
              by simpa using hlen⟩ h

theorem deriveKey_error {password salt : Bytes} {e : KeystoreError} (h : deriveKey argon2 password salt = .error e) :
    ∃ text, e = .kdf text := by
  unfold deriveKey at h
  split at h
  · exact ⟨_,(Except.error.inj h).symm⟩
  · split at h
    · exact ⟨_,(Except.error.inj h).symm⟩
    · cases h

end Keystore
end PqAuth
