import PqAuth.Foundation.Json
import PqAuth.Source.Keystore
import PqAuth.Source.Recovery
import PqAuth.Source.Server

/-! The JSON forms that serde derives for what is sent and stored. -/
namespace PqAuth
open Json

def EnrollBeginRequest.members (req : EnrollBeginRequest) : Members := [("user_id",.string req.userId)]

def EnrollBeginRequest.fromJson (j : Json) : Option EnrollBeginRequest := do
  let [userId] ← fields ["user_id"] j | none
  return ⟨← userId.asString⟩

def EnrollCompleteRequest.members (req : EnrollCompleteRequest) : Members :=
  [("user_id",.string req.userId),("ciphertext",.string req.ciphertext),
    ("dilithium_public_key",.string req.dilithiumPublicKey)]

def EnrollCompleteRequest.fromJson (j : Json) : Option EnrollCompleteRequest := do
  let [userId,ciphertext,dilithiumPublicKey] ← fields ["user_id","ciphertext","dilithium_public_key"] j | none
  return ⟨← userId.asString,← ciphertext.asString,← dilithiumPublicKey.asString⟩

def ChallengeRequest.members (req : ChallengeRequest) : Members := [("user_id",.string req.userId)]

def ChallengeRequest.fromJson (j : Json) : Option ChallengeRequest := do
  let [userId] ← fields ["user_id"] j | none
  return ⟨← userId.asString⟩

/-- An untagged variant is its fields and nothing else. -/
def VerifyMethod.members : VerifyMethod → Members
  | .totp totpCode => [("totp_code",ofNat totpCode.toNat)]
  | .challenge nonce clientTimestamp signature =>
    [("nonce",.string nonce),("client_timestamp",ofNat clientTimestamp.toNat),("signature",.string signature)]

def VerifyMethod.totpFromJson (j : Json) : Option VerifyMethod := do
  let [totpCode] ← fields ["totp_code"] j | none
  return .totp (← totpCode.asU32)

def VerifyMethod.challengeFromJson (j : Json) : Option VerifyMethod := do
  let [nonce,clientTimestamp,signature] ← fields ["nonce","client_timestamp","signature"] j | none
  return .challenge (← nonce.asString) (← clientTimestamp.asU64) (← signature.asString)

/-- The first variant that can be read. -/
def VerifyMethod.fromJson (j : Json) : Option VerifyMethod := totpFromJson j <|> challengeFromJson j

/-- The method is flattened into the request. -/
def VerifyRequest.members (req : VerifyRequest) : Members := ("user_id",.string req.userId) :: req.method.members

/-- serde_json stops at the 128th container it is in, of which the request is the first. -/
def VerifyRequest.memberDepth : ℕ := 126

/-- What is no field of the request is kept for its method, whatever the method makes
of it. A flattened record is read from an object only. -/
def VerifyRequest.fromJson : Json → Option VerifyRequest
  | .object ms => do
    let rest := ms.filter (fun m => m.1 != "user_id")
    guard (rest.all (fun m => m.2.buffers memberDepth))
    let userId ← member "user_id" ms
    let method ← VerifyMethod.fromJson (.object rest)
    return ⟨← userId.asString,method⟩
  | _ => none

/-! `serde_json::to_value` keeps the members of an object in the order of their names. -/

def EnrollBeginResponse.toJson (resp : EnrollBeginResponse) : Json :=
  .object [("kyber_public_key",.string resp.kyberPublicKey),("server_id",.string resp.serverId)]

def EnrollCompleteResponse.toJson (resp : EnrollCompleteResponse) : Json :=
  .object [("message",.string resp.message),("success",.bool resp.success)]

def ChallengeIssued.toJson (resp : ChallengeIssued) : Json :=
  .object [("issued_at",ofNat resp.issuedAt.toNat),("nonce",.string resp.nonce)]

def VerifyResponse.toJson (resp : VerifyResponse) : Json :=
  .object [("message",.string resp.message),("valid",.bool resp.valid)]

def Response.toJson : Response → Json
  | .enrollBegin resp => resp.toJson
  | .enrollComplete resp => resp.toJson
  | .challengeIssued resp => resp.toJson
  | .verify resp => resp.toJson

def EncryptedKeystore.members (keystore : EncryptedKeystore) : Members :=
  [("salt",.string keystore.salt),("nonce",.string keystore.nonce),("ciphertext",.string keystore.ciphertext),
    ("key_type",.string keystore.keyType),("version",ofNat keystore.version.toNat)]

def EncryptedKeystore.fromJson (j : Json) : Option EncryptedKeystore := do
  let [salt,nonce,ciphertext,keyType,version] ← fields ["salt","nonce","ciphertext","key_type","version"] j | none
  return ⟨← salt.asString,← nonce.asString,← ciphertext.asString,← keyType.asString,← version.asU32⟩

def HashedRecoveryCode.toJson (h : HashedRecoveryCode) : Json :=
  .object [("hash",.string h.hash),("used",.bool h.used)]

def HashedRecoveryCode.fromJson (j : Json) : Option HashedRecoveryCode := do
  let [hash,used] ← fields ["hash","used"] j | none
  return ⟨← hash.asString,← used.asBool⟩

def RecoveryCodeSet.members (set : RecoveryCodeSet) : Members :=
  [("codes",.array (set.codes.map HashedRecoveryCode.toJson)),("remaining",ofNat set.remaining)]

/-- `usize` has 64 bits. -/
def RecoveryCodeSet.fromJson (j : Json) : Option RecoveryCodeSet := do
  let [codes,remaining] ← fields ["codes","remaining"] j | none
  return ⟨← (← codes.asArray).mapM HashedRecoveryCode.fromJson,← remaining.asNat (2 ^ 64)⟩

end PqAuth
