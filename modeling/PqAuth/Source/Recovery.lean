import Mathlib.Data.List.OfFn
import Mathlib.Data.Nat.PSub
import PqAuth.Source.ShakeMac

/-! `recovery.rs`: backup codes, their normal form and the set stored for a user. -/
namespace PqAuth

/-- What recovery codes take from outside. The full case mapping of Unicode
depends on the toolchain; one character may become several. -/
structure RecoveryLibrary where
  hex : Hex
  shake256 : Xof
  uppercase : Char → List Char

/-- Unicode's mapping of the ASCII characters. -/
def RecoveryLibrary.UppercasesAscii (lib : RecoveryLibrary) : Prop :=
  ∀ c : Char, c.toNat < 128 → lib.uppercase c = [c.toUpper]

/-- A recovery code in plain text. -/
structure RecoveryCode where
  code : String
  deriving DecidableEq, Repr

/-- A recovery code as stored. -/
structure HashedRecoveryCode where
  hash : String
  used : Bool
  deriving DecidableEq, Repr

/-- Recovery codes of one user; `remaining` is kept beside them. -/
structure RecoveryCodeSet where
  codes : List HashedRecoveryCode
  remaining : ℕ
  deriving DecidableEq, Repr

namespace Recovery

/-- Without characters that look alike. -/
def alphabet : List Char := "2346789ABCDEFGHJKMNPQRTUVWXYZ".toList

def groups : ℕ := 8

def groupLen : ℕ := 4

def domain : Bytes := "pqauth-recovery-v1".toUTF8.data.toList

/-- What `gen_range` returns for one code, in the order of the calls. -/
abbrev Draws := Fin (groups * groupLen) → Fin alphabet.length

def drawIndex (i : Fin groups) (j : Fin groupLen) : Fin (groups * groupLen) :=
  ⟨i * groupLen + j,by
    have hnext := Nat.mul_le_mul_right groupLen i.isLt
    rw [Nat.succ_mul] at hnext
    omega⟩

/-- Generate one code from its draws. -/
def generateCode (draws : Draws) : RecoveryCode :=
  let group (i : Fin groups) : String :=
    String.ofList (List.ofFn fun j : Fin groupLen => alphabet[draws (drawIndex i j)])
  ⟨"-".intercalate (List.ofFn group)⟩

def generateCodes (draws : List Draws) : List RecoveryCode := draws.map generateCode

variable (lib : RecoveryLibrary)

def toUppercase (s : String) : String := String.ofList (s.toList.flatMap lib.uppercase)

/-- Remove dashes, then uppercase. -/
def normalize (code : String) : String :=
  toUppercase lib (String.ofList (code.toList.filter (· != '-')))

def digest (normalized : String) : Bytes :=
  ShakeMac.shake256Mac lib.shake256 domain normalized.toUTF8.data.toList 32

/-- Hash a recovery code for storage. -/
def hashCode (code : String) : HashedRecoveryCode := ⟨lib.hex.encode (digest lib (normalize lib code)),false⟩

/-- The index of the first unused code that matches. -/
def verifyCode (code : String) (stored : List HashedRecoveryCode) : Option ℕ :=
  let candidate := hashCode lib code
  stored.findIdx? (fun h =>
    !h.used && ShakeMac.verifyMac h.hash.toUTF8.data.toList candidate.hash.toUTF8.data.toList)

def fromCodes (codes : List RecoveryCode) : RecoveryCodeSet :=
  let hashed := codes.map (fun c => hashCode lib c.code)
  ⟨hashed,hashed.length⟩

/-- `remaining -= 1` on a `usize`, which wraps. -/
def decrement : ℕ → ℕ
  | 0 => 2 ^ 64 - 1
  | n + 1 => n

/-- Try to use a recovery code. -/
def useCode (set : RecoveryCodeSet) (code : String) : Bool × RecoveryCodeSet :=
  match verifyCode lib code set.codes with
  | some idx => (true,⟨set.codes.modify idx (fun h => { h with used := true }),decrement set.remaining⟩)
  | none => (false,set)

/-- The same in a build with overflow checks; `none` is a panic. -/
def useCodeChecked (set : RecoveryCodeSet) (code : String) : Option (Bool × RecoveryCodeSet) :=
  match verifyCode lib code set.codes with
  | some idx => do
    let remaining ← set.remaining.ppred
    return (true,⟨set.codes.modify idx (fun h => { h with used := true }),remaining⟩)
  | none => some (false,set)

variable {lib}

theorem decrement_of_pos {n : ℕ} (h : 0 < n) : decrement n = n - 1 := by
  cases n with
  | zero => exact absurd h (Nat.lt_irrefl 0)
  | succ n => rfl

theorem useCodeChecked_of_pos {set : RecoveryCodeSet} {code : String}
    (h : (useCode lib set code).1 = true → 0 < set.remaining) :
    useCodeChecked lib set code = some (useCode lib set code) := by
  cases hv : verifyCode lib code set.codes with
  | none => simp only [useCodeChecked, useCode, hv]
  | some idx =>
    have hpos : 0 < set.remaining := h (by simp only [useCode, hv])
    simp only [useCodeChecked, useCode, hv, decrement_of_pos hpos, Nat.ppred_eq_pred hpos, Option.bind_eq_bind,
      Option.bind_some]
    rfl

/-- An entry that is still unused and stored under the hash. -/
def Available (hash : String) (h : HashedRecoveryCode) : Prop := h.used = false ∧ h.hash = hash

theorem available_iff_eq {hash : String} {h : HashedRecoveryCode} : Available hash h ↔ h = ⟨hash,false⟩ := by
  constructor
  · rintro ⟨hunused,hhash⟩
    rw [← hunused, ← hhash]
  · rintro rfl
    exact ⟨rfl,rfl⟩

/-- The index of the first available entry. -/
def FirstAvailable (hash : String) (stored : List HashedRecoveryCode) (idx : ℕ) : Prop :=
  ∃ hidx : idx < stored.length, Available hash stored[idx] ∧ ∀ j (hj : j < idx), ¬ Available hash stored[j]

theorem matches_iff (h : HashedRecoveryCode) (hash : String) :
    (!h.used && ShakeMac.verifyMac h.hash.toUTF8.data.toList hash.toUTF8.data.toList) = true ↔ Available hash h := by
  rw [Bool.and_eq_true, Bool.not_eq_true', ShakeMac.verifyMac_iff, Words.utf8_inj]
  rfl

theorem verifyCode_eq_none_iff {code : String} {stored : List HashedRecoveryCode} :
    verifyCode lib code stored = none ↔ ∀ h ∈ stored, ¬ Available (hashCode lib code).hash h := by
  simp only [verifyCode, List.findIdx?_eq_none_iff, ← Bool.not_eq_true, matches_iff]

theorem verifyCode_eq_some_iff {code : String} {stored : List HashedRecoveryCode} {idx : ℕ} :
    verifyCode lib code stored = some idx ↔ FirstAvailable (hashCode lib code).hash stored idx := by
  simp only [verifyCode, List.findIdx?_eq_some_iff_getElem, matches_iff]
  rfl

/-- Stored hashes agree as the digests do. -/
theorem hash_eq_iff (hx : lib.hex.RoundTrip) {a b : String} :
    (hashCode lib a).hash = (hashCode lib b).hash ↔
      digest lib (normalize lib a) = digest lib (normalize lib b) := by
  constructor
  · intro h
    have hdecoded := congrArg lib.hex.decode h
    rw [hashCode, hashCode, hx, hx] at hdecoded
    exact Option.some.inj hdecoded
  · exact fun h => congrArg lib.hex.encode h

end Recovery
end PqAuth
