import Mathlib.Data.List.Basic
import Mathlib.Tactic.Ring

/-! Unsigned machine words: the saturating operations and the big-endian byte
encoding. Every operation is characterized by its value as a natural number. -/
namespace PqAuth

abbrev Bytes := List UInt8

/-- A byte array, whose length is part of its type. -/
abbrev FixedBytes (n : ℕ) := {bytes : Bytes // bytes.length = n}

namespace Words

/-- A slice converts to an array of its own length and to no other. -/
def tryInto (n : ℕ) (bytes : Bytes) : Option (FixedBytes n) :=
  if h : bytes.length = n then some ⟨bytes,h⟩ else none

theorem tryInto_eq_some {n : ℕ} {bytes : Bytes} {array : FixedBytes n} :
    tryInto n bytes = some array ↔ bytes = array.val := by
  unfold tryInto
  split
  · rw [Option.some_inj]
    exact ⟨fun h => congrArg Subtype.val h,fun h => Subtype.ext h⟩
  · rename_i hlen
    constructor
    · intro h
      cases h
    · rintro rfl
      exact absurd array.property hlen

@[simp] theorem tryInto_val {n : ℕ} (array : FixedBytes n) : tryInto n array.val = some array :=
  tryInto_eq_some.mpr rfl

theorem tryInto_eq_none {n : ℕ} {bytes : Bytes} : tryInto n bytes = none ↔ bytes.length ≠ n := by
  simp [tryInto]

/-- `split_at`; `none` is its panic. -/
def splitAt (mid : ℕ) (bytes : Bytes) : Option (Bytes × Bytes) :=
  if mid ≤ bytes.length then some (bytes.take mid,bytes.drop mid) else none

theorem splitAt_of_le {mid : ℕ} {bytes : Bytes} (h : mid ≤ bytes.length) :
    splitAt mid bytes = some (bytes.take mid,bytes.drop mid) := if_pos h

/-- Subtraction that stops at zero. -/
def saturatingSub (a b : UInt64) : UInt64 := if b ≤ a then a - b else 0

def absDiff (a b : UInt64) : UInt64 := if a ≤ b then b - a else a - b

theorem toNat_saturatingSub (a b : UInt64) : (saturatingSub a b).toNat = a.toNat - b.toNat := by
  unfold saturatingSub
  split
  · rename_i h
    exact UInt64.toNat_sub_of_le a b h
  · rename_i h
    rw [UInt64.le_iff_toNat_le] at h
    simp only [UInt64.toNat_zero]
    omega

theorem toNat_absDiff (a b : UInt64) :
    (absDiff a b).toNat = (a.toNat - b.toNat) + (b.toNat - a.toNat) := by
  unfold absDiff
  split
  · rename_i h
    rw [UInt64.toNat_sub_of_le b a h]
    rw [UInt64.le_iff_toNat_le] at h
    omega
  · rename_i h
    have hb : b ≤ a := by
      rw [UInt64.le_iff_toNat_le] at h ⊢
      omega
    rw [UInt64.toNat_sub_of_le a b hb]
    rw [UInt64.le_iff_toNat_le] at h
    omega

/-- A difference of words that does not wrap, compared as numbers. -/
theorem lt_sub_iff {a b c : UInt64} (h : b ≤ a) : c < a - b ↔ b.toNat + c.toNat < a.toNat := by
  rw [UInt64.lt_iff_toNat_lt, UInt64.toNat_sub_of_le _ _ h]
  rw [UInt64.le_iff_toNat_le] at h
  omega

/-- Addition that fails where a build with overflow checks panics. -/
def checkedAdd (a b : UInt64) : Option UInt64 := if a.toNat + b.toNat < 2 ^ 64 then some (a + b) else none

def checkedSub (a b : UInt64) : Option UInt64 := if b ≤ a then some (a - b) else none

def checkedAdd32 (a b : UInt32) : Option UInt32 := if a.toNat + b.toNat < 2 ^ 32 then some (a + b) else none

/-- The low `n` bytes of a number, most significant first. -/
def bigEndian : ℕ → ℕ → Bytes
  | 0, _ => []
  | n + 1, v => bigEndian n (v / 256) ++ [UInt8.ofNat v]

/-- The number a big-endian byte string spells. -/
def fromBigEndian (bytes : Bytes) : ℕ := bytes.foldl (fun v b => v * 256 + b.toNat) 0

@[simp] theorem bigEndian_length (n v : ℕ) : (bigEndian n v).length = n := by
  induction n generalizing v with
  | zero => rfl
  | succ n ih => simp [bigEndian, ih]

theorem fromBigEndian_bigEndian (n v : ℕ) : fromBigEndian (bigEndian n v) = v % 256 ^ n := by
  induction n generalizing v with
  | zero => simp [bigEndian, fromBigEndian, Nat.mod_one]
  | succ n ih =>
    have hstep : fromBigEndian (bigEndian (n + 1) v) =
        fromBigEndian (bigEndian n (v / 256)) * 256 + v % 256 := by
      simp [fromBigEndian, bigEndian, List.foldl_append]
    rw [hstep, ih, pow_succ', Nat.mod_mul]
    ring

/-- `u64::to_be_bytes`. -/
def toBeBytes (x : UInt64) : Bytes := bigEndian 8 x.toNat

/-- `u32::to_be_bytes`. -/
def toBeBytes32 (x : UInt32) : Bytes := bigEndian 4 x.toNat

/-- `u32::from_be_bytes`. -/
def fromBeBytes32 (a b c d : UInt8) : UInt32 := UInt32.ofNat (fromBigEndian [a,b,c,d])

@[simp] theorem toBeBytes_length (x : UInt64) : (toBeBytes x).length = 8 := bigEndian_length 8 _

@[simp] theorem toBeBytes32_length (x : UInt32) : (toBeBytes32 x).length = 4 := bigEndian_length 4 _

theorem toBeBytes_injective : Function.Injective toBeBytes := by
  intro x y h
  have hv := congrArg fromBigEndian h
  rw [toBeBytes, toBeBytes, fromBigEndian_bigEndian, fromBigEndian_bigEndian] at hv
  have hx := x.toNat_lt
  have hy := y.toNat_lt
  apply UInt64.toNat_inj.mp
  omega

theorem toBeBytes32_injective : Function.Injective toBeBytes32 := by
  intro x y h
  have hv := congrArg fromBigEndian h
  rw [toBeBytes32, toBeBytes32, fromBigEndian_bigEndian, fromBigEndian_bigEndian] at hv
  have hx := x.toNat_lt
  have hy := y.toNat_lt
  apply UInt32.toNat_inj.mp
  omega

theorem utf8_inj {s t : String} : s.toUTF8.data.toList = t.toUTF8.data.toList ↔ s = t := by
  rw [Array.toList_inj, String.toUTF8_eq_toByteArray, String.toUTF8_eq_toByteArray, ← ByteArray.ext_iff,
    String.toByteArray_inj]

end Words
end PqAuth
