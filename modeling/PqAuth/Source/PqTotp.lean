import PqAuth.Foundation.Decimal
import PqAuth.Source.ShakeMac

/-! `pq_totp.rs`: time-based one-time passwords. Arithmetic is that of a release
build, where an unsigned addition wraps. -/
namespace PqAuth.PqTotp
open Words ShakeMac
variable (xof : Xof)

def timeStep : UInt64 := 30

def modulus : UInt32 := 100000000

private theorem low_nibble_le (b : UInt8) : (b &&& 0x0F).toNat ≤ 15 := by
  rw [UInt8.toNat_and]
  exact Nat.and_le_right

def generateAtStep (secret : Bytes) (counter : UInt64) : UInt32 :=
  let mac := shake256Mac xof secret (toBeBytes counter) 32
  have hmac : mac.length = 32 := shake256Mac_length ..
  let offset := (mac[mac.length - 1] &&& 0x0F).toNat
  have hoffset : offset ≤ 15 := low_nibble_le _
  let code := fromBeBytes32 (mac[offset] &&& 0x7F) mac[offset + 1] mac[offset + 2] mac[offset + 3]
  code % modulus

/-- The truncation with its index checks; `none` is an index outside the MAC. -/
def truncate (mac : Bytes) : Option UInt32 := do
  let last ← mac[mac.length - 1]?
  let offset := (last &&& 0x0F).toNat
  let b0 ← mac[offset]?
  let b1 ← mac[offset + 1]?
  let b2 ← mac[offset + 2]?
  let b3 ← mac[offset + 3]?
  return fromBeBytes32 (b0 &&& 0x7F) b1 b2 b3 % modulus

def generate (secret : Bytes) (timestamp : UInt64) : UInt32 :=
  generateAtStep xof secret (timestamp / timeStep)

/-- The inclusive range `start..=last`, in order. -/
def steps (start last : UInt64) : List UInt64 :=
  (List.range' start.toNat (last.toNat + 1 - start.toNat)).map UInt64.ofNat

/-- The loop returns at the first step whose code matches. -/
def verify (secret : Bytes) (code : UInt32) (timestamp window : UInt64) : Bool :=
  let currentStep := timestamp / timeStep
  let start := saturatingSub currentStep window
  let last := currentStep + window
  let candidate := toBeBytes32 code
  (steps start last).any (fun step => verifyMac candidate (toBeBytes32 (generateAtStep xof secret step)))

/-- The same in a build with overflow checks; `none` is a panic. -/
def verifyChecked (secret : Bytes) (code : UInt32) (timestamp window : UInt64) : Option Bool := do
  let currentStep := timestamp / timeStep
  let start := saturatingSub currentStep window
  let last ← checkedAdd currentStep window
  let candidate := toBeBytes32 code
  return (steps start last).any (fun step => verifyMac candidate (toBeBytes32 (generateAtStep xof secret step)))

/-- Eight digits, zero-padded. -/
def formatCode (code : UInt32) : String := String.ofList (Decimal.padded 8 code.toNat)

def secondsRemaining (timestamp : UInt64) : UInt64 := timeStep - timestamp % timeStep

theorem truncate_eq {mac : Bytes} (hmac : mac.length = 32) {last : UInt8} (hlast : mac[mac.length - 1]? = some last) :
    ∃ hoffset : (last &&& 0x0F).toNat + 3 < mac.length,
      truncate mac = some (fromBeBytes32 (mac[(last &&& 0x0F).toNat] &&& 0x7F) mac[(last &&& 0x0F).toNat + 1]
        mac[(last &&& 0x0F).toNat + 2] mac[(last &&& 0x0F).toNat + 3] % modulus) := by
  have hoffset := low_nibble_le last
  refine ⟨by omega,?_⟩
  unfold truncate
  rw [hlast]
  simp only [Option.bind_eq_bind, Option.bind_some]
  rw [List.getElem?_eq_getElem (by omega), List.getElem?_eq_getElem (by omega), List.getElem?_eq_getElem (by omega),
    List.getElem?_eq_getElem (by omega)]
  rfl

/-- The indices of the truncation stay inside the MAC. -/
theorem truncate_mac (secret : Bytes) (counter : UInt64) :
    truncate (shake256Mac xof secret (toBeBytes counter) 32) = some (generateAtStep xof secret counter) := by
  have hmac : (shake256Mac xof secret (toBeBytes counter) 32).length = 32 := shake256Mac_length ..
  obtain ⟨_,h⟩ := truncate_eq hmac (List.getElem?_eq_getElem (by omega))
  exact h

theorem verifyChecked_eq (secret : Bytes) (code : UInt32) (timestamp window : UInt64) :
    verifyChecked xof secret code timestamp window =
      if (timestamp / timeStep).toNat + window.toNat < 2 ^ 64 then some (verify xof secret code timestamp window)
      else none := by
  simp only [verifyChecked, checkedAdd]
  split <;> rfl

theorem steps_length (start last : UInt64) : (steps start last).length = last.toNat + 1 - start.toNat := by
  simp [steps]

theorem generateAtStep_lt (secret : Bytes) (counter : UInt64) :
    (generateAtStep xof secret counter).toNat < 10 ^ 8 := by
  simp only [generateAtStep, UInt32.toNat_mod]
  exact Nat.mod_lt _ (by decide)

theorem mem_steps (start last s : UInt64) : s ∈ steps start last ↔ start ≤ s ∧ s ≤ last := by
  simp only [steps, List.mem_map, List.mem_range'_1, UInt64.le_iff_toNat_le]
  have hl := last.toNat_lt
  constructor
  · rintro ⟨n,hn,rfl⟩
    have hn64 : n < UInt64.size := by
      change n < 2 ^ 64
      omega
    rw [UInt64.toNat_ofNat_of_lt' hn64]
    omega
  · intro h
    exact ⟨s.toNat,by omega,by simp⟩

theorem verify_iff (secret : Bytes) (code : UInt32) (timestamp window : UInt64) :
    verify xof secret code timestamp window = true ↔
      ∃ s, saturatingSub (timestamp / timeStep) window ≤ s ∧ s ≤ timestamp / timeStep + window ∧
        generateAtStep xof secret s = code := by
  simp only [verify, List.any_eq_true, mem_steps, verifyMac_iff, toBeBytes32_injective.eq_iff, and_assoc]
  exact exists_congr fun s => by rw [eq_comm (a := code)]

/-- Clocks at most one time step apart agree within the server's window of one. -/
theorem verify_generate (secret : Bytes) (clientTime serverTime : UInt64)
    (h : absDiff clientTime serverTime ≤ timeStep) :
    verify xof secret (generate xof secret clientTime) serverTime 1 = true := by
  rw [UInt64.le_iff_toNat_le, toNat_absDiff] at h
  change _ ≤ 30 at h
  have hs := serverTime.toNat_lt
  apply (verify_iff xof ..).mpr
  refine ⟨clientTime / timeStep,?_,?_,rfl⟩
  · rw [UInt64.le_iff_toNat_le, toNat_saturatingSub, UInt64.toNat_div, UInt64.toNat_div]
    change serverTime.toNat / 30 - 1 ≤ clientTime.toNat / 30
    omega
  · rw [UInt64.le_iff_toNat_le, UInt64.toNat_add, UInt64.toNat_div, UInt64.toNat_div]
    change clientTime.toNat / 30 ≤ (serverTime.toNat / 30 + 1) % 2 ^ 64
    omega

end PqAuth.PqTotp
