import PqAuth.Source.Crates

/-! `shake_mac.rs`: hashing, the envelope MAC and its comparison. -/
namespace PqAuth.ShakeMac
variable (xof : Xof)

def shake256 (input : Bytes) (outLen : ℕ) : Bytes := (List.range outLen).map (xof input)

/-- The string absorbed for a key and a message. -/
def envelope (key message : Bytes) : Bytes := key ++ message ++ key

def shake256Mac (key message : Bytes) (outLen : ℕ) : Bytes :=
  (List.range outLen).map (xof (envelope key message))

/-- The MAC as a fixed array. -/
def shake256MacFixed (key message : Bytes) : {tag : Bytes // tag.length = 32} :=
  ⟨(List.range 32).map (xof (envelope key message)),by simp⟩

/-- A keyed MAC context. -/
structure Context where
  key : Bytes
  deriving DecidableEq, Repr

def Context.new (key : Bytes) : Context := ⟨key⟩

def Context.mac (context : Context) (message : Bytes) : {tag : Bytes // tag.length = 32} :=
  shake256MacFixed xof context.key message

/-- The loop ORs the XOR of every pair of bytes into one byte. -/
def verifyMac (expected computed : Bytes) : Bool :=
  if expected.length != computed.length then false
  else (expected.zip computed).foldl (fun diff ab => diff ||| (ab.1 ^^^ ab.2)) 0 == 0

def Context.verify (context : Context) (message tag : Bytes) : Bool :=
  verifyMac (context.mac xof message).val tag

@[simp] theorem shake256_length (input : Bytes) (outLen : ℕ) :
    (shake256 xof input outLen).length = outLen := by
  simp [shake256]

@[simp] theorem shake256Mac_length (key message : Bytes) (outLen : ℕ) :
    (shake256Mac xof key message outLen).length = outLen := by
  simp [shake256Mac]

private theorem or_eq_zero (a b : UInt8) : a ||| b = 0 ↔ a = 0 ∧ b = 0 := by
  simp only [← UInt8.toBitVec_inj, UInt8.toBitVec_or, UInt8.toBitVec_zero, BitVec.or_eq_zero_iff]

private theorem diff_eq_zero (pairs : List (UInt8 × UInt8)) (diff : UInt8) :
    pairs.foldl (fun diff ab => diff ||| (ab.1 ^^^ ab.2)) diff = 0 ↔
      diff = 0 ∧ ∀ ab ∈ pairs, ab.1 = ab.2 := by
  induction pairs generalizing diff with
  | nil => simp
  | cons ab pairs ih =>
    rw [List.foldl_cons, ih, or_eq_zero, UInt8.xor_eq_zero_iff]
    simp [and_assoc]

/-- The accumulator is zero exactly for equal slices. -/
theorem verifyMac_iff (expected computed : Bytes) :
    verifyMac expected computed = true ↔ expected = computed := by
  unfold verifyMac
  by_cases hlen : expected.length = computed.length
  · simp only [hlen, bne_self_eq_false, Bool.false_eq_true, if_false, beq_iff_eq, diff_eq_zero, true_and]
    constructor
    · intro h
      apply List.ext_getElem hlen
      intro i hi hj
      exact h (expected[i],computed[i]) (List.mem_iff_getElem.mpr ⟨i,by simp; omega,by simp⟩)
    · rintro rfl ab hab
      obtain ⟨i,hi,rfl⟩ := List.mem_iff_getElem.mp hab
      simp
  · have hne : expected ≠ computed := fun h => hlen (congrArg List.length h)
    simp [hlen, hne]

end PqAuth.ShakeMac
