import Mathlib.Tactic.Ring

/-! Decimal text: numbers printed to a width, and a reader that refuses what does
not fit a bound. -/
namespace PqAuth.Decimal

/-- Decimal digits, filled up with zeros on the left. -/
def padded (width n : ℕ) : List Char := List.leftpad width '0' (Nat.toDigits 10 n)

theorem value_padded (width n : ℕ) : Nat.ofDigitChars 10 (padded width n) 0 = n := by
  rw [padded, List.leftpad, Nat.ofDigitChars_append, Nat.ofDigitChars_replicate_zero, Nat.mul_zero,
    Nat.ofDigitChars_ten_toDigits]

theorem padded_length {width n : ℕ} (hw : 0 < width) (h : n < 10 ^ width) : (padded width n).length = width := by
  have hlen := (Nat.length_toDigits_le_iff (by decide) hw).mpr h
  rw [padded, List.length_leftpad]
  exact Nat.max_eq_left hlen

theorem isDigit_of_mem_padded {width n : ℕ} {c : Char} (h : c ∈ padded width n) : c.isDigit = true := by
  rcases List.mem_append.mp h with hzero | hdigit
  · rw [List.eq_of_mem_replicate hzero]
    rfl
  · exact Nat.isDigit_of_mem_toDigits (by decide) (by decide) hdigit

theorem padded_ne_nil (width n : ℕ) : padded width n ≠ [] := by
  intro h
  exact Nat.toDigits_ne_nil (List.append_eq_nil_iff.mp h).2

/-- Zeros on the left do not change the number. -/
theorem padded_injective (width : ℕ) : Function.Injective (padded width) := by
  intro m n h
  calc m
      _ = Nat.ofDigitChars 10 (padded width m) 0 := (value_padded width m).symm
      _ = Nat.ofDigitChars 10 (padded width n) 0 := by rw [h]
      _ = n := value_padded width n

/-- A number ends where the digits do. -/
theorem toString_append_inj {m n : ℕ} {c : Char} {s t : String} (hc : c.isDigit = false)
    (h : toString m ++ (String.singleton c ++ s) = toString n ++ (String.singleton c ++ t)) : m = n ∧ s = t := by
  have hlist := congrArg String.toList h
  have hdigits (k : ℕ) (r : String) : (toString k ++ (String.singleton c ++ r)).toList =
      Nat.toDigits 10 k ++ c :: r.toList := by
    simp
  have htake (k : ℕ) (r : List Char) : (Nat.toDigits 10 k ++ c :: r).takeWhile Char.isDigit = Nat.toDigits 10 k := by
    rw [List.takeWhile_append_of_pos fun _ => Nat.isDigit_of_mem_toDigits (by decide) (by decide)]
    simp [hc]
  rw [hdigits, hdigits] at hlist
  have hsame : Nat.toDigits 10 m = Nat.toDigits 10 n := by
    rw [← htake m s.toList, hlist, htake]
  rw [hsame] at hlist
  refine ⟨?_,String.toList_inj.mp (List.cons.inj (List.append_cancel_left hlist)).2⟩
  rw [← @Nat.ofDigitChars_ten_toDigits m, hsame, Nat.ofDigitChars_ten_toDigits]

/-- Why a text is not a number below the bound. -/
inductive ErrorKind where
  | empty
  | invalidDigit
  | posOverflow
  deriving DecidableEq, Repr

/-- Reads digits until one is invalid or the number reaches the bound. -/
def scan (bound : ℕ) : ℕ → List Char → Except ErrorKind ℕ
  | value, [] => .ok value
  | value, c :: rest =>
    if c.isDigit then
      let next := 10 * value + (c.toNat - '0'.toNat)
      if next < bound then scan bound next rest else .error .posOverflow
    else .error .invalidDigit

/-- A leading plus sign is dropped; a sign alone is no number. -/
def parse (bound : ℕ) (text : List Char) : Except ErrorKind ℕ :=
  if text = [] then .error .empty
  else if text = ['+'] ∨ text = ['-'] then .error .invalidDigit
  else scan bound 0 (if text.head? = some '+' then text.tail else text)

theorem le_ofDigitChars (text : List Char) (value : ℕ) : value ≤ Nat.ofDigitChars 10 text value := by
  rw [Nat.ofDigitChars_eq_ofDigitChars_zero]
  have hpos : 0 < 10 ^ text.length := Nat.pow_pos (by decide)
  exact Nat.le_add_right_of_le (Nat.le_mul_of_pos_left value hpos)

theorem scan_eq_ok_iff {bound value n : ℕ} (hv : value < bound) (text : List Char) :
    scan bound value text = .ok n ↔
      (∀ c ∈ text, c.isDigit = true) ∧ Nat.ofDigitChars 10 text value = n ∧ n < bound := by
  induction text generalizing value with
  | nil =>
    simp only [scan, Except.ok.injEq, List.not_mem_nil, false_implies, implies_true, true_and, Nat.ofDigitChars_nil]
    constructor
    · rintro rfl
      exact ⟨rfl,hv⟩
    · exact fun h => h.1
  | cons c rest ih =>
    simp only [scan, List.forall_mem_cons, Nat.ofDigitChars_cons]
    by_cases hc : c.isDigit = true
    · by_cases hnext : 10 * value + (c.toNat - '0'.toNat) < bound
      · rw [if_pos hc, if_pos hnext, ih hnext]
        simp only [hc, true_and]
      · rw [if_pos hc, if_neg hnext]
        have hle := le_ofDigitChars rest (10 * value + (c.toNat - '0'.toNat))
        simp only [reduceCtorEq, false_iff]
        rintro ⟨_,rfl,hlt⟩
        omega
    · simp [hc]

/-- Digits are read as they stand. -/
theorem parse_eq_scan {text : List Char} (hne : text ≠ []) (hdigits : ∀ c ∈ text, c.isDigit = true) (bound : ℕ) :
    parse bound text = scan bound 0 text := by
  obtain ⟨c,rest,rfl⟩ := List.exists_cons_of_ne_nil hne
  have hc := hdigits c List.mem_cons_self
  have hplus : c ≠ '+' := by
    rintro rfl
    cases hc
  have hminus : c ≠ '-' := by
    rintro rfl
    cases hc
  simp [parse, hplus, hminus]

/-- What was printed is read back. -/
theorem parse_padded {bound n : ℕ} (h : n < bound) (width : ℕ) : parse bound (padded width n) = .ok n := by
  rw [parse_eq_scan (padded_ne_nil width n) (fun _ => isDigit_of_mem_padded), scan_eq_ok_iff (Nat.zero_lt_of_lt h)]
  exact ⟨fun _ => isDigit_of_mem_padded,value_padded width n,h⟩

/-- `str::parse::<u32>`. -/
def parseU32 (text : String) : Except ErrorKind UInt32 := (parse (2 ^ 32) text.toList).map UInt32.ofNat

theorem parseU32_padded (width : ℕ) (x : UInt32) : parseU32 (String.ofList (padded width x.toNat)) = .ok x := by
  rw [parseU32, String.toList_ofList, parse_padded x.toNat_lt, Except.map, UInt32.ofNat_toNat]

end PqAuth.Decimal
