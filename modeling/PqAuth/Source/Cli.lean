import PqAuth.Source.PqTotp

/-! `main.rs`: the commands that print a one-time code and check one. The clock
is an argument. -/
namespace PqAuth.Cli

/-- What a command panics with. -/
inductive Panic where
  | invalidHexSecret
  | codeMustBeNumeric (e : Decimal.ErrorKind)
  | overflow
  deriving DecidableEq, Repr

/-- Printed lines and exit status. -/
structure Exit where
  lines : List String
  status : ℕ
  deriving DecidableEq, Repr

variable (hex : Hex) (xof : Xof)

def auth (secret : String) (now : UInt64) : Except Panic Exit :=
  match hex.decode secret with
  | none => .error .invalidHexSecret
  | some secretBytes =>
    let code := PqTotp.generate xof secretBytes now
    let remaining := PqTotp.secondsRemaining now
    .ok ⟨[PqTotp.formatCode code,"Valid for " ++ toString remaining ++ "s"],0⟩

def valid : Exit := ⟨["✓ Valid"],0⟩

def invalid : Exit := ⟨["✗ Invalid"],1⟩

/-- The command around one build of the verification; `none` is its panic. -/
def verifyWith (check : Bytes → UInt32 → UInt64 → UInt64 → Option Bool) (code secret : String)
    (window now : UInt64) : Except Panic Exit :=
  match hex.decode secret with
  | none => .error .invalidHexSecret
  | some secretBytes =>
    match Decimal.parseU32 code with
    | .error e => .error (.codeMustBeNumeric e)
    | .ok codeNum =>
      match check secretBytes codeNum now window with
      | none => .error .overflow
      | some accepted => .ok (if accepted then valid else invalid)

def verify (code secret : String) (window now : UInt64) : Except Panic Exit :=
  verifyWith hex (fun secret code timestamp window => some (PqTotp.verify xof secret code timestamp window))
    code secret window now

/-- The same in a build with overflow checks. -/
def verifyChecked (code secret : String) (window now : UInt64) : Except Panic Exit :=
  verifyWith hex (PqTotp.verifyChecked xof) code secret window now

variable {hex xof}

/-- A secret that decodes gets its code printed and the time it is good for. -/
theorem auth_of_decode {secret : String} {secretBytes : Bytes} (hd : hex.decode secret = some secretBytes)
    (now : UInt64) : auth hex xof secret now =
      .ok ⟨[PqTotp.formatCode (PqTotp.generate xof secretBytes now),
        "Valid for " ++ toString (PqTotp.secondsRemaining now) ++ "s"],0⟩ := by
  rw [auth, hd]

theorem verifyWith_formatCode {check : Bytes → UInt32 → UInt64 → UInt64 → Option Bool} {secret : String}
    {secretBytes : Bytes} {code : UInt32} {window now : UInt64} (hd : hex.decode secret = some secretBytes)
    (hcheck : check secretBytes code now window = some true) :
    verifyWith hex check (PqTotp.formatCode code) secret window now = .ok valid := by
  simp only [verifyWith, hd, PqTotp.formatCode, Decimal.parseU32_padded, hcheck]
  rfl

end PqAuth.Cli
