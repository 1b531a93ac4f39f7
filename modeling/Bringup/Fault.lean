namespace Bringup

/-- Why checked arithmetic stops a program. -/
inductive Fault where
  | addOverflow
  | subOverflow
  | mulOverflow
  | divideByZero
  | rangeEnd (stop length : Nat)
  deriving DecidableEq, Repr

def Fault.message : Fault → String
  | .addOverflow => "attempt to add with overflow"
  | .subOverflow => "attempt to subtract with overflow"
  | .mulOverflow => "attempt to multiply with overflow"
  | .divideByZero => "attempt to divide by zero"
  | .rangeEnd stop length => s!"range end index {stop} out of range for slice of length {length}"

/-- A value, or the fault that stood in its way. -/
abbrev Checked := Except Fault

namespace Checked

/-- A result kept in eight bits. -/
def byte (overflow : Fault) (n : Nat) : Checked UInt8 :=
  if n < UInt8.size then .ok (UInt8.ofNat n) else .error overflow

/-- A result kept in sixteen bits. -/
def half (overflow : Fault) (n : Nat) : Checked UInt16 :=
  if n < UInt16.size then .ok (UInt16.ofNat n) else .error overflow

/-- A result kept in a signed word of 32 bits. -/
def signedWord (overflow : Fault) (n : Int) : Checked Int :=
  if Int32.minValue.toInt ≤ n ∧ n ≤ Int32.maxValue.toInt then .ok n else .error overflow

def sub (a b : Nat) : Checked Nat :=
  if b ≤ a then .ok (a - b) else .error .subOverflow

def div (a b : Nat) : Checked Nat :=
  if b = 0 then .error .divideByZero else .ok (a / b)

end Checked

end Bringup
