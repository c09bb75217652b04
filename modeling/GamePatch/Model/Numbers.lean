import GamePatch.Model.CString

/-! # Reading numbers

`strtoul` of `lv2_stdio.h` with a 64-bit `unsigned long`, and the conversions of
`patch.c` that choose its base. -/

namespace GamePatch

/-- The `val` of a letter or digit in the digit loop. -/
def digitValue (c : Char) : Option ℕ :=
  if '0' ≤ c ∧ c ≤ '9' then some (c.toNat - '0'.toNat)
  -- An upper-case letter is brought to lower case first.
  else if 'A' ≤ c ∧ c ≤ 'Z' then some (c.toNat + ('a'.toNat - 'A'.toNat) - 'a'.toNat + 10)
  else if 'a' ≤ c ∧ c ≤ 'z' then some (c.toNat - 'a'.toNat + 10)
  else none

/-- The digit loop of `strtoul`. -/
def strtoulLoop (base : ℕ) (result : UInt64) : CString → UInt64
  | [] => result
  | c :: nptr =>
      match digitValue c with
      | none => result
      | some val =>
          if base ≤ val then result
          else strtoulLoop base (result * UInt64.ofNat base + UInt64.ofNat val) nptr

/-- The optional sign: whether it is a minus, and the rest. -/
def skipSign : CString → Bool × CString
  | '+' :: nptr => (false, nptr)
  | '-' :: nptr => (true, nptr)
  | nptr => (false, nptr)

def hasHexPrefix : CString → Bool
  | '0' :: c :: _ => c = 'x' || c = 'X'
  | _ => false

/-- The base of the digit loop and where it starts. -/
def skipPrefix (base : ℕ) (nptr : CString) : ℕ × CString :=
  if (base = 0 ∨ base = 16) ∧ hasHexPrefix nptr then (16, nptr.drop 2)
  else if (base = 0 ∨ base = 8) ∧ nptr.head? = some '0' then (8, nptr.tail)
  else if base = 0 then (10, nptr)
  else (base, nptr)

/-- `ULONG_MAX`. -/
def ulongMax : UInt64 := 0xffffffffffffffff

/-- `strtoul` with a null `endptr`. -/
def strtoul (nptr : CString) (base : ℕ) : UInt64 :=
  if base ≠ 0 ∧ (base < 2 ∨ 36 < base) then 0
  else
    let (neg, nptr) := skipSign (nptr.dropWhile isspace)
    let (base, nptr) := skipPrefix base nptr
    let result := strtoulLoop base 0 nptr
    if neg ∧ result = ulongMax then ulongMax
    else if neg then -result
    else result

def strtoull (nptr : CString) (base : ℕ) : UInt64 := strtoul nptr base

def strtoll (nptr : CString) (base : ℕ) : Int64 := (strtoul nptr base).toInt64

def isHex (s : CString) : Bool := hasHexPrefix s

def isHexBase (s : CString) : ℕ := if isHex s then 16 else 10

def stringToInt (str : CString) : Int64 := strtoll str (isHexBase str)

def stringToUint (str : CString) : UInt64 := strtoull str (isHexBase str)

end GamePatch
