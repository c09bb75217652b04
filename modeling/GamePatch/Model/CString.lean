import Mathlib.Data.List.Infix
import Mathlib.Data.List.DropRight

/-! # C strings

A C string is the list of its bytes up to the terminating zero. A pointer into
it is the rest of the list from there on. -/

namespace GamePatch

abbrev CString := List Char

/-- `MAX_LINE_LENGTH`; a line buffer has one more cell. -/
def maxLineLength : ℕ := 1024

/-- `MAX_ARRAY_LENGTH`, the size of the tables of versions and of titles. -/
def maxArrayLength : ℕ := 16

/-- The string that starts at a buffer: its cells up to the first zero. -/
def cstring (buffer : List Char) : CString := buffer.takeWhile (· ≠ '\x00')

theorem cstring_padded {text : List Char} (h : '\x00' ∉ text) (n : ℕ) :
    cstring (text ++ List.replicate n '\x00') = text := by
  have hpos : ∀ c ∈ text, decide (c ≠ '\x00') = true := by
    intro c hc
    rw [decide_eq_true_iff]
    rintro rfl
    exact h hc
  rw [cstring, List.takeWhile_append_of_pos hpos]
  cases n <;> simp [List.replicate_succ]

theorem cstring_of_not_mem {text : List Char} (h : '\x00' ∉ text) : cstring text = text := by
  have hpadded := cstring_padded h 0
  rwa [List.replicate_zero, List.append_nil] at hpadded

theorem cstring_append_zero (text behind : List Char) :
    cstring (text ++ '\x00' :: behind) = cstring text := by
  induction text with
  | nil => rfl
  | cons c text ih =>
      unfold cstring at ih ⊢
      rw [List.cons_append, List.takeWhile_cons, List.takeWhile_cons, ih]

def isspace (c : Char) : Bool :=
  c = ' ' || c = '\n' || c = '\t' || c = '\r' || c = '\x0c' || c = '\x0b'

def isdigit (c : Char) : Bool := '0' ≤ c && c ≤ '9'

/-- `strchr`: the rest of the string from the first `c` on. -/
def strchr (c : Char) : CString → Option CString
  | [] => none
  | x :: xs => if x = c then some (x :: xs) else strchr c xs

/-- `strstr` of `lv2_stdio.h`: the rest of the haystack from the first
occurrence on. An empty haystack holds nothing, not even an empty needle. -/
def strstr (needle : CString) : CString → Option CString
  | [] => none
  | x :: xs => if needle.isPrefixOf (x :: xs) then some (x :: xs) else strstr needle xs

/-- `strstr` of the host's C library, where an empty needle is always found. -/
def strstrHost (needle haystack : CString) : Option CString :=
  if needle = [] then some haystack else strstr needle haystack

/-- `strncmp` gives zero: the strings agree on their first `n` characters. -/
def strncmpZero (s t : CString) (n : ℕ) : Bool := s.take n = t.take n

/-- `strncmp2`: the comparison stops behind the literal. -/
def strncmp2 (s literal : CString) : Bool := strncmpZero s literal literal.length

/-- `snprintf` with `"%ld"`. -/
def formatLong (n : ℤ) : CString :=
  if n < 0 then '-' :: Nat.toDigits 10 n.natAbs else Nat.toDigits 10 n.natAbs

end GamePatch
