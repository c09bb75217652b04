import Mathlib.Data.Nat.Digits.Defs
import Mathlib.Tactic.Ring

/-! # Hexadecimal numbers of a fixed width

Numbers written with a given count of digits, highest first, and read back. -/

namespace GamePatch.Hex

/-- The `w` lowest digits of a number. -/
def text : ℕ → ℕ → List Char
  | 0, _ => []
  | w + 1, n => text w (n / 16) ++ [Nat.digitChar (n % 16)]

/-- The value of a digit. -/
def value (c : Char) : Option ℕ :=
  if '0' ≤ c ∧ c ≤ '9' then some (c.toNat - '0'.toNat)
  else if 'a' ≤ c ∧ c ≤ 'f' then some (c.toNat - 'a'.toNat + 10)
  else none

/-- The number whose digits these are, behind those of `acc`. -/
def readFrom (acc : ℕ) : List Char → Option ℕ
  | [] => some acc
  | c :: cs => (value c).bind fun d => readFrom (16 * acc + d) cs

def read (cs : List Char) : Option ℕ := readFrom 0 cs

@[simp] theorem length_text (w n : ℕ) : (text w n).length = w := by
  induction w generalizing n with
  | zero => rfl
  | succ w ih => simp [text, ih]

theorem digitChar_spec : ∀ d < 16, value (Nat.digitChar d) = some d ∧
    Nat.digitChar d ∈ "0123456789abcdef".toList := by
  decide

theorem readFrom_append (acc : ℕ) (cs cs' : List Char) :
    readFrom acc (cs ++ cs') = (readFrom acc cs).bind fun acc => readFrom acc cs' := by
  induction cs generalizing acc with
  | nil => rfl
  | cons c cs ih =>
      rw [List.cons_append, readFrom, readFrom]
      cases value c with
      | none => rfl
      | some d => exact ih _

theorem read_text (w n : ℕ) : read (text w n) = some (n % 16 ^ w) := by
  induction w generalizing n with
  | zero => rw [pow_zero, Nat.mod_one]; rfl
  | succ w ih =>
      have hdigit := (digitChar_spec (n % 16) (Nat.mod_lt n (by decide))).1
      have hsplit : 16 * (n / 16 % 16 ^ w) + n % 16 = n % 16 ^ (w + 1) := by
        rw [pow_succ', Nat.mod_mul, Nat.add_comm]
      rw [read, text, readFrom_append, ← read, ih, Option.bind_some, readFrom, hdigit,
        Option.bind_some, readFrom, hsplit]

theorem mem_text {w n : ℕ} {c : Char} (h : c ∈ text w n) : c ∈ "0123456789abcdef".toList := by
  induction w generalizing n with
  | zero => cases h
  | succ w ih =>
      rw [text, List.mem_append, List.mem_singleton] at h
      rcases h with h | rfl
      · exact ih h
      · exact (digitChar_spec (n % 16) (Nat.mod_lt n (by decide))).2

end GamePatch.Hex
