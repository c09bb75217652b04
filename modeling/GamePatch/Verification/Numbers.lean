import GamePatch.Model.Numbers
import Mathlib.Data.Nat.Digits.Lemmas
import Mathlib.Tactic.Ring

/-! Spellings of numbers and what the conversions read from them. The base is
chosen from the first two characters, while `strtoul` skips white space and a sign
first, so a hexadecimal spelling that starts with either is read as zero. -/

namespace GamePatch.Numbers

/-! ## Spellings -/

inductive Sign where
  | none
  | plus
  | minus
  deriving DecidableEq

def Sign.text : Sign → CString
  | .none => []
  | .plus => ['+']
  | .minus => ['-']

/-- Decimal digits, or hexadecimal digits behind `0x` or `0X`. -/
inductive Radix where
  | decimal
  | hex (upper : Bool)
  deriving DecidableEq

def Radix.base : Radix → ℕ
  | .decimal => 10
  | .hex _ => 16

def Radix.text : Radix → CString
  | .decimal => []
  | .hex false => ['0', 'x']
  | .hex true => ['0', 'X']

/-- One digit in either case. -/
def digitText (digit : ℕ) (upper : Bool) : Char :=
  if upper then (Nat.digitChar digit).toUpper else Nat.digitChar digit

/-- White space, a sign and at least one digit in a radix. Each digit comes with
the case in which it is written. -/
structure Spelling where
  space : CString
  blank : space.all isspace = true
  sign : Sign
  radix : Radix
  digits : List (Fin radix.base × Bool)
  nonempty : digits ≠ []

namespace Spelling

def digitsText (s : Spelling) : CString := s.digits.map fun d => digitText d.1 d.2

def text (s : Spelling) : CString := s.space ++ (s.sign.text ++ (s.radix.text ++ s.digitsText))

def magnitude (s : Spelling) : ℕ := Nat.ofDigits s.radix.base (s.digits.reverse.map (·.1.val))

def value (s : Spelling) : ℤ := if s.sign = .minus then -s.magnitude else s.magnitude

/-- The base chosen from the first two characters is the one of the spelling. -/
def Prefixed (s : Spelling) : Prop :=
  s.radix = .decimal ∨ (s.space = [] ∧ s.sign = .none)

end Spelling

/-! ## The digit loop -/

theorem digitValue_digitText : ∀ (d : Fin 16) (upper : Bool),
    digitValue (digitText d upper) = some d.val := by decide

theorem base_le (radix : Radix) : radix.base ≤ 16 := by
  cases radix <;> simp [Radix.base]

theorem digitValue_digit {radix : Radix} (d : Fin radix.base) (upper : Bool) :
    digitValue (digitText d upper) = some d.val :=
  digitValue_digitText ⟨d, d.isLt.trans_le (base_le radix)⟩ upper

/-- Horner's rule; the wrap-around of the accumulator is that of the result. -/
theorem strtoulLoop_digits {radix : Radix} (digits : List (Fin radix.base × Bool)) (n : ℕ) :
    strtoulLoop radix.base (UInt64.ofNat n) (digits.map fun d => digitText d.1 d.2) =
      UInt64.ofNat (n * radix.base ^ digits.length +
        Nat.ofDigits radix.base (digits.reverse.map (·.1.val))) := by
  induction digits generalizing n with
  | nil => simp [strtoulLoop]
  | cons d digits ih =>
      have hd : ¬ radix.base ≤ d.1.val := Nat.not_le.2 d.1.isLt
      have hnext : UInt64.ofNat n * UInt64.ofNat radix.base + UInt64.ofNat d.1.val =
          UInt64.ofNat (n * radix.base + d.1.val) := by
        rw [UInt64.ofNat_add, UInt64.ofNat_mul]
      rw [List.map_cons, strtoulLoop, digitValue_digit]
      simp only [hd, if_false]
      rw [hnext, ih]
      apply congrArg UInt64.ofNat
      simp only [List.reverse_cons, List.map_append, List.map_cons, List.map_nil,
        Nat.ofDigits_append, Nat.ofDigits_singleton, List.length_map, List.length_reverse,
        List.length_cons, pow_succ]
      ring

/-! ## White space, sign and prefix -/

/-- No digit is taken for white space, a sign or the second half of a prefix. -/
theorem digitText_plain : ∀ (d : Fin 16) (upper : Bool),
    isspace (digitText d upper) = false ∧ digitText d upper ∉ ['+', '-', 'x', 'X'] := by decide

theorem exists_digitsText (s : Spelling) :
    ∃ c cs, s.digitsText = c :: cs ∧ isspace c = false ∧ c ∉ ['+', '-', 'x', 'X'] := by
  cases hd : s.digits with
  | nil => exact absurd hd s.nonempty
  | cons d ds =>
      refine ⟨_, _, by rw [Spelling.digitsText, hd, List.map_cons], ?_⟩
      exact digitText_plain ⟨d.1, d.1.isLt.trans_le (base_le s.radix)⟩ d.2

/-- The characters after the sign. -/
def body (s : Spelling) : CString := s.radix.text ++ s.digitsText

theorem exists_body (s : Spelling) :
    ∃ c cs, body s = c :: cs ∧ isspace c = false ∧ c ≠ '+' ∧ c ≠ '-' := by
  cases hr : s.radix with
  | decimal =>
      rcases exists_digitsText s with ⟨c, cs, hc, hspace, hplain⟩
      simp only [List.mem_cons, not_or] at hplain
      exact ⟨c, cs, by simp [body, hr, Radix.text, hc], hspace, hplain.1, hplain.2.1⟩
  | hex upper =>
      cases upper <;>
        exact ⟨_, _, by rw [body, hr, Radix.text, List.cons_append], by decide, by decide,
          by decide⟩

theorem text_eq (s : Spelling) : s.text = s.space ++ (s.sign.text ++ body s) := rfl

theorem dropWhile_text (s : Spelling) : s.text.dropWhile isspace = s.sign.text ++ body s := by
  have hspace : ∀ c ∈ s.space, isspace c = true := List.all_eq_true.1 s.blank
  rw [text_eq, List.dropWhile_append_of_pos hspace]
  rcases exists_body s with ⟨c, cs, hc, hc', -, -⟩
  cases s.sign with
  | none => simp [Sign.text, hc, hc']
  | plus => rfl
  | minus => rfl

theorem skipSign_body (s : Spelling) :
    skipSign (s.sign.text ++ body s) = (decide (s.sign = .minus), body s) := by
  rcases exists_body s with ⟨c, cs, hc, -, hplus, hminus⟩
  cases s.sign with
  | none =>
      rw [hc, Sign.text, List.nil_append, skipSign]
      · rfl
      · intro nptr h
        exact hplus (List.cons.inj h).1
      · intro nptr h
        exact hminus (List.cons.inj h).1
  | plus => rfl
  | minus => rfl

theorem hasHexPrefix_decimal (s : Spelling) (h : s.radix = .decimal) :
    hasHexPrefix (body s) = false := by
  have hbody : body s = s.digitsText := by rw [body, h, Radix.text, List.nil_append]
  rw [hbody, Spelling.digitsText]
  rcases hd : s.digits with _ | ⟨d, _ | ⟨e, ds⟩⟩
  · rfl
  · simp [hasHexPrefix]
  · have he := (digitText_plain ⟨e.1, e.1.isLt.trans_le (base_le s.radix)⟩ e.2).2
    simp only [List.mem_cons, not_or] at he
    rw [List.map_cons, List.map_cons]
    by_cases h0 : digitText d.1 d.2 = '0'
    · simp [h0, hasHexPrefix, he.2.2.1, he.2.2.2.1]
    · rw [hasHexPrefix]
      intro c cs hcs
      exact absurd (List.cons.inj hcs).1 h0

theorem hasHexPrefix_hex (s : Spelling) {upper : Bool} (h : s.radix = .hex upper) :
    hasHexPrefix (body s) = true := by
  rw [body, h]
  cases upper <;> rfl

/-! ## `strtoul` in the base of the spelling, and in base ten on a hexadecimal one -/

theorem skipPrefix_body (s : Spelling) :
    skipPrefix s.radix.base (body s) = (s.radix.base, s.digitsText) := by
  cases h : s.radix with
  | decimal =>
      have hbody : body s = s.digitsText := by rw [body, h, Radix.text, List.nil_append]
      simp [skipPrefix, Radix.base, hbody]
  | hex upper =>
      have hprefix := hasHexPrefix_hex s h
      have hdrop : (body s).drop 2 = s.digitsText := by
        rw [body, h]
        cases upper <;> rfl
      simp [skipPrefix, Radix.base, hprefix, hdrop]

/-- The sign applied to the result of the digit loop. -/
def signed (neg : Bool) (n : ℕ) : UInt64 :=
  if neg ∧ UInt64.ofNat n = ulongMax then ulongMax
  else if neg then -UInt64.ofNat n
  else UInt64.ofNat n

theorem strtoul_text (s : Spelling) :
    strtoul s.text s.radix.base = signed (decide (s.sign = .minus)) s.magnitude := by
  have hbase : ¬ (s.radix.base ≠ 0 ∧ (s.radix.base < 2 ∨ 36 < s.radix.base)) := by
    cases s.radix <;> simp [Radix.base]
  have hloop : strtoulLoop s.radix.base 0 s.digitsText = UInt64.ofNat s.magnitude := by
    have h := strtoulLoop_digits s.digits 0
    rw [Nat.zero_mul, Nat.zero_add] at h
    exact h
  rw [strtoul, if_neg hbase, dropWhile_text, skipSign_body]
  simp only [skipPrefix_body, hloop]
  rfl

/-- In base ten the digit loop stops at the `x`. -/
theorem strtoul_hex_ten (s : Spelling) {upper : Bool} (h : s.radix = .hex upper) :
    strtoul s.text 10 = 0 := by
  have hskip : skipPrefix 10 (body s) = (10, body s) := by simp [skipPrefix]
  have hloop : strtoulLoop 10 0 (body s) = 0 := by
    rw [body, h]
    cases upper <;> rfl
  rw [strtoul, if_neg (by decide), dropWhile_text, skipSign_body]
  simp only [hskip, hloop]
  split
  · next hmax => exact hmax.2.symm
  · split <;> rfl

/-! ## The base that is chosen -/

theorem text_eq_body (s : Spelling) (hspace : s.space = []) (hsign : s.sign = .none) :
    s.text = body s := by
  simp [text_eq, hspace, hsign, Sign.text]

theorem isHex_of_space_or_sign (s : Spelling) (h : ¬ (s.space = [] ∧ s.sign = .none)) :
    isHex s.text = false := by
  have hblank := List.all_eq_true.1 s.blank
  have hcons : ∀ (c : Char) (cs : CString), c ≠ '0' → isHex (c :: cs) = false := by
    intro c cs hc
    rw [isHex, hasHexPrefix]
    intro c' cs' hcs
    exact absurd (List.cons.inj hcs).1 hc
  rw [text_eq]
  cases hs : s.space with
  | nil =>
      cases hsign : s.sign with
      | none => exact absurd ⟨hs, hsign⟩ h
      | plus => exact hcons '+' _ (by decide)
      | minus => exact hcons '-' _ (by decide)
  | cons c cs =>
      apply hcons
      intro hc
      have hspace := hblank c (by simp [hs])
      rw [hc] at hspace
      exact absurd hspace (by decide)

theorem isHexBase_of_prefixed (s : Spelling) (h : s.Prefixed) :
    isHexBase s.text = s.radix.base := by
  by_cases hplain : s.space = [] ∧ s.sign = .none
  · rw [text_eq_body s hplain.1 hplain.2, isHexBase, isHex]
    cases hr : s.radix with
    | decimal => simp [hasHexPrefix_decimal s hr, Radix.base]
    | hex upper => simp [hasHexPrefix_hex s hr, Radix.base]
  · rcases h with hr | hspace
    · simp [isHexBase, isHex_of_space_or_sign s hplain, hr, Radix.base]
    · exact absurd hspace hplain

theorem hex_of_not_prefixed (s : Spelling) (h : ¬ s.Prefixed) :
    isHexBase s.text = 10 ∧ ∃ upper, s.radix = .hex upper := by
  rw [Spelling.Prefixed, not_or] at h
  refine ⟨by simp [isHexBase, isHex_of_space_or_sign s h.2], ?_⟩
  cases hr : s.radix with
  | decimal => exact absurd hr h.1
  | hex upper => exact ⟨upper, rfl⟩

theorem strtoul_of_prefixed (s : Spelling) (h : s.Prefixed) :
    strtoul s.text (isHexBase s.text) = signed (decide (s.sign = .minus)) s.magnitude := by
  rw [isHexBase_of_prefixed s h, strtoul_text]

theorem strtoul_of_not_prefixed (s : Spelling) (h : ¬ s.Prefixed) :
    strtoul s.text (isHexBase s.text) = 0 := by
  rcases hex_of_not_prefixed s h with ⟨hbase, upper, hr⟩
  rw [hbase, strtoul_hex_ten s hr]

/-! ## The values read -/

theorem signed_toInt (neg : Bool) (n : ℕ) (hneg : neg = true → n ≤ 2 ^ 63)
    (hpos : neg = false → n < 2 ^ 63) :
    (signed neg n).toInt64.toInt = if neg then -(n : ℤ) else n := by
  cases neg with
  | false =>
      have hn := hpos rfl
      simp only [signed, Bool.false_eq_true, false_and, if_false]
      rw [UInt64.toInt64_ofNat', ← Int64.ofInt_eq_ofNat]
      exact Int64.toInt_ofInt_of_le (by omega) (by omega)
  | true =>
      have hn := hneg rfl
      have hmax : UInt64.ofNat n ≠ ulongMax := by
        intro h
        have hval : n = 0xffffffffffffffff := by
          rw [← UInt64.toNat_ofNat_of_lt' (hn.trans_lt (by decide)), h]
          rfl
        omega
      simp only [signed, hmax, and_false, if_false, if_true]
      rw [UInt64.toInt64_neg, UInt64.toInt64_ofNat', Int64.neg_ofNat]
      exact Int64.toInt_ofInt_of_le (by omega) (by omega)

theorem stringToInt_of_prefixed (s : Spelling) (h : s.Prefixed) (hlow : -2 ^ 63 ≤ s.value)
    (hhigh : s.value < 2 ^ 63) : (stringToInt s.text).toInt = s.value := by
  rw [stringToInt, strtoll, strtoul_of_prefixed s h, signed_toInt]
  · simp [Spelling.value]
  · intro hneg
    rw [Spelling.value, if_pos (of_decide_eq_true hneg)] at hlow
    omega
  · intro hneg
    rw [Spelling.value, if_neg (of_decide_eq_false hneg)] at hhigh
    omega

theorem stringToUint_of_prefixed (s : Spelling) (h : s.Prefixed) (hsign : s.sign ≠ .minus)
    (hhigh : s.magnitude < 2 ^ 64) : (stringToUint s.text).toNat = s.magnitude := by
  rw [stringToUint, strtoull, strtoul_of_prefixed s h]
  simp only [signed, hsign, decide_false, Bool.false_eq_true, false_and, if_false]
  exact UInt64.toNat_ofNat_of_lt' hhigh

theorem stringToInt_of_not_prefixed (s : Spelling) (h : ¬ s.Prefixed) :
    (stringToInt s.text).toInt = 0 := by
  rw [stringToInt, strtoll, strtoul_of_not_prefixed s h]
  rfl

theorem stringToUint_of_not_prefixed (s : Spelling) (h : ¬ s.Prefixed) :
    (stringToUint s.text).toNat = 0 := by
  rw [stringToUint, strtoull, strtoul_of_not_prefixed s h]
  rfl

/-- Both conversions return the number spelled, at every spelling of it. -/
def ReadAsWritten (s : Spelling) : Prop :=
  (-2 ^ 63 ≤ s.value → s.value < 2 ^ 63 → (stringToInt s.text).toInt = s.value) ∧
    (s.sign ≠ .minus → s.magnitude < 2 ^ 64 → (stringToUint s.text).toNat = s.magnitude)

/-- The spelling reads as a number of the signed or the unsigned type. -/
def InRange (s : Spelling) : Prop :=
  (-2 ^ 63 ≤ s.value ∧ s.value < 2 ^ 63) ∨ (s.sign ≠ .minus ∧ s.magnitude < 2 ^ 64)

theorem magnitude_of_value_zero (s : Spelling) (h : s.value = 0) : s.magnitude = 0 := by
  rw [Spelling.value] at h
  split at h <;> omega

/-- A number in range is read as written exactly when the base is chosen at its
prefix or the number is zero. -/
theorem readAsWritten_iff (s : Spelling) (hrange : InRange s) :
    ReadAsWritten s ↔ s.Prefixed ∨ s.value = 0 := by
  apply Iff.intro
  · intro h
    by_cases hprefixed : s.Prefixed
    · exact .inl hprefixed
    · right
      rcases hrange with ⟨hlow, hhigh⟩ | ⟨hsign, hhigh⟩
      · have hread := h.1 hlow hhigh
        rw [stringToInt_of_not_prefixed s hprefixed] at hread
        exact hread.symm
      · have hread := h.2 hsign hhigh
        rw [stringToUint_of_not_prefixed s hprefixed] at hread
        simp [Spelling.value, ← hread]
  · intro h
    by_cases hprefixed : s.Prefixed
    · exact ⟨stringToInt_of_prefixed s hprefixed, stringToUint_of_prefixed s hprefixed⟩
    · have hzero := h.resolve_left hprefixed
      refine ⟨fun _ _ => ?_, fun _ _ => ?_⟩
      · rw [stringToInt_of_not_prefixed s hprefixed, hzero]
      · rw [stringToUint_of_not_prefixed s hprefixed, magnitude_of_value_zero s hzero]

/-- `-0x10`. -/
def negativeHex : Spelling where
  space := []
  blank := rfl
  sign := .minus
  radix := .hex false
  digits := [(⟨1, by decide⟩, false), (⟨0, by decide⟩, false)]
  nonempty := List.cons_ne_nil _ _

/-- ` -05`. -/
def negativeFive : Spelling where
  space := [' ']
  blank := rfl
  sign := .minus
  radix := .decimal
  digits := [(⟨0, by decide⟩, false), (⟨5, by decide⟩, false)]
  nonempty := List.cons_ne_nil _ _

theorem readAsWritten_negativeFive :
    ReadAsWritten negativeFive :=
  (readAsWritten_iff negativeFive (.inl ⟨by decide, by decide⟩)).2 (.inl (.inl rfl))

/-- `-0x10` is sixteen below zero and is read as zero. -/
theorem not_readAsWritten : ¬ ReadAsWritten negativeHex := by
  intro h
  have hread := h.1 (by decide) (by decide)
  exact absurd hread (by decide)

end GamePatch.Numbers
