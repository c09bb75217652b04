import GamePatch.Verification.Parser.Bodies
import Mathlib.Data.List.Forall2

/-! # Escapes

A byte can be spelled in several ways. The reader of quoted strings takes each
spelling for what it says, whatever follows it. -/

namespace GamePatch

/-- The letters behind a backslash that name a byte. -/
def namedEscapes : List (Char × Char) :=
  [('n', '\n'), ('t', '\t'), ('r', '\r'), ('b', '\x08'), ('f', '\x0c'), ('v', '\x0b'),
    ('a', '\x07'), ('\\', '\\'), ('\'', '\''), ('"', '"'), ('?', '?')]

/-- The characters for a hexadecimal digit. -/
def hexDigits (d : Fin 16) : List Char := [Nat.digitChar d, (Nat.digitChar d).toUpper]

/-- The ways to spell a byte between quotes. -/
inductive Spells : Char → CString → Prop
  | plain (c : Char) : c ≠ '"' → c ≠ '\\' → Spells c [c]
  | named (letter c : Char) : (letter, c) ∈ namedEscapes → Spells c ['\\', letter]
  | hex (hi lo : Fin 16) (c d : Char) : c ∈ hexDigits hi → d ∈ hexDigits lo →
      Spells (Char.ofNat (hi * 16 + lo)) ['\\', 'x', c, d]
  | octal (hi : Fin 4) (mid lo : Fin 8) : Spells (Char.ofNat (hi * 64 + mid * 8 + lo))
      ['\\', Nat.digitChar hi, Nat.digitChar mid, Nat.digitChar lo]

/-! ## The closing quote -/

theorem hexDigits_plain (d : Fin 16) : ∀ c ∈ hexDigits d, c ≠ '"' ∧ c ≠ '\\' := by
  have hall : (hexDigits d).all (fun c => decide (c ≠ '"' ∧ c ≠ '\\')) = true := by
    revert d
    decide
  intro c hc
  exact of_decide_eq_true (List.all_eq_true.mp hall c hc)

theorem octalDigit_plain (d : Fin 8) :
    Nat.digitChar d ≠ '"' ∧ Nat.digitChar d ≠ '\\' := by
  revert d
  decide

theorem bodyText_append (body body' : List BodyUnit) :
    bodyText (body ++ body') = bodyText body ++ bodyText body' :=
  List.flatMap_append

/-- A spelling is made of whole units, so no quote inside it closes the string. -/
theorem Spells.exists_body {c : Char} {text : CString} (h : Spells c text) :
    ∃ body, bodyText body = text := by
  cases h with
  | plain _ hquote hslash => exact ⟨[.plain c ⟨hquote, hslash⟩], rfl⟩
  | named letter _ _ => exact ⟨[.escape letter], rfl⟩
  | hex hi lo c d hc hd =>
      exact ⟨[.escape 'x', .plain c (hexDigits_plain hi c hc), .plain d (hexDigits_plain lo d hd)],
        rfl⟩
  | octal hi mid lo =>
      exact ⟨[.escape (Nat.digitChar hi), .plain _ (octalDigit_plain mid),
        .plain _ (octalDigit_plain lo)], rfl⟩

theorem exists_body_of_spellings {bytes : CString} {spellings : List CString}
    (h : List.Forall₂ Spells bytes spellings) : ∃ body, bodyText body = spellings.flatten := by
  induction h with
  | nil => exact ⟨[], rfl⟩
  | cons hfirst _ ih =>
      rcases hfirst.exists_body with ⟨first, hfirst⟩
      rcases ih with ⟨rest, hrest⟩
      exact ⟨first ++ rest, by rw [bodyText_append, hfirst, hrest, List.flatten_cons]⟩

/-! ## One spelling -/

theorem unescapeChar_named : ∀ e ∈ namedEscapes, ∀ rest : CString,
    unescapeChar ('\\' :: e.1 :: rest) = (e.2, 2) := by
  intro e he rest
  simp only [namedEscapes, List.mem_cons, List.not_mem_nil, or_false] at he
  rcases he with rfl | rfl | rfl | rfl | rfl | rfl | rfl | rfl | rfl | rfl | rfl <;> rfl

theorem parseHexDigit_hexDigits (d : Fin 16) :
    ∀ c ∈ hexDigits d, parseHexDigit c = some (d : ℕ) := by
  have hall : (hexDigits d).all (fun c => decide (parseHexDigit c = some (d : ℕ))) = true := by
    revert d
    decide
  intro c hc
  exact of_decide_eq_true (List.all_eq_true.mp hall c hc)

theorem parseOctalDigit_digitChar (d : Fin 8) :
    parseOctalDigit (Nat.digitChar d) = some (d : ℕ) := by
  revert d
  decide

theorem isdigit_digitChar (d : Fin 8) : isdigit (Nat.digitChar d) = true := by
  revert d
  decide

/-- Two digits are read, and no third one. -/
theorem unescapeChar_hex {hi lo : Fin 16} {c d : Char} (hc : c ∈ hexDigits hi)
    (hd : d ∈ hexDigits lo) (rest : CString) :
    unescapeChar ('\\' :: 'x' :: c :: d :: rest) = (Char.ofNat (hi * 16 + lo), 4) := by
  have hloop : digitLoop parseHexDigit 16 2 0 0 (c :: d :: rest) =
      ((hi : ℕ) * 16 + lo, 2) := by
    simp [digitLoop, parseHexDigit_hexDigits hi c hc, parseHexDigit_hexDigits lo d hd]
  have hbyte : (hi * 16 + lo : ℕ) % 256 = hi * 16 + lo := by omega
  have hcase : unescapeChar ('\\' :: 'x' :: c :: d :: rest) =
      if (digitLoop parseHexDigit 16 2 0 0 (c :: d :: rest)).2 = 0 then ('x', 2)
      else (toChar (digitLoop parseHexDigit 16 2 0 0 (c :: d :: rest)).1,
        (digitLoop parseHexDigit 16 2 0 0 (c :: d :: rest)).2 + 2) := rfl
  rw [hcase, hloop]
  simp [toChar, hbyte]

theorem unescapeOctal_digits (hi : Fin 4) (mid lo : Fin 8) (rest : CString) :
    unescapeOctal (Nat.digitChar hi :: Nat.digitChar mid :: Nat.digitChar lo :: rest) =
      (Char.ofNat (hi * 64 + mid * 8 + lo), 4) := by
  have hfirst : parseOctalDigit (Nat.digitChar hi) = some (hi : ℕ) :=
    parseOctalDigit_digitChar ⟨hi, by omega⟩
  have hvalue : ((hi * 8 + mid) * 8 + lo : ℕ) = hi * 64 + mid * 8 + lo := by omega
  have hbyte : (hi * 64 + mid * 8 + lo : ℕ) % 256 = hi * 64 + mid * 8 + lo := by omega
  simp [unescapeOctal, digitLoop, hfirst, parseOctalDigit_digitChar, toChar, hvalue, hbyte]

/-- Three octal digits. The digit behind a `0` keeps it from standing for itself. -/
theorem unescapeChar_octal (hi : Fin 4) (mid lo : Fin 8) (rest : CString) :
    unescapeChar ('\\' :: Nat.digitChar hi :: Nat.digitChar mid :: Nat.digitChar lo :: rest) =
      (Char.ofNat (hi * 64 + mid * 8 + lo), 4) := by
  rw [← unescapeOctal_digits hi mid lo rest]
  have hdigit := isdigit_digitChar mid
  generalize Nat.digitChar mid = c at hdigit ⊢
  rcases hi with ⟨_ | _ | _ | _ | n, hn⟩
  · show (if isdigit c then _ else _) = _
    rw [if_pos hdigit]
  · rfl
  · rfl
  · rfl
  · omega

/-- A spelling is read as a whole, whatever follows. -/
theorem Spells.unescapeChar {c : Char} {text : CString} (h : Spells c text) (rest : CString) :
    unescapeChar (text ++ rest) = (c, text.length) := by
  cases h with
  | plain _ _ hslash =>
      rw [List.singleton_append, GamePatch.unescapeChar]
      · rfl
      · exact hslash
  | named letter _ hmem => exact unescapeChar_named (letter, c) hmem rest
  | hex hi lo a b ha hb => exact unescapeChar_hex ha hb rest
  | octal hi mid lo => exact unescapeChar_octal hi mid lo rest

theorem Spells.length_pos {c : Char} {text : CString} (h : Spells c text) : 0 < text.length := by
  cases h <;> exact Nat.succ_pos _

/-! ## All of them -/

/-- One round of the loop for one spelling. -/
theorem unescapeLoop_spells {c : Char} {text : CString} (h : Spells c text) (fuel : ℕ)
    (rest : CString) :
    unescapeLoop (fuel + 1) (text ++ rest) = c :: unescapeLoop fuel rest := by
  have hread := h.unescapeChar rest
  cases text with
  | nil => exact absurd h.length_pos (Nat.lt_irrefl 0)
  | cons x text =>
      rw [List.cons_append] at hread ⊢
      rw [unescapeLoop, hread]
      simp only
      rw [← List.cons_append, List.drop_left]

theorem unescapeLoop_spellings {bytes : CString} {spellings : List CString}
    (h : List.Forall₂ Spells bytes spellings) :
    ∀ fuel, spellings.flatten.length ≤ fuel → unescapeLoop fuel spellings.flatten = bytes := by
  induction h with
  | nil =>
      intro fuel _
      cases fuel <;> rfl
  | cons hfirst _ ih =>
      intro fuel hfuel
      rw [List.flatten_cons, List.length_append] at hfuel
      have hpos := hfirst.length_pos
      cases fuel with
      | zero => omega
      | succ fuel => rw [List.flatten_cons, unescapeLoop_spells hfirst, ih fuel (by omega)]

/-- A quoted string is read back as the bytes that its spellings stand for. -/
theorem parseQuotedString_spellings {p bytes : CString} {spellings : List CString}
    (hp : '"' ∉ p) (hspells : List.Forall₂ Spells bytes spellings) (hzero : '\x00' ∉ bytes)
    (suffix : CString) :
    parseQuotedString (p ++ '"' :: (spellings.flatten ++ '"' :: suffix)) = some bytes := by
  rcases exists_body_of_spellings hspells with ⟨body, hbody⟩
  rw [← hbody, parseQuotedString_bodyText hp, hbody, unescapeString,
    unescapeLoop_spellings hspells _ (Nat.le_refl _), cstring_of_not_mem hzero]

/-- A quote as an octal number before a digit, a backslash by its name before an `x`,
and a byte above 127. -/
theorem parseQuotedString_spellings_mixed :
    parseQuotedString ("key: ".toList ++ '"' :: ([['\\', '0', '4', '2'], ['7'], ['\\', '\\'],
      ['x'], ['\\', 'x', 'F', 'e']].flatten ++ '"' :: "9".toList)) =
        some ['"', '7', '\\', 'x', Char.ofNat 254] :=
  parseQuotedString_spellings (by decide)
    (.cons (.octal 0 4 2) (.cons (.plain '7' (by decide) (by decide))
      (.cons (.named '\\' '\\' (by decide)) (.cons (.plain 'x' (by decide) (by decide))
        (.cons (.hex 15 14 'F' 'e' (by decide) (by decide)) .nil)))))
    (by decide) _

end GamePatch
