import GamePatch.Shared.Hex
import Mathlib.Data.List.Basic

/-! # Arrays of bytes in C

The declaration of a static array with its elements, as a compiler reads it: comments
and white space are left out, and the elements are hexadecimal constants. -/

namespace GamePatch.CArray

/-! ## Tokens -/

/-- A word is an identifier, a keyword or a number. -/
inductive Token where
  | word (text : List Char)
  | mark (c : Char)
  deriving DecidableEq, Repr

def isDigit (c : Char) : Bool := '0' ≤ c ∧ c ≤ '9'

def isWordChar (c : Char) : Bool :=
  isDigit c ∨ ('a' ≤ c ∧ c ≤ 'z') ∨ ('A' ≤ c ∧ c ≤ 'Z') ∨ c = '_'

def isMark (c : Char) : Bool := "[]\x7b\x7d=,;".toList.contains c

def isBlank (c : Char) : Bool := c = ' ' ∨ c = '\n' ∨ c = '\t'

/-- What the lexer is in: between tokens, behind a slash, in a comment or in a word. -/
inductive Mode where
  | between
  | slash
  | comment
  | word (text : List Char)
  deriving DecidableEq, Repr

/-- The word that ends here, if there is one. -/
def Mode.ended : Mode → List Token
  | .word text => [.word text]
  | _ => []

/-- The tokens of a text, from a mode on. -/
def lex : Mode → List Char → Option (List Token)
  | .slash, [] => none
  | mode, [] => some mode.ended
  | .slash, c :: cs => if c = '/' then lex .comment cs else none
  | .comment, c :: cs => if c = '\n' then lex .between cs else lex .comment cs
  | mode, c :: cs =>
      if isWordChar c then
        match mode with
        | .word text => lex (.word (text ++ [c])) cs
        | _ => lex (.word [c]) cs
      else if isBlank c then (lex .between cs).map (mode.ended ++ ·)
      else if isMark c then (lex .between cs).map (mode.ended ++ .mark c :: ·)
      else if c = '/' then (lex .slash cs).map (mode.ended ++ ·)
      else none

/-! ## Declarations -/

/-- A constant that fits a byte. -/
def element : List Char → Option UInt8
  | '0' :: 'x' :: digits =>
      if digits = [] then none
      else (Hex.read digits).bind fun n => if n < 256 then some (UInt8.ofNat n) else none
  | _ => none

/-- The elements from behind the brace on. There is at least one, and a comma may stand
behind the last one. -/
def elements : List Token → Option (List UInt8)
  | [.word text, .mark '}', .mark ';'] => (element text).map ([·])
  | [.word text, .mark ',', .mark '}', .mark ';'] => (element text).map ([·])
  | .word text :: .mark ',' :: rest => do
      let value ← element text
      let values ← elements rest
      return value :: values
  | _ => none

structure Declaration where
  const : Bool
  name : List Char
  elements : List UInt8
  deriving DecidableEq, Repr

def keywords : List (List Char) :=
  ["static".toList, "const".toList, "unsigned".toList, "char".toList]

/-- A name is a word that is no number and no keyword. -/
structure Name (name : List Char) : Prop where
  nonempty : name ≠ []
  chars : name.all isWordChar = true
  start : name.head?.any isDigit = false
  other : name ∉ keywords

instance (name : List Char) : Decidable (Name name) :=
  decidable_of_iff (name ≠ [] ∧ name.all isWordChar = true ∧
      name.head?.any isDigit = false ∧ name ∉ keywords)
    ⟨fun h => ⟨h.1, h.2.1, h.2.2.1, h.2.2.2⟩, fun h => ⟨h.1, h.2, h.3, h.4⟩⟩

/-- The rest of a declaration from its name on. -/
def named (const : Bool) : List Token → Option Declaration
  | .word name :: .mark '[' :: .mark ']' :: .mark '=' :: .mark '{' :: rest =>
      if Name name then (elements rest).map fun values => ⟨const, name, values⟩ else none
  | _ => none

/-- `static const unsigned char name[] = {...};`, with or without the `const`. -/
def declaration : List Token → Option Declaration
  | .word first :: .word second :: .word third :: rest =>
      if first ≠ "static".toList then none
      else if second = "const".toList then
        match rest with
        | .word fourth :: rest =>
            if third = "unsigned".toList ∧ fourth = "char".toList then named true rest else none
        | _ => none
      else if second = "unsigned".toList ∧ third = "char".toList then named false rest
      else none
  | _ => none

/-- The declaration that a file consists of. -/
def read (text : List Char) : Option Declaration := (lex .between text).bind declaration

/-! ## Lexing piece by piece -/

/-- What a lexer can be in when it is not in a comment. -/
def Mode.isOpen : Mode → Bool
  | .between => true
  | .word _ => true
  | _ => false

variable {mode : Mode} {c : Char} {cs w : List Char}

theorem lex_blank (hmode : mode.isOpen = true) (hc : isBlank c = true) :
    lex mode (c :: cs) = (lex .between cs).map (mode.ended ++ ·) := by
  have hword : isWordChar c = false := by
    rw [isBlank, decide_eq_true_iff] at hc
    rcases hc with rfl | rfl | rfl <;> rfl
  cases mode with
  | between => simp [lex, hword, hc]
  | word text => simp [lex, hword, hc]
  | slash => cases hmode
  | comment => cases hmode

theorem lex_mark (hmode : mode.isOpen = true) (hc : isMark c = true) :
    lex mode (c :: cs) = (lex .between cs).map (mode.ended ++ .mark c :: ·) := by
  have hother : isWordChar c = false ∧ isBlank c = false := by
    have hmarks : "[]\x7b\x7d=,;".toList.all (fun c => !isWordChar c && !isBlank c) = true := by
      decide
    rw [isMark, List.contains_iff_mem] at hc
    simpa using List.all_eq_true.mp hmarks c hc
  cases mode with
  | between => simp [lex, hother, hc]
  | word text => simp [lex, hother, hc]
  | slash => cases hmode
  | comment => cases hmode

theorem lex_word (hw : w.all isWordChar = true) (text : List Char) :
    lex (.word text) (w ++ cs) = lex (.word (text ++ w)) cs := by
  induction w generalizing text with
  | nil => rw [List.nil_append, List.append_nil]
  | cons c w ih =>
      rw [List.all_cons, Bool.and_eq_true] at hw
      have hstep : lex (.word text) (c :: (w ++ cs)) = lex (.word (text ++ [c])) (w ++ cs) := by
        simp [lex, hw.1]
      rw [List.cons_append, hstep, ih hw.2, List.append_assoc]
      rfl

theorem lex_between (hne : w ≠ []) (hw : w.all isWordChar = true) :
    lex .between (w ++ cs) = lex (.word w) cs := by
  cases w with
  | nil => exact absurd rfl hne
  | cons c w =>
      rw [List.all_cons, Bool.and_eq_true] at hw
      have hstep : lex .between (c :: (w ++ cs)) = lex (.word [c]) (w ++ cs) := by
        simp [lex, hw.1]
      rw [List.cons_append, hstep, lex_word hw.2]
      rfl

/-- A comment is left out up to the end of its line. -/
theorem lex_comment (hw : '\n' ∉ w) : lex .comment (w ++ '\n' :: cs) = lex .between cs := by
  induction w with
  | nil => simp [lex]
  | cons c w ih =>
      rw [List.mem_cons, not_or] at hw
      have hc : c ≠ '\n' := Ne.symm hw.1
      rw [List.cons_append, ← ih hw.2]
      simp [lex, hc]

end GamePatch.CArray
