import GamePatch.Model.CString

/-! # The string helpers of `my_string.h` -/

namespace GamePatch

def isCommentOrEmpty (line : CString) : Bool :=
  match line.dropWhile isspace with
  | [] => true
  | c :: _ => c = '#'

def getIndentLevel (line : CString) : ℕ := (line.takeWhile (· = ' ')).length

def trim (str : CString) : CString := (str.dropWhile isspace).rdropWhile isspace

/-! ## Escapes -/

def parseHexDigit (c : Char) : Option ℕ :=
  if '0' ≤ c ∧ c ≤ '9' then some (c.toNat - '0'.toNat)
  else if 'a' ≤ c ∧ c ≤ 'f' then some (c.toNat - 'a'.toNat + 10)
  else if 'A' ≤ c ∧ c ≤ 'F' then some (c.toNat - 'A'.toNat + 10)
  else none

def parseOctalDigit (c : Char) : Option ℕ :=
  if '0' ≤ c ∧ c ≤ '7' then some (c.toNat - '0'.toNat) else none

/-- The digit loops of `unescape_char`: at most `n` digits in the given base,
returned as their value and number. -/
def digitLoop (digit : Char → Option ℕ) (base : ℕ) : ℕ → ℕ → ℕ → CString → ℕ × ℕ
  | 0, value, digits, _ => (value, digits)
  | _ + 1, value, digits, [] => (value, digits)
  | n + 1, value, digits, c :: rest =>
      match digit c with
      | none => (value, digits)
      | some d => digitLoop digit base n (value * base + d) (digits + 1) rest

/-- An `int` stored in a `char`. -/
def toChar (value : ℕ) : Char := Char.ofNat (value % 256)

/-- The octal case of `unescape_char`. -/
def unescapeOctal (src : CString) : Char × ℕ :=
  let (value, digits) := digitLoop parseOctalDigit 8 3 0 0 src
  (toChar value, digits + 1)

/-- `unescape_char` on the characters after a backslash. -/
def unescapeAfterBackslash : CString → Char × ℕ
  | [] => ('\x00', 2)
  | c :: rest =>
      match c with
      | 'n' => ('\n', 2)
      | 't' => ('\t', 2)
      | 'r' => ('\r', 2)
      | 'b' => ('\x08', 2)
      | 'f' => ('\x0c', 2)
      | 'v' => ('\x0b', 2)
      | 'a' => ('\x07', 2)
      | '0' =>
          match rest with
          | [] => ('\x00', 2)
          | d :: _ => if isdigit d then unescapeOctal (c :: rest) else ('\x00', 2)
      | 'x' =>
          let (value, digits) := digitLoop parseHexDigit 16 2 0 0 rest
          if digits = 0 then ('x', 2) else (toChar value, digits + 2)
      | _ =>
          if (parseOctalDigit c).isSome then unescapeOctal (c :: rest)
          -- `\\`, `\'`, `\"`, `\?` and every other character stand for themselves.
          else (c, 2)

/-- `unescape_char`: the character written and the number of characters read. -/
def unescapeChar : CString → Char × ℕ
  | '\\' :: rest => unescapeAfterBackslash rest
  | c :: _ => (c, 1)
  | [] => ('\x00', 1)

/-- The loop of `unescape_string`; every round reads at least one character. -/
def unescapeLoop : ℕ → CString → List Char
  | 0, _ => []
  | _ + 1, [] => []
  | fuel + 1, c :: rest =>
      let (d, consumed) := unescapeChar (c :: rest)
      d :: unescapeLoop fuel ((c :: rest).drop consumed)

/-- `unescape_string`. A zero among the characters written ends the result. -/
def unescapeString (str : CString) : CString := cstring (unescapeLoop str.length str)

/-! ## Quoted strings -/

/-- The characters up to the closing quote, the opening one being behind. -/
def quotedBody : CString → Option CString
  | [] => none
  | '\\' :: c :: rest => (quotedBody rest).map fun body => '\\' :: c :: body
  | '"' :: _ => some []
  | c :: rest => (quotedBody rest).map fun body => c :: body

def parseQuotedString (str : CString) : Option CString :=
  match strchr '"' str with
  | none => none
  | some start => (quotedBody start.tail).map unescapeString

/-! ## Bracketed lists -/

def isListValue (str : CString) : Bool :=
  match strchr ':' str with
  | none => false
  | some p => (p.tail.dropWhile isspace).head? = some '['

/-- The characters up to the closing bracket, the opening one being behind. -/
def listBody : Bool → CString → Option CString
  | _, [] => none
  | inQuote, '\\' :: c :: rest => (listBody inQuote rest).map fun body => '\\' :: c :: body
  | inQuote, c :: rest =>
      if c = '"' then (listBody (!inQuote) rest).map fun body => '"' :: body
      else if inQuote = false ∧ c = ']' then some []
      else (listBody inQuote rest).map fun body => c :: body

/-- The scan for the end of an item, after the character `prev`: a quote ends
the item unless the character just before it is a backslash. The two halves of
the result meet at the position reached. -/
def scanItem : Char → CString → List Char × CString
  | _, [] => ([], [])
  | _, '\\' :: c :: rest =>
      let (seen, rest') := scanItem c rest
      ('\\' :: c :: seen, rest')
  | prev, c :: rest =>
      if c = '"' ∧ prev ≠ '\\' then ([], c :: rest)
      else
        let (seen, rest') := scanItem c rest
        (c :: seen, rest')

/-- The item at the position, if a quoted string stands there and is closed,
and the position behind it. -/
def readItem : CString → Option CString × CString
  | '"' :: rest =>
      match scanItem '"' rest with
      | (seen, '"' :: rest') => (parseQuotedString ('"' :: seen ++ ['"']), rest')
      | (_, rest') => (none, rest')
  | pos => (none, pos)

/-- The item loop: at most `n` items are stored. A round that stores no item
still moves on, so the length of the text bounds the number of rounds. -/
def itemLoop : ℕ → ℕ → CString → List CString
  | 0, _, _ => []
  | _ + 1, 0, _ => []
  | fuel + 1, n + 1, pos =>
      match pos.dropWhile isspace with
      | [] => []
      | c :: rest =>
          let (item, pos') := readItem (c :: rest)
          let next := (pos'.dropWhile (· ≠ ',')).tail
          match item with
          | none => itemLoop fuel (n + 1) next
          | some str => str :: itemLoop fuel n next

/-- What `parse_string_list` and `parse_patch_entry` share: the text is cut to
the buffer, then the items between the brackets are read. -/
def parseItems (maxItems : ℕ) (str : CString) : List CString :=
  match strchr '[' (str.take maxLineLength) with
  | none => []
  | some start =>
      match listBody false start.tail with
      | none => []
      | some body => itemLoop (body.length + 1) maxItems body

/-- `parse_string_list`: the outputs stored, in order. -/
def parseStringList (str : CString) (maxItems : ℕ) : List CString := parseItems maxItems str

end GamePatch
