import GamePatch.Model.Patch
import GamePatch.Shared.Buffer

/-! # The string functions in memory

The unescaper and the tokenizers once more, now cell by cell: with the buffers they
read and write, and every loop with as many rounds as the string it walks over has
cells. A function fails where it leaves a buffer or where a loop runs out of rounds. -/

namespace GamePatch.Memory

open Buffer

/-- A zero-terminated string in a buffer of its own. -/
abbrev Cells := List Char

/-- What the two allocations of `parse_quoted_string` give. -/
structure Allocation where
  /-- whether there is memory for the copy of the text between the quotes -/
  escaped : Bool
  /-- whether there is memory for the unescaped text -/
  result : Bool
  /-- what stands in a fresh cell -/
  stale : ℕ → Char

def Allocation.fresh (m : Allocation) (n : ℕ) : Cells := (List.range n).map m.stale

/-! ## Escapes -/

/-- The digit loops of `unescape_char`, from the first digit on. -/
def digitLoop (digit : Char → Option ℕ) (base : ℕ) (src : Cells) :
    ℕ → ℕ → ℕ → ℕ → Option (ℕ × ℕ)
  | 0, value, digits, _ => some (value, digits)
  | n + 1, value, digits, pos => do
      let c ← read src pos
      if c = '\x00' then return (value, digits)
      else
        match digit c with
        | none => return (value, digits)
        | some d => digitLoop digit base src n (value * base + d) (digits + 1) (pos + 1)

/-- The octal case of `unescape_char`. -/
def unescapeOctal (src : Cells) (pos : ℕ) : Option (Char × ℕ) := do
  let (value, digits) ← digitLoop parseOctalDigit 8 src 3 0 0 (pos + 1)
  return (toChar value, digits + 1)

/-- `unescape_char` at a position: the character for `dest` and the number of
characters read. -/
def unescapeChar (src : Cells) (pos : ℕ) : Option (Char × ℕ) := do
  let c ← read src pos
  if c ≠ '\\' then return (c, 1)
  else
    let c ← read src (pos + 1)
    match c with
    | 'n' => return ('\n', 2)
    | 't' => return ('\t', 2)
    | 'r' => return ('\r', 2)
    | 'b' => return ('\x08', 2)
    | 'f' => return ('\x0c', 2)
    | 'v' => return ('\x0b', 2)
    | 'a' => return ('\x07', 2)
    | '0' => do
        let d ← read src (pos + 2)
        if d = '\x00' ∨ ¬ isdigit d then return ('\x00', 2) else unescapeOctal src pos
    | 'x' => do
        let (value, digits) ← digitLoop parseHexDigit 16 src 2 0 0 (pos + 2)
        return if digits = 0 then ('x', 2) else (toChar value, digits + 2)
    | _ =>
        if (parseOctalDigit c).isSome then unescapeOctal src pos
        -- `\\`, `\'`, `\"`, `\?` and every other character stand for themselves.
        else return (c, 2)

/-- The loop of `unescape_string` and the zero behind it. -/
def unescapeLoop (str : Cells) (len : ℕ) : ℕ → ℕ → ℕ → Cells → Option Cells
  | 0, _, _, _ => none
  | fuel + 1, srcPos, destPos, result =>
      if srcPos < len then do
        let (c, consumed) ← unescapeChar str srcPos
        let result ← write result destPos c
        unescapeLoop str len fuel (srcPos + consumed) (destPos + 1) result
      else write result destPos '\x00'

/-- `unescape_string`. -/
def unescapeString (m : Allocation) (str : Cells) : Option (Option CString) := do
  let len ← strlen '\x00' str 0
  if m.result then
    let result ← unescapeLoop str len (len + 1) 0 0 (m.fresh (len + 1))
    return some (cstring result)
  else return none

/-! ## Quoted strings -/

/-- Whether `*pos == '\\' && *(pos + 1)`, `c` standing at the position. -/
def startsEscape (cells : Cells) (pos : ℕ) (c : Char) : Option Bool :=
  if c = '\\' then do
    let d ← read cells (pos + 1)
    return decide (d ≠ '\x00')
  else return false

/-- The scan of `parse_quoted_string` for the closing quote. -/
def closingQuote (str : Cells) : ℕ → ℕ → Option ℕ
  | 0, _ => none
  | fuel + 1, pos => do
      let c ← read str pos
      if c = '\x00' then return pos
      else
        let escape ← startsEscape str pos c
        if escape then closingQuote str fuel (pos + 2)
        else if c = '"' then return pos
        else closingQuote str fuel (pos + 1)

/-- `parse_quoted_string`. -/
def parseQuotedString (m : Allocation) (str : Cells) : Option (Option CString) := do
  match ← Buffer.strchr '\x00' '"' str 0 with
  | none => return none
  | some quote =>
      let start := quote + 1
      let stop ← closingQuote str str.length start
      let c ← read str stop
      if c ≠ '"' then return none
      else if m.escaped then
        let len := stop - start
        let escaped ← Buffer.strncpy '\x00' (m.fresh (len + 1)) str start len
        let escaped ← write escaped len '\x00'
        unescapeString m escaped
      else return none

/-! ## Bracketed lists -/

/-- The scan for the closing bracket. -/
def closingBracket (buffer : Cells) : ℕ → Bool → ℕ → Option ℕ
  | 0, _, _ => none
  | fuel + 1, inQuote, pos => do
      let c ← read buffer pos
      if c = '\x00' then return pos
      else
        let escape ← startsEscape buffer pos c
        if escape then closingBracket buffer fuel inQuote (pos + 2)
        else
          let inQuote := if c = '"' then !inQuote else inQuote
          if inQuote = false ∧ c = ']' then return pos
          else closingBracket buffer fuel inQuote (pos + 1)

/-- Whether `*pos == '"' && *(pos - 1) != '\\'`, `c` standing at the position. -/
def closesItem (buffer : Cells) (pos : ℕ) (c : Char) : Option Bool :=
  if c = '"' then do
    let prev ← readBefore buffer pos
    return decide (prev ≠ '\\')
  else return false

/-- The scan for the end of an item. -/
def scanItem (buffer : Cells) : ℕ → ℕ → Option ℕ
  | 0, _ => none
  | fuel + 1, pos => do
      let c ← read buffer pos
      if c = '\x00' then return pos
      else
        let closes ← closesItem buffer pos c
        if closes then return pos
        else
          let escape ← startsEscape buffer pos c
          scanItem buffer fuel (if escape then pos + 2 else pos + 1)

/-- `char [MAX_LINE_LENGTH + 1]`, zeroed. -/
def lineBuffer : Cells := List.replicate (maxLineLength + 1) '\x00'

/-- The caller's table and the number of strings stored in it. -/
structure Output where
  strings : List (Option CString)
  count : ℕ

/-- `output[count]` is written, and counted if it is not null. -/
def Output.store (output : Output) (item : Option CString) : Option Output := do
  let strings ← write output.strings output.count item
  return ⟨strings, if item.isSome then output.count + 1 else output.count⟩

/-- The branch for a quote in the loop over the items, and the position behind it.
`parse_string_list` writes a zero behind the copy. -/
def readItem (zeroBehind : Bool) (heap : ℕ → Allocation) (buffer : Cells) (quoteStart : ℕ)
    (output : Output) : Option (ℕ × Output) := do
  let pos ← scanItem buffer buffer.length (quoteStart + 1)
  let c ← read buffer pos
  if c = '"' then
    let quoteLen := pos + 1 - quoteStart
    let temp ← Buffer.strncpy '\x00' lineBuffer buffer quoteStart quoteLen
    let temp ← (if zeroBehind then write temp quoteLen '\x00' else some temp)
    let item ← parseQuotedString (heap quoteStart) temp
    let output ← output.store item
    return (pos + 1, output)
  else return (pos, output)

/-- The loop over the items. The allocations of an item are told by the position
of its quote. -/
def itemLoop (zeroBehind : Bool) (heap : ℕ → Allocation) (maxItems : ℕ) (buffer : Cells) :
    ℕ → ℕ → Output → Option Output
  | 0, _, _ => none
  | fuel + 1, pos, output => do
      let c ← read buffer pos
      if c ≠ '\x00' ∧ output.count < maxItems then
        let pos ← scan '\x00' isspace buffer buffer.length pos
        let c ← read buffer pos
        if c = '\x00' then return output
        else
          let (pos, output) ←
            (if c = '"' then readItem zeroBehind heap buffer pos output else some (pos, output))
          let pos ← scan '\x00' (fun c => decide (c ≠ ',')) buffer buffer.length pos
          let c ← read buffer pos
          itemLoop zeroBehind heap maxItems buffer fuel (if c = ',' then pos + 1 else pos) output
      else return output

/-- What `parse_string_list` and `parse_patch_entry` share. -/
def parseItems (zeroBehind : Bool) (heap : ℕ → Allocation) (maxItems : ℕ) (str : Cells)
    (strings : List (Option CString)) : Option Output := do
  let buffer ← Buffer.strncpy '\x00' lineBuffer str 0 maxLineLength
  match ← Buffer.strchr '\x00' '[' buffer 0 with
  | none => return ⟨strings, 0⟩
  | some bracket =>
      let start := bracket + 1
      let stop ← closingBracket buffer buffer.length false start
      let c ← read buffer stop
      if c ≠ ']' then return ⟨strings, 0⟩
      else
        let buffer ← write buffer stop '\x00'
        itemLoop zeroBehind heap maxItems buffer buffer.length start ⟨strings, 0⟩

/-- `parse_string_list`. -/
def parseStringList (heap : ℕ → Allocation) (str : Cells) (output : List (Option CString))
    (maxItems : ℕ) : Option Output :=
  parseItems true heap maxItems str output

/-- `parse_patch_entry`. -/
def parsePatchEntry (heap : ℕ → Allocation) (str : Cells) (params : List (Option CString)) :
    Option Output :=
  parseItems false heap maxPatchParams str params

end GamePatch.Memory
