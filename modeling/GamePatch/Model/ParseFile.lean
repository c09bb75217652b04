import GamePatch.Model.Parser

/-! # Reading a patch file on the host

The host build hands the lines to the parser as `fgets` delivers them, each with
its newline. -/

namespace GamePatch

/-- At most `n` characters of the file, up to its next newline, and the rest of
the file. -/
def takeLine : ℕ → List Char → List Char × List Char
  | 0, file => ([], file)
  | _ + 1, [] => ([], [])
  | n + 1, c :: file =>
      if c = '\n' then ([c], file)
      else
        let (line, rest) := takeLine n file
        (c :: line, rest)

/-- `fgets` with a buffer of `size` cells; it fails at the end of the file. -/
def fgets (size : ℕ) (file : List Char) : Option (List Char × List Char) :=
  if file = [] then none else some (takeLine (size - 1) file)

/-- The strings that the `fgets` loop passes to `process_line`. Every round but the
last reads at least one character. -/
def fgetsLines : ℕ → List Char → List CString
  | 0, _ => []
  | fuel + 1, file =>
      match fgets maxLineLength file with
      | none => []
      | some (line, rest) => cstring line :: fgetsLines fuel rest

variable {σ : Type}

/-- `parse_patch_file` of the host build on an open file, absent when `fopen`
fails. The result comes with the return value. -/
def parsePatchFile (env : Env) (ctx : ParseContext σ) (file : Option (List Char)) :
    Option (ParseContext σ × ℤ) :=
  if ctx.mode = .lowMem then some (ctx, -1)
  else
    match file with
    | none => some (ctx, -1)
    | some content =>
        (parseLines env ctx (fgetsLines (content.length + 1) content)).map fun ctx => (ctx, 0)

end GamePatch
