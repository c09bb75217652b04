import GamePatch.Model.CString
import GamePatch.Shared.Hex

/-! # Files as C arrays

`bin2c` of the build writes a file as the initializer of an array. The plugin list and
the bootloader are compiled into the VSH plugin in this form. -/

namespace GamePatch.Bin2c

/-- `useconst` and `zeroterminated`. -/
structure Options where
  useconst : Bool
  zeroterminated : Bool
  deriving DecidableEq, Repr

/-- The loop over the options in `main`, and the three arguments behind them. `none` is
where `usage` ends the program. -/
def parseArgs (options : Options) : List CString → Option (Options × CString × CString × CString)
  | [] => none
  | arg :: args =>
      if 3 ≤ args.length then
        if arg = "-c".toList then parseArgs { options with useconst := true } args
        else if arg = "-z".toList then parseArgs { options with zeroterminated := true } args
        else if arg = "-cz".toList then parseArgs ⟨true, true⟩ args
        else none
      else
        match args with
        | [ofname, charName] => some (options, arg, ofname, charName)
        | _ => none

/-- What the calls of `myfgetc` return up to the end. -/
def myfgetcs (zeroterminated : Bool) (ifile : List UInt8) : List UInt8 :=
  ifile ++ if zeroterminated then [0] else []

/-- `"0x%.2x, "` -/
def element (c : UInt8) : List Char := '0' :: 'x' :: (Hex.text 2 c.toNat ++ ", ".toList)

/-- The loop of `process` over the bytes. -/
def processLoop (col : ℕ) : List UInt8 → List Char
  | [] => []
  | c :: cs =>
      if 78 - 6 ≤ col then '\n' :: (element c ++ processLoop (1 + 6) cs)
      else element c ++ processLoop (col + 6) cs

/-- What `process` writes for the bytes of `ifile`. -/
def process (options : Options) (ifile : List UInt8) (charName : CString) : List Char :=
  "// clang-format off\nstatic ".toList ++ (if options.useconst then "const ".toList else []) ++
    "unsigned char ".toList ++ charName ++ "[] = \x7b\n".toList ++
    processLoop 1 (myfgetcs options.zeroterminated ifile) ++
    "\n\x7d;\n// clang-format on\n".toList

/-- `main` on the arguments behind the program's name: the file written. Opening a file
for writing empties it, also when it is the one that is read. -/
def main (args : List CString) (files : CString → Option (List UInt8)) :
    Option (CString × List Char) := do
  let (options, ifname, ofname, charName) ← parseArgs ⟨false, false⟩ args
  let ifile ← files ifname
  return (ofname, process options (if ofname = ifname then [] else ifile) charName)

end GamePatch.Bin2c
