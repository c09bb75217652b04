import GamePatch.Model.CString

/-! # The argument vector of the game

`program_args` of `plugins.h`, filled from `main`'s arguments by `copy_main_args`
and extended by `append_arg`. -/

namespace GamePatch

def maxArgBuf : ℕ := 32 + 260

def maxArgs : ℕ := 32

/-- A `char*`: null, a string outside of the record, or a row of `replace_args`. -/
inductive CharPointer where
  | null
  | outside (address : UInt32)
  | replaceArg (row : ℕ)
  deriving DecidableEq, Repr, Inhabited

/-- `bigint`, the two halves of a 64-bit slot. -/
structure BigInt where
  hi : CharPointer
  lo : CharPointer
  deriving DecidableEq, Repr, Inhabited

/-- A slot cleared by `bzero`. -/
def BigInt.zero : BigInt := ⟨.null, .null⟩

/-- One row of `replace_args`. -/
abbrev ArgBuffer := Vector Char (maxArgBuf + 1)

structure ProgramArgs where
  argc : UInt32
  /-- the array behind the `argv` pointer -/
  argv : ℕ → BigInt
  newArgv : Vector BigInt maxArgs
  replaceArgs : Vector ArgBuffer maxArgs
  changed : Bool

/-- A store to `new_argv[i]`; it fails outside of the table. -/
def storeSlot (slots : Vector BigInt maxArgs) (i : ℤ) (value : BigInt) :
    Option (Vector BigInt maxArgs) :=
  if h : 0 ≤ i ∧ i.toNat < maxArgs then some (slots.set i.toNat value h.2) else none

/-- The first loop of `copy_main_args`, from `i` on for `n` rounds. -/
def copySlots (argv : ℕ → BigInt) : ℕ → ℕ → Vector BigInt maxArgs → Option (Vector BigInt maxArgs)
  | 0, _, slots => some slots
  | n + 1, i, slots =>
      if (argv i).lo = .null then copySlots argv n (i + 1) slots
      else (storeSlot slots i (argv i)).bind (copySlots argv n (i + 1))

/-- The second loop of `copy_main_args`, from `i` on for `n` rounds. -/
def clearSlots : ℕ → ℤ → Vector BigInt maxArgs → Option (Vector BigInt maxArgs)
  | 0, _, slots => some slots
  | n + 1, i, slots => (storeSlot slots i .zero).bind (clearSlots n (i + 1))

/-- `copy_main_args`; `none` when it stores outside of `new_argv`. -/
def copyMainArgs (pargs : ProgramArgs) (argc : Int32) (argv : ℕ → BigInt) : Option ProgramArgs := do
  let copied ← copySlots argv (min argc.toInt maxArgs).toNat 0 pargs.newArgv
  let cleared ← clearSlots (maxArgs - argc.toInt).toNat argc.toInt copied
  return { pargs with argc := argc.toUInt32, argv, newArgv := cleared }

/-- `strncpy` of at most `maxArgBuf` characters into a row: the rest of these cells is
filled with zeros. -/
def strncpy (row : ArgBuffer) (arg : CString) : ArgBuffer :=
  Vector.ofFn fun i => if i.val < maxArgBuf then (cstring arg).getD i '\x00' else row[i]

/-- `append_arg`. -/
def appendArg (pargs : ProgramArgs) (arg : CString) : ProgramArgs × Bool :=
  if h : pargs.argc.toNat < maxArgs then
    let idx := pargs.argc.toNat
    let replaceArgs := pargs.replaceArgs.set idx (strncpy pargs.replaceArgs[idx] arg)
    let appended := pargs.newArgv.set idx { pargs.newArgv[idx] with lo := .replaceArg idx }
    let newArgv := if h' : idx + 1 < maxArgs then appended.set (idx + 1) .zero else appended
    ({ pargs with argc := pargs.argc + 1, newArgv, replaceArgs, changed := true }, true)
  else (pargs, false)

/-- Calls of `append_arg` one after another, with their results. -/
def appendArgs (pargs : ProgramArgs) : List CString → ProgramArgs × List Bool
  | [] => (pargs, [])
  | arg :: args =>
      let (pargs', appended) := appendArg pargs arg
      let (pargs'', results) := appendArgs pargs' args
      (pargs'', appended :: results)

end GamePatch
