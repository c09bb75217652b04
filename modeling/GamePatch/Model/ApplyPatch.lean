import GamePatch.Model.Numbers
import GamePatch.Model.Patch
import GamePatch.Model.ProgramArgs

/-! # Applying one patch entry -/

namespace GamePatch

open Words

/-- What `apply_patch` reads and changes: the memory of the process, the calls of
`WriteProcessMemory` made so far, the process id kept by `write_patch` and the
arguments behind `g_args`. -/
structure Process where
  memory : ℕ → UInt8
  writes : List (ℕ × List UInt8)
  currentPid : UInt32
  args : Option ProgramArgs

/-- `WriteProcessMemory`: the bytes are stored one after another. -/
def writeProcessMemory (p : Process) (addr : ℕ) (val : List UInt8) : Process :=
  { p with
    memory := fun a => if addr ≤ a then val.getD (a - addr) (p.memory a) else p.memory a
    writes := p.writes ++ [(addr, val)] }

/-- `write_patch`; `getpid` is what `sys_process_getpid` returns. -/
def writePatch (getpid : UInt32) (addr : UInt32) (val : List UInt8) (p : Process) : Process :=
  let p := if p.currentPid = 0 then { p with currentPid := getpid } else p
  if p.currentPid ≠ 0 then writeProcessMemory p addr.toNat val else p

/-- The bytes of a number of `n` bytes in the memory of the console. -/
def valueBytes (n : ℕ) (val : ℕ) : List UInt8 := ByteOrder.big.encode n val

/-- The loop of `apply_patch` over the arguments behind the type. Empty ones are
skipped. -/
def appendParams (params : List CString) (pargs : ProgramArgs) : ProgramArgs :=
  (appendArgs pargs (params.filter fun param => param ≠ [])).1

/-- `apply_patch`. Fewer than `MIN_PATCH_PARAMS` parameters change nothing. -/
def applyPatch (getpid : UInt32) (entry : PatchEntry) (p : Process) : Process :=
  match entry.params with
  | type :: address :: value :: rest =>
      let addr := (stringToUint address).toUInt32
      let val := stringToInt value
      if strncmp2 type "bytes8".toList || strncmp2 type "byte".toList then
        writePatch getpid addr (valueBytes 1 val.toInt8.toUInt8.toNat) p
      else if strncmp2 type "bytes16".toList || strncmp2 type "be16".toList then
        writePatch getpid addr (valueBytes 2 val.toInt16.toUInt16.toNat) p
      else if strncmp2 type "bytes32".toList || strncmp2 type "be32".toList then
        writePatch getpid addr (valueBytes 4 val.toInt32.toUInt32.toNat) p
      else if strncmp2 type "bytes64".toList || strncmp2 type "be64".toList then
        writePatch getpid addr (valueBytes 8 val.toUInt64.toNat) p
      else if type = "append_arg".toList then
        { p with args := p.args.map (appendParams (address :: value :: rest)) }
      else p
  | _ => p

end GamePatch
