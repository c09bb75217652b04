import GamePatch.Model.ApplyPatch

/-! # Redirecting a call

`patch_call_` replaces a branch of the running process by one to a function of the
plugin. Addresses have 32 bits, the arithmetic of the macros has 64. -/

namespace GamePatch.PatchCall

open Words

/-- `function_descriptor`. -/
structure FunctionDescriptor where
  addr : UInt32
  toc : UInt32
  deriving DecidableEq, Repr

/-- `MAKE_JUMP_VALUE`. -/
def makeJumpValue (addr target : UInt32) : UInt64 :=
  ((0x12 : UInt64) <<< 26) ||| ((((target.toUInt64 - addr.toUInt64) >>> 2) &&& 0xffffff) <<< 2)

/-- `MAKE_CALL_VALUE`. -/
def makeCallValue (addr target : UInt32) : UInt64 :=
  (((0x12 : UInt64) <<< 26) ||| ((((target.toUInt64 - addr.toUInt64) >>> 2) &&& 0xffffff) <<< 2)) ||| 1

/-- `READ_CALL_OFFSET`. The shift to the right is one of a signed number. -/
def readCallOffset (value : UInt32) : Int32 :=
  (((value &&& ~~~1) &&& 0x03fffffc) <<< 6).toInt32 >>> 6

/-- `ReadProcessMemory` of a word. -/
def readWord (p : Process) (address : UInt32) : UInt32 :=
  UInt32.ofNat (ByteOrder.big.decode ((List.range 4).map fun i => p.memory (address.toNat + i)))

/-- `WriteProcessMemory` of a word. -/
def writeWord (p : Process) (address value : UInt32) : Process :=
  writeProcessMemory p address.toNat (valueBytes 4 value.toNat)

/-- `patch_call_`; `original` is absent when the pointer is null. -/
def patchCall (src : UInt32) (dst : FunctionDescriptor) (original : Option FunctionDescriptor)
    (p : Process) : Process :=
  let blTo := (makeCallValue src dst.addr).toUInt32
  let blOriginal := readWord p src
  let p :=
    match original with
    | none => p
    | some original =>
        if original.addr ≠ 0 then
          let originalCall := src + (readCallOffset blOriginal).toUInt32
          let blToOriginal := (makeJumpValue original.addr originalCall).toUInt32
          writeWord p original.addr blToOriginal
        else p
  writeWord p src blTo

end GamePatch.PatchCall
