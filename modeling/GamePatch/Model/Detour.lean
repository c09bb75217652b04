import GamePatch.Model.PatchCall
import GamePatch.Shared.PowerPC

/-! # Hooking a function

`Detour` writes a jump over the first instructions of a function. The instructions
overwritten go to a trampoline that ends in a jump back behind them. -/

namespace GamePatch.Hooking

open Words PatchCall

/-! ## Instructions -/

/-- `POWERPC_OPCODE`. -/
def powerpcOpcode (op : UInt32) : UInt32 := op <<< 26

/-- `POWERPC_EXOPCODE`. -/
def powerpcExopcode (op : UInt32) : UInt32 := op <<< 1

/-- `POWERPC_HI`. -/
def powerpcHi (x : UInt32) : UInt32 := (x >>> 16) &&& 0xffff

/-- `POWERPC_LO`. -/
def powerpcLo (x : UInt32) : UInt32 := x &&& 0xffff

/-- `MASK_N_BITS`. -/
def maskNBits (n : UInt32) : UInt32 := (1 <<< n) - 1

/-- What the instructions with two registers and a number share. -/
def powerpcImmediate (op r rA imm : UInt32) : UInt32 :=
  powerpcOpcode op ||| (r <<< 21) ||| (rA <<< 16) ||| imm

/-- `POWERPC_ADDIS`. -/
def powerpcAddis (rD rA simm : UInt32) : UInt32 := powerpcImmediate 15 rD rA simm

/-- `POWERPC_LIS`. -/
def powerpcLis (rD simm : UInt32) : UInt32 := powerpcAddis rD 0 simm

/-- `POWERPC_ORI`. -/
def powerpcOri (rS rA uimm : UInt32) : UInt32 := powerpcImmediate 24 rS rA uimm

/-- `POWERPC_STD`. -/
def powerpcStd (rS : UInt32) (ds : Int16) (rA : UInt32) : UInt32 :=
  powerpcImmediate 62 rS rA ds.toUInt16.toUInt32

/-- `POWERPC_LD`. -/
def powerpcLd (rS : UInt32) (ds : Int16) (rA : UInt32) : UInt32 :=
  powerpcImmediate 58 rS rA ds.toUInt16.toUInt32

/-- `POWERPC_SPR`. -/
def powerpcSpr (spr : UInt32) : UInt32 := ((spr &&& 0x1f) <<< 5) ||| ((spr >>> 5) &&& 0x1f)

/-- `POWERPC_MTSPR`. -/
def powerpcMtspr (spr rS : UInt32) : UInt32 :=
  powerpcOpcode 31 ||| (rS <<< 21) ||| (powerpcSpr spr <<< 11) ||| powerpcExopcode 467

/-- `POWERPC_MTCTR`. -/
def powerpcMtctr (rS : UInt32) : UInt32 := powerpcMtspr 9 rS

/-- `POWERPC_BCCTR`. -/
def powerpcBcctr (bo bi lk : UInt32) : UInt32 :=
  powerpcOpcode 19 ||| (bo <<< 21) ||| (bi <<< 16) ||| (lk &&& 1) ||| powerpcExopcode 528

/-- `POWERPC_BRANCH_OPTIONS_ALWAYS`. -/
def branchOptionsAlways : UInt32 := 20

/-! ## Jumps -/

/-- `BranchFarAsm`. -/
def branchFarAsm (branchTarget : UInt32) (linked : Bool) (branchOptions : UInt32)
    (conditionRegisterBit registerIndex : UInt8) : List UInt32 :=
  [powerpcLis registerIndex.toUInt32 (powerpcHi branchTarget),
    powerpcOri registerIndex.toUInt32 registerIndex.toUInt32 (powerpcLo branchTarget),
    powerpcMtctr registerIndex.toUInt32,
    powerpcBcctr branchOptions conditionRegisterBit.toUInt32 linked.toUInt32]

/-- `BranchFarAsmPreserve`. -/
def branchFarAsmPreserve (branchTarget : UInt32) (linked : Bool) (branchOptions : UInt32)
    (conditionRegisterBit registerIndex : UInt8) : List UInt32 :=
  [powerpcStd registerIndex.toUInt32 (-0x30) 1,
    powerpcLis registerIndex.toUInt32 (powerpcHi branchTarget),
    powerpcOri registerIndex.toUInt32 registerIndex.toUInt32 (powerpcLo branchTarget),
    powerpcMtctr registerIndex.toUInt32,
    powerpcLd registerIndex.toUInt32 (-0x30) 1,
    powerpcBcctr branchOptions conditionRegisterBit.toUInt32 linked.toUInt32]

/-- `BranchAsm` of `JumpWithOptions`. -/
def branchAsm (branchTarget : UInt32) (linked preserveRegister : Bool) (branchOptions : UInt32)
    (conditionRegisterBit registerIndex : UInt8) : List UInt32 :=
  if preserveRegister then
    branchFarAsmPreserve branchTarget linked branchOptions conditionRegisterBit registerIndex
  else branchFarAsm branchTarget linked branchOptions conditionRegisterBit registerIndex

/-- `WriteProcessMemory` of instructions. -/
def writeWords (p : Process) (destination : UInt32) (words : List UInt32) : Process :=
  writeProcessMemory p destination.toNat (PowerPC.bytes words)

/-- `JumpWithOptions`; `destination` is absent when the pointer is null. -/
def jumpWithOptions (destination : Option UInt32) (branchTarget : UInt32)
    (linked preserveRegister : Bool) (branchOptions : UInt32)
    (conditionRegisterBit registerIndex : UInt8) (p : Process) : Process × ℕ :=
  let asm :=
    branchAsm branchTarget linked preserveRegister branchOptions conditionRegisterBit registerIndex
  let p :=
    match destination with
    | some destination => writeWords p destination asm
    | none => p
  (p, 4 * asm.length)

/-- `GetHookSize`. -/
def getHookSize (branchTarget : UInt32) (linked preserveRegister : Bool) (p : Process) : ℕ :=
  (jumpWithOptions none branchTarget linked preserveRegister branchOptionsAlways 0 0 p).2

/-- `Jump`. -/
def jump (destination branchTarget : UInt32) (linked preserveRegister : Bool) (p : Process) :
    Process × ℕ :=
  jumpWithOptions (some destination) branchTarget linked preserveRegister branchOptionsAlways 0 0 p

/-! ## Relocation -/

/-- What the `switch` of `RelocateBranch` sets. -/
structure BranchFields where
  offsetBitSize : UInt32
  offsetBitBase : UInt32
  options : UInt32
  conditionRegisterBit : UInt8
  deriving DecidableEq, Repr

def branchFields (instruction : UInt32) : BranchFields :=
  if instruction &&& powerpcOpcode 63 = powerpcOpcode 18 then ⟨24, 2, branchOptionsAlways, 0⟩
  else if instruction &&& powerpcOpcode 63 = powerpcOpcode 16 then
    ⟨14, 2, (instruction >>> 21) &&& maskNBits 5, ((instruction >>> 16) &&& maskNBits 5).toUInt8⟩
  else ⟨0, 0, 0, 0⟩

/-- `BranchOffset` with its sign extended. -/
def branchOffset (instruction : UInt32) : UInt32 :=
  let fields := branchFields instruction
  let offset := instruction &&& (maskNBits fields.offsetBitSize <<< fields.offsetBitBase)
  if offset >>> (fields.offsetBitSize + fields.offsetBitBase - 1) ≠ 0 then
    offset ||| ~~~ maskNBits (fields.offsetBitSize + fields.offsetBitBase)
  else offset

/-- `RelocateBranch`. -/
def relocateBranch (destination source : UInt32) (p : Process) : Process × ℕ :=
  let instruction := readWord p source
  if instruction &&& 2 ≠ 0 then (writeWords p destination [instruction], 4)
  else
    let fields := branchFields instruction
    jumpWithOptions (some destination) (source + branchOffset instruction)
      (instruction &&& 1 ≠ 0) true fields.options fields.conditionRegisterBit 0 p

/-- `RelocateCode`. -/
def relocateCode (destination source : UInt32) (p : Process) : Process × ℕ :=
  let instruction := readWord p source
  let opcode := instruction &&& powerpcOpcode 63
  if opcode = powerpcOpcode 18 ∨ opcode = powerpcOpcode 16 then relocateBranch destination source p
  else (writeWords p destination [instruction], 4)

/-! ## Hooks -/

/-- The fields of a `Detour`. -/
structure Detour where
  hookTarget : UInt32
  hookAddress : UInt32
  trampolineAddress : UInt32
  trampolineOpd : FunctionDescriptor
  originalInstructions : List UInt8
  originalLength : ℕ
  deriving DecidableEq, Repr

/-- The constructor without arguments. -/
def Detour.init : Detour := ⟨0, 0, 0, ⟨0, 0⟩, List.replicate 30 0, 0⟩

/-- What all detours share: the process and `s_TrampolineSize`, counted without the wrap of
a `size_t`. -/
structure Engine where
  process : Process
  trampolineSize : ℕ

/-- `GetCurrentToc`. -/
def getCurrentToc (p : Process) : UInt32 := readWord p (readWord p 0x1001c + 4)

/-- One round of the loop of `Hook`. -/
def relocateRound (trampolineBuffer hookAddress : UInt32) (e : Engine) (i : ℕ) : Engine :=
  let (process, size) := relocateCode (trampolineBuffer + UInt32.ofNat e.trampolineSize)
    (hookAddress + UInt32.ofNat (4 * i)) e.process
  ⟨process, e.trampolineSize + size⟩

/-- `Hook`; `trampolineBuffer` is the address of `s_TrampolineBuffer`. -/
def hook (trampolineBuffer fnAddress fnCallback tocOverride : UInt32) (d : Detour) (e : Engine) :
    Detour × Engine :=
  let hookTarget := readWord e.process fnCallback
  let hookSize := getHookSize hookTarget false false e.process
  let original := Store.read e.process.memory fnAddress.toNat hookSize
  let trampolineAddress := trampolineBuffer + UInt32.ofNat e.trampolineSize
  let e := (List.range (hookSize / 4)).foldl (relocateRound trampolineBuffer fnAddress) e
  let (process, size) := jump (trampolineBuffer + UInt32.ofNat e.trampolineSize)
    (fnAddress + UInt32.ofNat hookSize) false true e.process
  let (process, _) := jump fnAddress hookTarget false false process
  let toc := if tocOverride ≠ 0 then tocOverride else getCurrentToc process
  ({ hookTarget
     hookAddress := fnAddress
     trampolineAddress
     trampolineOpd := ⟨trampolineAddress, toc⟩
     originalInstructions := original ++ d.originalInstructions.drop hookSize
     originalLength := hookSize },
    ⟨process, e.trampolineSize + size⟩)

/-- `UnHook`. -/
def unHook (d : Detour) (e : Engine) : Bool × Detour × Engine :=
  if d.hookAddress ≠ 0 ∧ d.originalLength ≠ 0 then
    let process := writeProcessMemory e.process d.hookAddress.toNat
      (d.originalInstructions.take d.originalLength)
    (true, { d with originalLength := 0, hookAddress := 0 }, { e with process })
  else (false, d, e)

/-! ## Many detours -/

/-- What a program does with its detours, which are told apart by a number. -/
inductive Action where
  | hook (id : ℕ) (fnAddress fnCallback tocOverride : UInt32)
  | unHook (id : ℕ)
  /-- the destructor; the number is free for another detour -/
  | destroy (id : ℕ)
  deriving DecidableEq, Repr

structure Session where
  detours : ℕ → Detour
  engine : Engine

def Session.set (s : Session) (id : ℕ) (d : Detour) (engine : Engine) : Session :=
  ⟨fun i => if i = id then d else s.detours i, engine⟩

def perform (trampolineBuffer : UInt32) (s : Session) : Action → Session
  | .hook id fnAddress fnCallback tocOverride =>
      let (d, e) := hook trampolineBuffer fnAddress fnCallback tocOverride (s.detours id) s.engine
      s.set id d e
  | .unHook id =>
      let (_, d, e) := unHook (s.detours id) s.engine
      s.set id d e
  | .destroy id => s.set id .init (unHook (s.detours id) s.engine).2.2

end GamePatch.Hooking
