import GamePatch.Model.Detour

/-! # Functions by library and number

The modules of a process describe their libraries in tables of stubs. Each stub has the
name of a library, the numbers of its functions and pointers to their descriptors. -/

namespace GamePatch.Hooking

open Words PatchCall

/-- A field of two bytes. -/
def readHalf (p : Process) (address : UInt32) : UInt16 :=
  UInt16.ofNat (ByteOrder.big.decode (Store.read p.memory address.toNat 2))

/-- The fields of `exportStub_s` and `importStub_s` that are read. They stand at the same
places in both; `count` is `exports` or `imports`. -/
structure Stub where
  ssize : UInt16
  count : Int16
  name : UInt32
  fnid : UInt32
  stub : UInt32
  deriving DecidableEq, Repr

def readStub (p : Process) (address : UInt32) : Stub where
  ssize := readHalf p address
  count := (readHalf p (address + 6)).toInt16
  name := readWord p (address + 16)
  fnid := readWord p (address + 20)
  stub := readWord p (address + 24)

/-- Whether `strcmp` of a string and one in memory is 0. What follows a zero in the first
is not looked at. -/
def strcmpAt (p : Process) : List UInt8 → UInt32 → Bool
  | [], address => p.memory address.toNat = 0
  | c :: s, address =>
      if p.memory address.toNat ≠ c then false
      else if c = 0 then true
      else strcmpAt p s (address + 1)

/-- The loop over the numbers of a library, `rounds` of them from `i` on. -/
def findFnid (p : Process) (stub : Stub) (fnid : UInt32) : ℕ → ℕ → Option UInt32
  | 0, _ => none
  | rounds + 1, i =>
      if readWord p (stub.fnid + UInt32.ofNat (4 * i)) = fnid then
        some (readWord p (stub.stub + UInt32.ofNat (4 * i)))
      else findFnid p stub fnid rounds (i + 1)

/-- What `FindExportByName` and `FindImportByName` do from the stub at `address` on. The
stubs start with `ssize` and have `size` bytes. -/
def findByName (ssize : UInt16) (size : UInt32) (p : Process) (module : List UInt8)
    (fnid : UInt32) : ℕ → UInt32 → Option UInt32
  | 0, _ => none
  | fuel + 1, address =>
      let stub := readStub p address
      if stub.ssize = ssize then
        let found :=
          if strcmpAt p module stub.name then findFnid p stub fnid stub.count.toInt.toNat 0
          else none
        match found with
        | some opd => some opd
        | none => findByName ssize size p module fnid fuel (address + size)
      else some 0

/-- `exportAdressTable`. -/
def exportAdressTable (p : Process) : UInt32 := readWord p (readWord p 0x1008c + 0x984)

/-- `FindExportByName`. -/
def findExportByName (p : Process) (module : List UInt8) (fnid : UInt32) (fuel : ℕ) :
    Option UInt32 :=
  findByName 0x1c00 28 p module fnid fuel (exportAdressTable p)

/-- `FindImportByName`. It starts at the table of the exports, too. -/
def findImportByName (p : Process) (module : List UInt8) (fnid : UInt32) (fuel : ℕ) :
    Option UInt32 :=
  findByName 0x2c00 44 p module fnid fuel (exportAdressTable p)

/-! ## `ImportExportDetour` -/

inductive HookType where
  | imported
  | exported
  deriving DecidableEq, Repr

/-- `HookByFnid`. -/
def hookByFnid (trampolineBuffer : UInt32) (type : HookType) (libaryName : List UInt8)
    (fnid fnCallback : UInt32) (fuel : ℕ) (d : Detour) (e : Engine) : Option (Detour × Engine) := do
  let fnOpd ← match type with
    | .imported => findImportByName e.process libaryName fnid fuel
    | .exported => findExportByName e.process libaryName fnid fuel
  if fnOpd = 0 then return (d, e)
  else
    return hook trampolineBuffer (readWord e.process fnOpd) fnCallback
      (readWord e.process (fnOpd + 4)) d e

/-- What a program does with its detours by number, which are told apart by another one. -/
inductive FnidAction where
  | construct (id : ℕ) (type : HookType) (libaryName : List UInt8) (fnid fnCallback : UInt32)
  /-- `Hook` of `ImportExportDetour` -/
  | hook (id : ℕ) (fnAddress fnCallback tocOverride : UInt32)
  /-- `UnHook` of `ImportExportDetour` -/
  | unHook (id : ℕ)
  /-- the destructor, which runs the one of `Detour` -/
  | destroy (id : ℕ)
  deriving DecidableEq, Repr

def performFnid (trampolineBuffer : UInt32) (fuel : ℕ) (s : Session) :
    FnidAction → Option Session
  | .construct id type libaryName fnid fnCallback => do
      let (d, e) ← hookByFnid trampolineBuffer type libaryName fnid fnCallback fuel .init s.engine
      return s.set id d e
  | .hook .. => some s
  | .unHook _ => some s
  | .destroy id => some (perform trampolineBuffer s (.destroy id))

end GamePatch.Hooking
