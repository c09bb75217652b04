import GamePatch.Model.PatchCall
import GamePatch.Model.PatternScan
import GamePatch.Shared.Store

/-! # The start of the VSH plugin

`run_patch` looks for the call that the shell starts plugins with and redirects it to
`load_plugin_main`. -/

namespace GamePatch.VshPatch

open Words PatchCall PatternScan

/-- `start_plugin_search`. -/
def startPluginSearch : List UInt32 :=
  [0x801f0008, 0x2f800000, 0x781f0020, 0x7fe3fb78, 0x419effff, 0xffffffff, 0x7fe3fb78, 0xffffffff]

/-- The bytes of `start_plugin_search`. -/
def searchBytes : List UInt8 := startPluginSearch.flatMap fun w => ByteOrder.big.encode 4 w.toNat

/-- `GetVshSize`. -/
def getVshSize (p : Process) : ℕ := ByteOrder.big.decode (Store.read p.memory 0x10068 8)

/-- The memory of the process as far as `ReadProcessMemory` gives it out. -/
def view (readable : ℕ → Bool) (p : Process) : ProcessMemory :=
  fun a => if readable a then some (p.memory a) else none

/-- `run_patch` behind `make_folders`, with what `sys_process_getpid` returns. It fails
where `PatternScan` does. -/
def runPatch (readable : ℕ → Bool) (vshPid : UInt32)
    (loadPluginMain loadPluginMainPtr : FunctionDescriptor) (p : Process) : Option Process := do
  if vshPid = 0 then return p
  let startPluginSearchAddr ←
    patternScan (view readable p) 0x10000 (getVshSize p) searchBytes 20
  if startPluginSearchAddr = 0 then return p
  else
    return patchCall (UInt32.ofNat startPluginSearchAddr) loadPluginMain (some loadPluginMainPtr) p

end GamePatch.VshPatch
