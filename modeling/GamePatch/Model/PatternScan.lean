import Mathlib.Data.List.Basic

/-! # The signature scan of the VSH plugin

`PatternScan` reads the module in chunks of 256 bytes and looks for the signature in
each chunk. It fails with `none` where a comparison leaves the chunk buffer, and where the
loop over the chunks never ends. -/

namespace GamePatch.PatternScan

/-- The memory of a process, as far as it can be read. -/
abbrev ProcessMemory := ℕ → Option UInt8

/-- `ReadProcessMemory`; `none` when it does not return 0. -/
def readProcessMemory (process : ProcessMemory) : ℕ → ℕ → Option (List UInt8)
  | _, 0 => some []
  | address, size + 1 => do
      let byte ← process address
      let rest ← readProcessMemory process (address + 1) size
      return byte :: rest

/-- `seek_size`. -/
def seekSize : ℕ := 256

/-- A value stored in a `uintptr_t`. -/
def uintptr (n : ℕ) : ℕ := n % 0x100000000

/-- A value of type `uint64_t`. -/
def uint64 (n : ℕ) : ℕ := n % 0x10000000000000000

/-- The comparisons at place `i` of the chunk, from byte `j` of the pattern on: whether
all of them succeed. -/
def compareAt (scanBytes : List UInt8) (i : ℕ) : ℕ → List UInt8 → Option Bool
  | _, [] => some true
  | j, pattern :: patternBytes =>
      match scanBytes[i + j]? with
      | none => none
      | some byte =>
          if byte ≠ pattern ∧ pattern ≠ 0xff then some false
          else compareAt scanBytes i (j + 1) patternBytes

/-- The loop over the places of a chunk, from `i` on. -/
def scanChunk (scanBytes patternBytes : List UInt8) : ℕ → ℕ → Option (Option ℕ)
  | 0, _ => some none
  | rounds + 1, i => do
      let found ← compareAt scanBytes i 0 patternBytes
      if found then return some i else scanChunk scanBytes patternBytes rounds (i + 1)

/-- As many chunks as the addresses have room for. After them `seek` is back where it was. -/
def seekRounds : ℕ := 0x1000000

/-- The loop over the chunks. It ends only if `seek` gets to the end of the module. -/
def seekLoop (process : ProcessMemory) (signature : List UInt8) (offset stop : ℕ) :
    ℕ → ℕ → Option ℕ
  | 0, _ => none
  | rounds + 1, seek =>
      if seek < stop then
        match readProcessMemory process seek seekSize with
        | none => seekLoop process signature offset stop rounds (uintptr (seek + seekSize))
        | some seekBuf => do
            match ← scanChunk seekBuf signature seekSize 0 with
            | some i => return uintptr (seek + i + offset)
            | none => seekLoop process signature offset stop rounds (uintptr (seek + seekSize))
      else some 0

/-- `PatternScan`; `signature` has `signature_size` bytes. -/
def patternScan (process : ProcessMemory) (moduleBase moduleSize : ℕ) (signature : List UInt8)
    (offset : ℕ) : Option ℕ :=
  if moduleBase = 0 ∨ moduleSize = 0 ∨ signature.length = 0 ∨ seekSize < signature.length then
    some 0
  else
    let stop := uint64 (uint64 (moduleBase + moduleSize) + 0x10000000000000000 - signature.length)
    seekLoop process signature offset stop seekRounds moduleBase

end GamePatch.PatternScan
