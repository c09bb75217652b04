import GamePatch.Shared.FirstMatch
import GamePatch.Shared.Words

/-! # The settings file

One file per title records which patches the user has switched on. The host
build reads and rewrites it; the console build has a reader of its own. -/

namespace GamePatch.Settings

open Words

abbrev Bytes := List UInt8

/-- The multi-character constant `'ILNY'`. -/
def patchStateMagic : UInt32 := 0x494c4e59

def patchStateVersion : UInt32 := 1

/-- A packed record of five bytes. -/
structure PatchState where
  hash : UInt32
  enabled : UInt8
  deriving DecidableEq, Repr

/-- A packed header of twelve bytes. -/
structure PatchStateFileHeader where
  magic : UInt32
  version : UInt32
  count : UInt32
  deriving DecidableEq, Repr

def sizeofPatchState : ℕ := 5

def sizeofHeader : ℕ := 12

/-! ## The bytes of a header and of a record -/

def encodeHeader (order : ByteOrder) (h : PatchStateFileHeader) : Bytes :=
  order.encode 4 h.magic.toNat ++ order.encode 4 h.version.toNat ++ order.encode 4 h.count.toNat

def decodeHeader (order : ByteOrder) (bs : Bytes) : PatchStateFileHeader where
  magic := UInt32.ofNat (order.decode (bs.take 4))
  version := UInt32.ofNat (order.decode ((bs.drop 4).take 4))
  count := UInt32.ofNat (order.decode ((bs.drop 8).take 4))

def encodeState (order : ByteOrder) (s : PatchState) : Bytes :=
  order.encode 4 s.hash.toNat ++ [s.enabled]

def decodeState (order : ByteOrder) (bs : Bytes) : PatchState where
  hash := UInt32.ofNat (order.decode (bs.take 4))
  enabled := bs.getD 4 0

def encodeStates (order : ByteOrder) (states : List PatchState) : Bytes :=
  states.flatMap (encodeState order)

/-- The first `n` records of a buffer. -/
def decodeStates (order : ByteOrder) : ℕ → Bytes → List PatchState
  | 0, _ => []
  | n + 1, bs =>
      decodeState order (bs.take sizeofPatchState) ::
        decodeStates order n (bs.drop sizeofPatchState)

/-! ## Readers

A reader returns the record buffer, absent when the pointer is null, and the
value it leaves in `*count`. A missing file is `none`; `malloc n` tells whether
an allocation of `n` bytes succeeds. -/

/-- `read_patch_states_internal` of the host build. -/
def readPatchStatesInternal (order : ByteOrder) (malloc : ℕ → Bool) (file : Option Bytes) :
    Option (List PatchState) × ℕ :=
  match file with
  | none => (none, 0)
  | some f =>
      if f.length < sizeofHeader then (none, 0)
      else
        let header := decodeHeader order (f.take sizeofHeader)
        let count := header.count.toNat
        if header.magic ≠ patchStateMagic then (none, 0)
        else if header.version ≠ patchStateVersion then (none, 0)
        else if count = 0 then (none, 0)
        else if malloc (sizeofPatchState * count) = false then (none, 0)
        else if (f.drop sizeofHeader).length < sizeofPatchState * count then (none, 0)
        else (some (decodeStates order count (f.drop sizeofHeader)), count)

/-- `read_patch_states_internal` of the console build. The header variable is
not initialised: `stale` is what it held before. A `size_t` has 32 bits, so the
byte count wraps, and the buffer then holds fewer records than `*count` says. -/
def readPatchStatesInternalPrx (order : ByteOrder) (malloc : ℕ → Bool) (stale : Bytes)
    (file : Option Bytes) : Option (List PatchState) × ℕ :=
  match file with
  | none => (none, 0)
  | some f =>
      if f.length = 0 then (none, 0)
      else
        let readcount := (f.take sizeofHeader).length
        let header := decodeHeader order (f.take sizeofHeader ++ stale.drop readcount)
        let count := header.count.toNat
        if readcount = 0 then (none, 0)
        else if header.magic = patchStateMagic ∧ header.version = patchStateVersion then
          if count = 0 then (none, 0)
          else
            let nbytes := sizeofPatchState * count % 2 ^ 32
            if malloc nbytes then
              let states := (f.drop sizeofHeader).take nbytes
              if states.length ≠ nbytes then (none, 0)
              else (some (decodeStates order (nbytes / sizeofPatchState) states), count)
            else (none, count)
        else (none, 0)

/-- The search loop of `read_patch_state`: `n` rounds over the buffer. A round
past the last record read from the file has no defined outcome. -/
def findState (hash : UInt32) : ℕ → List PatchState → Option ℤ
  | 0, _ => some (-1)
  | _ + 1, [] => none
  | n + 1, s :: rest =>
      if s.hash = hash then some (if s.enabled ≠ 0 then 1 else 0) else findState hash n rest

def searchStates (states : Option (List PatchState)) (count : ℕ) (hash : UInt32) : Option ℤ :=
  if states = none ∧ count = 0 then some (-1) else findState hash count (states.getD [])

/-- `read_patch_state` of the host build. -/
def readPatchState (order : ByteOrder) (malloc : ℕ → Bool) (file : Option Bytes)
    (hash : UInt32) : Option ℤ :=
  let (states, count) := readPatchStatesInternal order malloc file
  searchStates states count hash

/-- `read_patch_state` of the console build. -/
def readPatchStatePrx (order : ByteOrder) (malloc : ℕ → Bool) (stale : Bytes)
    (file : Option Bytes) (hash : UInt32) : Option ℤ :=
  let (states, count) := readPatchStatesInternalPrx order malloc stale file
  searchStates states count hash

/-! ## Writers

Only the host build writes. The file after a call is returned with the result. -/

/-- How one write of the file goes: whether the buffer can be enlarged, whether
`fopen` succeeds, and where the two `fwrite` calls are cut off, if they are. -/
structure WriteIo where
  realloc : Bool
  fopen : Bool
  header : Option ℕ
  records : Option ℕ
  deriving DecidableEq, Repr

/-- The bytes that reach the file, and whether these are all of them. -/
def fwrite (cut : Option ℕ) (bs : Bytes) : Bytes × Bool :=
  match cut with
  | none => (bs, true)
  | some k => (bs.take k, decide (bs.length ≤ k))

/-- `write_patch_states_internal`. Mode `"wb"` truncates the file before the
first byte is written. -/
def writePatchStatesInternal (order : ByteOrder) (io : WriteIo) (file : Option Bytes)
    (states : List PatchState) (count : ℕ) : Option Bytes × ℤ :=
  if io.fopen = false then (file, -1)
  else
    let header := encodeHeader order ⟨patchStateMagic, patchStateVersion, UInt32.ofNat count⟩
    let (written, headerOk) := fwrite io.header header
    if headerOk = false then (some written, -1)
    else
      let (written', recordsOk) := fwrite io.records (encodeStates order (states.take count))
      if 0 < count ∧ recordsOk = false then (some (written ++ written'), -1)
      else (some (written ++ written'), 0)

def enabledByte (enabled : Bool) : UInt8 := if enabled then 1 else 0

def PatchState.setEnabled (enabled : Bool) (s : PatchState) : PatchState :=
  { s with enabled := enabledByte enabled }

/-- `write_patch_state`. -/
def writePatchState (order : ByteOrder) (malloc : ℕ → Bool) (io : WriteIo)
    (file : Option Bytes) (hash : UInt32) (enabled : Bool) : Option Bytes × ℤ :=
  let (states, count) := readPatchStatesInternal order malloc file
  match FirstMatch.update? PatchState.hash hash (PatchState.setEnabled enabled)
      (states.getD []) with
  | some states' => writePatchStatesInternal order io file states' count
  | none =>
      if io.realloc = false then (file, -1)
      else
        writePatchStatesInternal order io file
          (states.getD [] ++ [⟨hash, enabledByte enabled⟩]) (count + 1)

/-- `toggle_patch_state`. -/
def togglePatchState (order : ByteOrder) (malloc : ℕ → Bool) (io : WriteIo)
    (file : Option Bytes) (hash : UInt32) : Option (Option Bytes × ℤ) := do
  let currentState ← readPatchState order malloc file hash
  if currentState = -1 then
    let (file', written) := writePatchState order malloc io file hash true
    return (file', if written = 0 then 1 else -1)
  else
    let newState := decide (currentState = 0)
    let (file', written) := writePatchState order malloc io file hash newState
    return (file', if written = 0 then (if newState then 1 else 0) else -1)

end GamePatch.Settings
