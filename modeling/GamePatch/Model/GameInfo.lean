import GamePatch.Model.RunPatch
import GamePatch.Shared.Disk

/-! # The record of the running game

When a game starts, `load_plugin_main` of the shell writes the title and the version
of the game to a file. The modules in the game's process read it with
`load_game_info`, one system call after another, while the shell goes on. -/

namespace GamePatch.GameInfo

/-- `GAME_INFO_PATH` -/
def gameInfoPath : CString := "/dev_hdd0/game_patch/work/game_patch_data.bin".toList

/-- `GamePatchInfo` as it lies in memory: `titleid[16]` and `app_ver[8]`. -/
structure InfoRecord where
  titleid : List Char
  appVer : List Char
  length_titleid : titleid.length = 16
  length_appVer : appVer.length = 8
  deriving DecidableEq, Repr

def InfoRecord.bytes (record : InfoRecord) : List Char := record.titleid ++ record.appVer

/-- `sizeof(GamePatchInfo)` -/
def sizeofInfo : ℕ := 24

/-- The strings that start at the two arrays of a record. -/
def infoOf (bytes : List Char) : GamePatchInfo := ⟨cstring bytes, cstring (bytes.drop 16)⟩

/-! ## System calls -/

/-- What a system call on files returns. -/
inductive CellFsError where
  | ok
  | exists
  | other
  deriving DecidableEq, Repr

inductive FileStatus where
  | ok
  | notExists
  | openFailed
  deriving DecidableEq, Repr

/-- `cellFsErrorToFileStatus_`. -/
def cellFsErrorToFileStatus : CellFsError → FileStatus
  | .ok => .ok
  | .exists => .notExists
  | .other => .openFailed

/-- An open file and the position in it. -/
structure Descriptor where
  file : ℕ
  position : ℕ
  deriving DecidableEq, Repr

/-- The open files of the game's process. -/
abbrev Descriptors := ℕ → Option Descriptor

variable (disk : Disk CString Char) (descriptors : Descriptors)

/-- `fileOpen` for reading. `fault` is the error that the call meets, if it does, and
`fd` the number that is in `fd` afterwards: that of the open file, which was free, or
the one that was there before. -/
def fileOpen (path : CString) (fault : CellFsError) (fd : ℕ) :
    Option (FileStatus × Descriptors) :=
  match fault, disk.directory path with
  | .ok, some file =>
      if descriptors fd = none then
        some (.ok, Function.update descriptors fd (some ⟨file, 0⟩))
      else none
  | .ok, none => some (cellFsErrorToFileStatus .other, descriptors)
  | fault, _ => some (cellFsErrorToFileStatus fault, descriptors)

inductive FileSeekMode where
  | current
  | start
  | stop
  deriving DecidableEq, Repr

/-- `fileSeek`, with the position that it stores. -/
def fileSeek (handle : ℕ) (mode : FileSeekMode) (offset : ℕ) (fault : CellFsError) :
    FileStatus × ℕ × Descriptors :=
  match fault, descriptors handle with
  | .ok, some descriptor =>
      let position := match mode with
        | .current => descriptor.position + offset
        | .start => offset
        | .stop => (disk.content descriptor.file).length + offset
      (.ok, position, Function.update descriptors handle (some { descriptor with position }))
  | .ok, none => (cellFsErrorToFileStatus .other, 0, descriptors)
  | fault, _ => (cellFsErrorToFileStatus fault, 0, descriptors)

/-- `fileTell`. The status of `fileSeek` is converted once more, as if it were the
number of an error. -/
def fileTell (handle : ℕ) (fault : CellFsError) : FileStatus × ℕ × Descriptors :=
  let (status, position, descriptors) := fileSeek disk descriptors handle .current 0 fault
  (if status = .ok then .ok else .openFailed, position, descriptors)

/-- `fileRead`, with the bytes that it stores. -/
def fileRead (handle : ℕ) (count : ℕ) (fault : CellFsError) :
    FileStatus × List Char × Descriptors :=
  match fault, descriptors handle with
  | .ok, some descriptor =>
      let bytes := disk.readAt descriptor.file descriptor.position count
      (.ok, bytes, Function.update descriptors handle
        (some { descriptor with position := descriptor.position + bytes.length }))
  | .ok, none => (cellFsErrorToFileStatus .other, [], descriptors)
  | fault, _ => (cellFsErrorToFileStatus fault, [], descriptors)

/-- `fileClose`. -/
def fileClose (handle : ℕ) (fault : CellFsError) : Descriptors :=
  if fault = .ok then Function.update descriptors handle none else descriptors

/-! ## `load_game_info` -/

/-- The system call that `load_game_info` is about to make, with the variables that are
still used: `telling`, `measuring` and `rewinding` are those of `fileSize`. -/
inductive Point where
  | opening
  | telling (h : ℕ)
  | measuring (h tmp : ℕ)
  | rewinding (h tmp len : ℕ)
  | reading (h : ℕ)
  | closing (h : ℕ) (okay : ℤ)
  deriving DecidableEq, Repr

/-- A call of `load_game_info` that has not returned. -/
structure Load where
  point : Point
  info : List Char
  deriving DecidableEq, Repr

/-- The record after `bzero`. -/
def Load.start : Load := ⟨.opening, List.replicate sizeofInfo '\x00'⟩

/-- What a system call of `load_game_info` leads to: its next one, or its return value
and the record. -/
inductive Outcome where
  | next (load : Load)
  | returned (okay : ℤ) (info : List Char)
  deriving DecidableEq, Repr

/-- One system call of `load_game_info` and the code up to the next one. The handle is
closed whether it was opened or not. -/
def loadCall (load : Load) (fault : CellFsError) (fd : ℕ) : Option (Outcome × Descriptors) :=
  match load.point with
  | .opening => do
      let (status, descriptors) ← fileOpen disk descriptors gameInfoPath fault fd
      return (.next { load with point := if status = .ok then .telling fd else .closing fd 0 },
        descriptors)
  | .telling h =>
      let (status, tmp, descriptors) := fileTell disk descriptors h fault
      some (.next { load with point := if status = .ok then .measuring h tmp else .closing h 0 },
        descriptors)
  | .measuring h tmp =>
      let (status, len, descriptors) := fileSeek disk descriptors h .stop 0 fault
      some (.next
        { load with point := if status = .ok then .rewinding h tmp len else .closing h 0 },
        descriptors)
  | .rewinding h tmp len =>
      let (status, _, descriptors) := fileSeek disk descriptors h .start tmp fault
      some (.next
        { load with
          point := if status = .ok ∧ len = sizeofInfo then .reading h else .closing h 0 },
        descriptors)
  | .reading h =>
      let (status, bytes, descriptors) := fileRead disk descriptors h sizeofInfo fault
      some (.next
        { point := .closing h (if status = .ok ∧ bytes.length = sizeofInfo then 1 else 0)
          info := bytes ++ load.info.drop bytes.length },
        descriptors)
  | .closing h okay => some (.returned okay load.info, fileClose descriptors h fault)

/-! ## The shell and the game -/

/-- The file that `load_plugin_main` has open: `written` bytes of the record have
reached it. -/
structure Writing where
  file : ℕ
  record : InfoRecord
  written : ℕ
  deriving DecidableEq, Repr

/-- The disk, the file open in the shell, the files open in the game's process, its call
of `load_game_info` and what the calls before have returned. -/
structure State where
  disk : Disk CString Char
  writing : Option Writing
  descriptors : Descriptors
  load : Option Load
  loads : List (ℤ × List Char)

inductive Step where
  /-- `make_folders` unlinks the file. -/
  | makeFolders
  /-- `load_plugin_main` at a game start; `opened` is the outcome of its `fopen`. -/
  | loadPluginMain (record : InfoRecord) (opened : Bool)
  /-- At most `n` more bytes of the record reach the file. -/
  | flush (n : ℕ)
  /-- `fclose`; what has not reached the file is lost. -/
  | fclose
  /-- `parse_load_file` or `init_list` calls `load_game_info`. -/
  | loadGameInfo
  /-- The next system call of `load_game_info`. -/
  | call (fault : CellFsError) (fd : ℕ)
  deriving DecidableEq, Repr

/-- One step of the shell or of the game. -/
def step (s : State) : Step → Option State
  | .makeFolders => some { s with disk := s.disk.unlink gameInfoPath }
  | .loadPluginMain record opened =>
      if s.writing ≠ none then none
      else if opened then
        let (file, disk) := s.disk.create gameInfoPath
        some { s with disk := disk, writing := some ⟨file, record, 0⟩ }
      else some s
  | .flush n =>
      s.writing.map fun w =>
        let bytes := (w.record.bytes.drop w.written).take n
        { s with
          disk := s.disk.writeAt w.file w.written bytes
          writing := some { w with written := w.written + bytes.length } }
  | .fclose => s.writing.map fun _ => { s with writing := none }
  | .loadGameInfo => if s.load = none then some { s with load := some .start } else none
  | .call fault fd => do
      let load ← s.load
      let (outcome, descriptors) ← loadCall s.disk s.descriptors load fault fd
      match outcome with
      | .next load => return { s with descriptors := descriptors, load := some load }
      | .returned okay info =>
          return { s with
            descriptors := descriptors
            load := none
            loads := s.loads ++ [(okay, info)] }

/-- `init_list` with what `load_game_info` has returned: the game afterwards. -/
def initList {ω : Type} (env : Env) (fuel : ℕ) (applyPatch : PatchEntry → ω → ω)
    (disk : CString → Option (List Char)) (loaded : ℤ × List Char) (game : ω) :
    LineReader.LoopResult (Option ω) :=
  if loaded.1 = 0 then .finished (some game)
  else
    match runPatchOn env fuel applyPatch (infoOf loaded.2) disk game with
    | .finished report => .finished (report.map (·.game))
    | .overflow => .overflow
    | .running => .running

end GamePatch.GameInfo
