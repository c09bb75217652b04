import GamePatch.Model.Parser

/-! # Applying the patches of a game

`run_patch` feeds the patch file of a title through the parser with two
callbacks: one counts the patches, one applies their entries. -/

namespace GamePatch

/-- The counter behind `user_data`, and the game process. -/
structure RunData (ω : Type) where
  count : ℕ
  game : ω
  deriving DecidableEq, Repr

variable {ω : Type}

/-- `metadata_callback`. -/
def metadataCallback (_ : PatchMetadata) (data : RunData ω) : RunData ω :=
  { data with count := data.count + 1 }

/-- `entry_callback`; `applyPatch` is the effect of `apply_patch` on the game. -/
def entryCallback (applyPatch : PatchEntry → ω → ω) (metadata : PatchMetadata)
    (entry : PatchEntry) (data : RunData ω) : RunData ω :=
  if metadata.enabled then { data with game := applyPatch entry data.game } else data

/-- What `run_patch` does with the notification file. -/
inductive Notice where
  | write (message : CString)
  | delete
  | keep
  deriving DecidableEq, Repr

structure RunReport (ω : Type) where
  count : ℕ
  notice : Notice
  result : ℤ
  game : ω
  deriving DecidableEq, Repr

/-- The context of `run_patch` when the first line is read. -/
def runContext (applyPatch : PatchEntry → ω → ω) (info : GamePatchInfo) (game : ω) :
    ParseContext (RunData ω) :=
  { createParseContext info .lowMem none (⟨0, game⟩ : RunData ω) with
    metaCallback := some metadataCallback
    entryCallback := some (entryCallback applyPatch) }

/-- `"Applied %ld patch%s"` -/
def appliedMessage (count : ℕ) : CString :=
  "Applied ".toList ++ formatSize count ++ " patch".toList ++
    (if 1 < count then "es".toList else [])

/-- The end of `run_patch`, `ret` being the result of the parser. -/
def reportOf (ret : ℤ) (data : RunData ω) : RunReport ω where
  count := data.count
  notice :=
    if ret = 0 ∧ 0 < data.count then .write ((appliedMessage data.count).take 63)
    else if data.count = 0 then .delete
    else .keep
  result := if 0 < data.count then 0 else 1
  game := data.game

/-- `run_patch` on the lines of the title's patch file, absent when it cannot be
opened. -/
def runPatch (env : Env) (applyPatch : PatchEntry → ω → ω) (info : GamePatchInfo)
    (file : Option (List CString)) (game : ω) : Option (RunReport ω) :=
  match file with
  | none => some (reportOf (-1) ⟨0, game⟩)
  | some lines =>
      (parseLines env (runContext applyPatch info game) lines).map fun ctx =>
        reportOf 0 ctx.userData

/-! ## Reading the file -/

/-- `GAME_PATCH_FILES_PATH "/%s.yml"`, cut to the path buffer. -/
def patchPath (titleid : CString) : CString :=
  ("/dev_hdd0/game_patch/yml/".toList ++ titleid ++ ".yml".toList).take 259

/-- A round of the line loop; nothing is left of a parser that has failed. -/
def readBuffer {σ : Type} (env : Env) (ctx : Option (ParseContext σ)) (buffer : List Char) :
    Option (ParseContext σ) :=
  ctx.bind fun ctx => processLine env ctx (cstring buffer)

/-- `parse_patch_file_low_mem` of the console build on a file, absent when it cannot
be opened. -/
def parsePatchFileLowMem {σ : Type} (env : Env) (fuel : ℕ) (ctx : ParseContext σ)
    (file : Option (List Char)) : LineReader.LoopResult (Option (ParseContext σ × ℤ)) :=
  if ctx.mode ≠ .lowMem then .finished (some (ctx, -1))
  else
    match file with
    | none => .finished (some (ctx, -1))
    | some content =>
        match LineReader.readLines (readBuffer env) fuel content (some ctx) with
        | .finished ctx => .finished ((ctx.bind (handlePatchComplete env)).map fun ctx => (ctx, 0))
        | .overflow => .overflow
        | .running => .running

/-- `run_patch` on the files of a disk. -/
def runPatchOn (env : Env) (fuel : ℕ) (applyPatch : PatchEntry → ω → ω) (info : GamePatchInfo)
    (disk : CString → Option (List Char)) (game : ω) :
    LineReader.LoopResult (Option (RunReport ω)) :=
  match parsePatchFileLowMem env fuel (runContext applyPatch info game)
      (disk (patchPath info.titleid)) with
  | .finished parsed => .finished (parsed.map fun (ctx, ret) => reportOf ret ctx.userData)
  | .overflow => .overflow
  | .running => .running

end GamePatch
