import GamePatch.Model.LineReader
import GamePatch.Model.Patch

/-! # The patch file parser

`process_line` and `handle_patch_complete` move a context from line to line.
Every function fails with `none` where the code runs into undefined behaviour:
a null pointer in a string function, or a store outside an array. -/

namespace GamePatch

inductive ParseMode where
  | all
  | lowMem
  | metadata
  deriving DecidableEq, Repr

/-- A growing array: the elements stored, the capacity the context remembers and
the number of elements its buffer was allocated for. -/
structure GrowArray (α : Type) where
  elems : List α
  capacity : ℕ
  allocated : ℕ
  deriving DecidableEq, Repr

namespace GrowArray

variable {α : Type}

def empty : GrowArray α := ⟨[], 0, 0⟩

def ofCapacity (n : ℕ) : GrowArray α := ⟨[], n, n⟩

/-- Whether a push has to enlarge the buffer first. -/
def isFull (a : GrowArray α) : Bool := decide (a.capacity ≤ a.elems.length)

/-- Doubles the capacity; the buffer follows only if `realloc` succeeds. -/
def grow (a : GrowArray α) (ok : Bool) : GrowArray α :=
  { a with
    capacity := a.capacity * 2
    allocated := if ok then a.capacity * 2 else a.allocated }

/-- A store at index `count`. -/
def push (a : GrowArray α) (x : α) : Option (GrowArray α) :=
  if a.elems.length < a.allocated then some { a with elems := a.elems ++ [x] } else none

end GrowArray

/-- The context, with the callbacks acting on the user data `σ`. `allocs`
counts the array allocations so far. -/
structure ParseContext (σ : Type) where
  mode : ParseMode
  gameInfo : GamePatchInfo
  globalTitleids : List CString
  currentPatchNumber : ℕ
  currentPatch : Patch
  inPatchesSection : Bool
  title : Option CString
  allPatches : GrowArray PatchData
  currentEntries : GrowArray PatchEntry
  metadataArray : GrowArray PatchMetadata
  metaCallback : Option (PatchMetadata → σ → σ)
  entryCallback : Option (PatchMetadata → PatchEntry → σ → σ)
  userData : σ
  currentMeta : PatchMetadata
  processingEnabledPatch : Bool
  allocs : ℕ

variable {σ : Type}

/-- The block after `memset`, its version array just allocated or not. -/
def Patch.blank (allocated : Bool) : Patch where
  title := none
  name := none
  notes := none
  author := none
  version := none
  appBin := none
  appVer := if allocated then some [] else none
  isAppVerList := false

/-- `app_ver[0 .. app_ver_count)` -/
def Patch.appVers (patch : Patch) : List CString := patch.appVer.getD []

/-- The versions that the loops over `app_ver` visit, with their indices: a
single absent one when there are none. -/
def Patch.versions (patch : Patch) : List (Option CString × ℕ) :=
  match patch.appVers with
  | [] => [(none, 0)]
  | vs => (vs.map some).zipIdx

def processPatchMetadataForAppVer (env : Env) (ctx : ParseContext σ)
    (appVer : Option CString) (appVerIndex : ℕ) : Option PatchMetadata :=
  processPatchMetadata env ctx.gameInfo ctx.currentPatchNumber ctx.currentPatch appVer appVerIndex

def resetCurrentPatch (env : Env) (ctx : ParseContext σ) : ParseContext σ :=
  { ctx with
    currentPatch := Patch.blank (env.alloc ctx.allocs)
    allocs := ctx.allocs + 1
    inPatchesSection := false }

/-- How a round of a loop ends: with the next round, or with a return from the
function. -/
inductive Flow (σ : Type) where
  | next (ctx : ParseContext σ)
  | done (ctx : ParseContext σ)

/-- The loop body of `handle_patch_complete` in `PARSE_MODE_ALL`, for a version
that equals the game's. -/
def completeAll (env : Env) (ctx : ParseContext σ) (appVer : CString) (appVerIndex : ℕ) :
    Option (Flow σ) := do
  let metadata ← processPatchMetadataForAppVer env ctx (some appVer) appVerIndex
  if ctx.title = none ∨ ctx.title ≠ metadata.title then
    return .next ctx
  else if ctx.allPatches.isFull ∧ env.alloc ctx.allocs = false then
    return .done { ctx with allPatches := ctx.allPatches.grow false, allocs := ctx.allocs + 1 }
  else
    let ctx :=
      if ctx.allPatches.isFull then
        { ctx with allPatches := ctx.allPatches.grow true, allocs := ctx.allocs + 1 }
      else ctx
    let allPatches ← ctx.allPatches.push ⟨metadata, ctx.currentEntries.elems⟩
    -- The copies of the entries are stored without a look at the result of `malloc`.
    if env.alloc ctx.allocs = false ∧ ctx.currentEntries.elems ≠ [] then
      none
    else
      return .next { ctx with allPatches := allPatches, allocs := ctx.allocs + 1 }

/-- The loop body of `handle_patch_complete` in `PARSE_MODE_METADATA`. -/
def completeMetadata (env : Env) (ctx : ParseContext σ) (appVer : Option CString)
    (appVerIndex : ℕ) : Option (Flow σ) := do
  if ctx.metadataArray.isFull ∧ env.alloc ctx.allocs = false then
    return .done
      { ctx with metadataArray := ctx.metadataArray.grow false, allocs := ctx.allocs + 1 }
  else
    let ctx :=
      if ctx.metadataArray.isFull then
        { ctx with metadataArray := ctx.metadataArray.grow true, allocs := ctx.allocs + 1 }
      else ctx
    let metadata ← processPatchMetadataForAppVer env ctx appVer appVerIndex
    let metadataArray ← ctx.metadataArray.push metadata
    return .next { ctx with metadataArray := metadataArray }

/-- The loop body of `handle_patch_complete`. The console build has only the
empty branch of `PARSE_MODE_LOW_MEM`. -/
def completeVersion (env : Env) (ctx : ParseContext σ) (appVer : Option CString)
    (appVerIndex : ℕ) : Option (Flow σ) :=
  if env.prx then some (.next ctx)
  else
    match ctx.mode with
    | .all =>
        match appVer with
        | none => none
        | some v =>
            if v = ctx.gameInfo.appVer then completeAll env ctx v appVerIndex
            else some (.next ctx)
    | .metadata => completeMetadata env ctx appVer appVerIndex
    | .lowMem => some (.next ctx)

def completeVersions (env : Env) :
    List (Option CString × ℕ) → ParseContext σ → Option (Flow σ)
  | [], ctx => some (.next ctx)
  | (appVer, appVerIndex) :: rest, ctx => do
      match ← completeVersion env ctx appVer appVerIndex with
      | .next ctx => completeVersions env rest ctx
      | .done ctx => return .done ctx

/-- `handle_patch_complete`. -/
def handlePatchComplete (env : Env) (ctx : ParseContext σ) : Option (ParseContext σ) :=
  if ctx.currentPatch.title = none then some ctx
  else do
    match ← completeVersions env ctx.currentPatch.versions ctx with
    | .done ctx => return ctx
    | .next ctx =>
        let ctx := { ctx with currentEntries := { ctx.currentEntries with elems := [] } }
        let ctx := resetCurrentPatch env ctx
        return { ctx with currentPatchNumber := env.sizeT (ctx.currentPatchNumber + 1) }

/-! ## Lines -/

/-- The keys whose value is a quoted string, in the order they are tested. -/
inductive Key where
  | title
  | name
  | notes
  | author
  | version
  | appBin
  deriving DecidableEq, Repr

def Key.text : Key → CString
  | .title => "title:".toList
  | .name => "name:".toList
  | .notes => "notes:".toList
  | .author => "author:".toList
  | .version => "version:".toList
  | .appBin => "app_bin:".toList

def Key.cascade : List Key := [.title, .name, .notes, .author, .version, .appBin]

/-- The branch of `process_line` that a line takes. -/
inductive LineKind where
  | ignored
  | titleid
  | patch
  | key (k : Key)
  | appVer
  | patches
  | entry
  | other
  deriving DecidableEq, Repr

def contains (str needle : CString) : Bool := (strstr needle str).isSome

/-- The tests of `process_line`, in their order. All but the last look for a
text anywhere in the trimmed line. -/
def lineKind (inPatchesSection : Bool) (line : CString) : LineKind :=
  let trimmed := trim line
  if isCommentOrEmpty line then .ignored
  else if getIndentLevel line = 0 ∧ contains trimmed "titleid:".toList then .titleid
  else if getIndentLevel line = 0 ∧ contains trimmed "patch:".toList then .patch
  else
    match Key.cascade.find? fun k => contains trimmed k.text with
    | some k => .key k
    | none =>
        if contains trimmed "app_ver:".toList then .appVer
        else if contains trimmed "patches:".toList then .patches
        else if inPatchesSection ∧ "- [".toList.isPrefixOf trimmed then .entry
        else .other

def Patch.setKey (patch : Patch) (k : Key) (value : Option CString) : Patch :=
  match k with
  | .title => { patch with title := value }
  | .name => { patch with name := value }
  | .notes => { patch with notes := value }
  | .author => { patch with author := value }
  | .version => { patch with version := value }
  | .appBin => { patch with appBin := value }

/-- The `app_ver:` branch. Nothing is stored when the array is not allocated. -/
def Patch.setAppVer (patch : Patch) (trimmed : CString) : Patch :=
  if isListValue trimmed then
    { patch with
      isAppVerList := true
      appVer := patch.appVer.map fun _ => parseStringList trimmed maxArrayLength }
  else
    { patch with
      isAppVerList := false
      appVer := patch.appVer.map fun _ => (parseQuotedString trimmed).toList }

/-- The loop of the `patches:` branch in `PARSE_MODE_LOW_MEM`. -/
def announceVersions (env : Env) :
    List (Option CString × ℕ) → ParseContext σ → Option (ParseContext σ)
  | [], ctx => some ctx
  | (appVer, appVerIndex) :: rest, ctx => do
      let metadata ← processPatchMetadataForAppVer env ctx appVer appVerIndex
      let ctx := match ctx.metaCallback with
        | none => ctx
        | some callback =>
            if metadata.matchesGame then
              { ctx with
                userData := callback metadata ctx.userData
                processingEnabledPatch := metadata.matchesGame && metadata.enabled }
            else ctx
      let ctx := if appVerIndex = 0 then { ctx with currentMeta := metadata } else ctx
      announceVersions env rest ctx

/-- The branch for an entry in the `patches:` section. -/
def processEntry (env : Env) (ctx : ParseContext σ) (entry : PatchEntry) :
    Option (ParseContext σ) :=
  if entry.params.length < minPatchParams then some ctx
  else
    match ctx.mode with
    | .all =>
        if env.prx then some ctx
        else if ctx.currentEntries.isFull ∧ env.alloc ctx.allocs = false then
          some { ctx with
            currentEntries := ctx.currentEntries.grow false
            allocs := ctx.allocs + 1 }
        else do
          let ctx :=
            if ctx.currentEntries.isFull then
              { ctx with
                currentEntries := ctx.currentEntries.grow true
                allocs := ctx.allocs + 1 }
            else ctx
          let currentEntries ← ctx.currentEntries.push entry
          return { ctx with currentEntries := currentEntries }
    | .lowMem =>
        match ctx.entryCallback with
        | none => some ctx
        | some callback =>
            if ctx.processingEnabledPatch then
              some { ctx with userData := callback ctx.currentMeta entry ctx.userData }
            else some ctx
    | .metadata => some ctx

/-- `process_line`. -/
def processLine (env : Env) (ctx : ParseContext σ) (line : CString) : Option (ParseContext σ) :=
  let trimmed := trim line
  match lineKind ctx.inPatchesSection line with
  | .ignored => some ctx
  | .titleid =>
      if isListValue trimmed then
        some { ctx with globalTitleids := parseStringList trimmed maxArrayLength }
      else some ctx
  | .patch => handlePatchComplete env ctx
  | .key k =>
      some { ctx with currentPatch := ctx.currentPatch.setKey k (parseQuotedString trimmed) }
  | .appVer => some { ctx with currentPatch := ctx.currentPatch.setAppVer trimmed }
  | .patches =>
      let ctx := { ctx with inPatchesSection := true }
      if ctx.mode = .lowMem then announceVersions env ctx.currentPatch.versions ctx else some ctx
  | .entry => processEntry env ctx (parsePatchEntry (trimmed.drop 2))
  | .other => some ctx

/-! ## Files -/

/-- `create_parse_context` on a zeroed context whose requested title is `title`,
its allocations succeeding. -/
def createParseContext (game : GamePatchInfo) (mode : ParseMode) (title : Option CString)
    (userData : σ) : ParseContext σ where
  mode := mode
  gameInfo := game
  globalTitleids := []
  currentPatchNumber := 0
  currentPatch := Patch.blank true
  inPatchesSection := false
  title := title
  allPatches := if mode = .all then .ofCapacity 8 else .empty
  currentEntries := if mode = .all then .ofCapacity 16 else .empty
  metadataArray := if mode = .metadata then .ofCapacity 8 else .empty
  metaCallback := none
  entryCallback := none
  userData := userData
  currentMeta := default
  processingEnabledPatch := false
  allocs := 0

def runLines (env : Env) (ctx : ParseContext σ) (lines : List CString) :
    Option (ParseContext σ) :=
  lines.foldlM (processLine env) ctx

/-- What `parse_patch_file` and `parse_patch_file_low_mem` do with the lines that
their reader delivers. -/
def parseLines (env : Env) (ctx : ParseContext σ) (lines : List CString) :
    Option (ParseContext σ) := do
  let ctx ← runLines env ctx lines
  handlePatchComplete env ctx

end GamePatch
