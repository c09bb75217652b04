import GamePatch.Model.Parser
import GamePatch.Shared.Heap

/-! # The patch file parser with its pointers

The functions of the parser once more, on a context that holds addresses. Every string and
every array is a block that is allocated, read and freed where the code does it; the
elements of an array stand beside its address, and a look at them needs the block. The
strings are allocated without fail, the arrays as `Env.alloc` has it. -/

namespace GamePatch.Pointers

open Heap

inductive Block where
  | string (str : CString)
  | array (size : ℕ)
  deriving DecidableEq, Repr

/-! ## Strings -/

def loadString (p : ℕ) : HeapM Block CString := do
  match ← load p with
  | .string str => return str
  | .array _ => failure

def loadArray (p : ℕ) : HeapM Block ℕ := do
  match ← load p with
  | .string _ => failure
  | .array size => return size

/-- A string behind a pointer that may be null. -/
def loadOptional : Option ℕ → HeapM Block (Option CString)
  | none => return none
  | some p => do
      let str ← loadString p
      return some str

/-- A string behind a pointer that the code does not check. -/
def loadUnchecked : Option ℕ → HeapM Block CString
  | none => failure
  | some p => loadString p

/-- `free`, which does nothing for a null pointer. -/
def freeOptional : Option ℕ → HeapM Block Unit
  | none => return ()
  | some p => free p

def copyString (p : ℕ) : HeapM Block ℕ := do
  let str ← loadString p
  malloc (.string str)

/-- `str_dup`. -/
def strDup (env : Env) : Option ℕ → HeapM Block (Option ℕ)
  | none => if env.prx = false ∧ env.strdupNull = false then failure else return none
  | some p => do
      let copy ← copyString p
      return some copy

/-- `parse_quoted_string`; the text between the quotes is copied before it is unescaped. -/
def parseQuotedString (str : CString) : HeapM Block (Option ℕ) :=
  match (strchr '"' str).bind fun start => quotedBody start.tail with
  | none => return none
  | some body => do
      let escaped ← malloc (.string body)
      let str ← loadString escaped
      let result ← malloc (.string (unescapeString str))
      free escaped
      return some result

def readItem : CString → HeapM Block (Option ℕ × CString)
  | '"' :: rest =>
      match scanItem '"' rest with
      | (seen, '"' :: rest') => do
          let item ← parseQuotedString ('"' :: seen ++ ['"'])
          return (item, rest')
      | (_, rest') => return (none, rest')
  | pos => return (none, pos)

/-- The item loop; it stores the strings in the order they are read. -/
def itemLoop : ℕ → ℕ → CString → HeapM Block (List ℕ)
  | 0, _, _ => return []
  | _ + 1, 0, _ => return []
  | fuel + 1, n + 1, pos =>
      match pos.dropWhile isspace with
      | [] => return []
      | c :: rest => do
          let (item, pos') ← readItem (c :: rest)
          let next := (pos'.dropWhile (· ≠ ',')).tail
          match item with
          | none => itemLoop fuel (n + 1) next
          | some p => do
              let ps ← itemLoop fuel n next
              return p :: ps

/-- `parse_string_list` and the loop of `parse_patch_entry`. -/
def parseItems (maxItems : ℕ) (str : CString) : HeapM Block (List ℕ) :=
  match (strchr '[' (str.take maxLineLength)).bind fun start => listBody false start.tail with
  | none => return []
  | some body => itemLoop (body.length + 1) maxItems body

/-! ## Arrays -/

/-- An array and the elements stored in it. -/
structure Table (α : Type) where
  buffer : Option ℕ
  elems : List α
  deriving DecidableEq, Repr

namespace Table

variable {α : Type}

def empty : Table α := ⟨none, []⟩

/-- The elements that the buffer has room for; a null buffer has none. -/
def size (table : Table α) : HeapM Block ℕ :=
  match table.buffer with
  | none => return 0
  | some p => loadArray p

/-- Access to elements of the array. -/
def access (table : Table α) (elems : List α) : HeapM Block (List α) := do
  let size ← table.size
  if elems.length ≤ size then return elems else failure

/-- The loop that frees the elements. -/
def freeElems (table : Table α) (freeElem : α → HeapM Block Unit) : HeapM Block Unit := do
  let elems ← table.access table.elems
  elems.forM freeElem

/-- The elements and the array itself, if there is one. -/
def free (table : Table α) (freeElem : α → HeapM Block Unit) : HeapM Block Unit :=
  match table.buffer with
  | none => return ()
  | some p => do
      table.freeElems freeElem
      Heap.free p

end Table

/-- `malloc` of an array. -/
def mallocArray (ok : Bool) (size : ℕ) : HeapM Block (Option ℕ) :=
  if ok then do
    let p ← malloc (.array size)
    return some p
  else return none

/-- `realloc`: the elements move to a new array and the old one is freed. -/
def realloc (buffer : Option ℕ) (size : ℕ) : HeapM Block ℕ := do
  let p ← malloc (.array size)
  freeOptional buffer
  return p

/-- A growing array with the capacity the context remembers. -/
structure GrowArray (α : Type) extends Table α where
  capacity : ℕ
  deriving DecidableEq, Repr

namespace GrowArray

variable {α : Type}

def isFull (a : GrowArray α) : Bool := decide (a.capacity ≤ a.elems.length)

/-- Doubles the capacity; the buffer follows only if `realloc` succeeds. -/
def grow (a : GrowArray α) (ok : Bool) : HeapM Block (GrowArray α) :=
  if ok then do
    let p ← realloc a.buffer (a.capacity * 2)
    return { a with buffer := some p, capacity := a.capacity * 2 }
  else return { a with capacity := a.capacity * 2 }

/-- Doubles the capacity of a full array. -/
def makeRoom (a : GrowArray α) : HeapM Block (GrowArray α) :=
  if a.isFull then a.grow true else return a

/-- Access to the place at index `count`. -/
def place (a : GrowArray α) : HeapM Block Unit := do
  let size ← a.size
  if a.elems.length < size then return () else failure

def append (a : GrowArray α) (x : α) : GrowArray α := { a with elems := a.elems ++ [x] }

/-- A store at index `count`. -/
def push (a : GrowArray α) (x : α) : HeapM Block (GrowArray α) := do
  a.place
  return a.append x

end GrowArray

/-! ## Patches and their metadata -/

structure Patch where
  title : Option ℕ
  name : Option ℕ
  notes : Option ℕ
  author : Option ℕ
  version : Option ℕ
  appBin : Option ℕ
  appVer : Table ℕ
  isAppVerList : Bool
  deriving DecidableEq, Repr

structure PatchMetadata where
  hash : UInt32
  patchNumber : ℕ
  title : Option ℕ
  name : Option ℕ
  author : Option ℕ
  version : Option ℕ
  appBin : Option ℕ
  appVer : Option ℕ
  matchesGame : Bool
  enabled : Bool
  isPrx : Bool
  deriving DecidableEq, Repr

structure PatchEntry where
  params : List ℕ
  deriving DecidableEq, Repr

structure PatchData where
  metadata : PatchMetadata
  entries : Table PatchEntry
  deriving DecidableEq, Repr

/-- `parse_patch_entry`. -/
def parsePatchEntry (str : CString) : HeapM Block PatchEntry := do
  let params ← parseItems maxPatchParams str
  return ⟨params⟩

/-- `free_patch_metadata`. -/
def freePatchMetadata (metadata : PatchMetadata) : HeapM Block Unit := do
  freeOptional metadata.title
  freeOptional metadata.name
  freeOptional metadata.author
  freeOptional metadata.version
  freeOptional metadata.appBin
  freeOptional metadata.appVer

/-- `free_patch_entry`. -/
def freePatchEntry (entry : PatchEntry) : HeapM Block Unit := entry.params.forM Heap.free

/-- What is read of a patch and one of its versions for the hash. -/
def hashTexts (patch : Patch) (appVer : Option ℕ) : HeapM Block (List (Option CString)) :=
  [patch.title, patch.name, patch.author, patch.version, patch.appBin, appVer].mapM loadOptional

/-- `calculate_patch_hash`; absent strings count as empty ones. -/
def calculatePatchHash (env : Env) (patchNumber : ℕ) (titleid : CString) (patch : Patch)
    (appVer : Option ℕ) : HeapM Block UInt32 := do
  let texts ← hashTexts patch appVer
  return (titleid :: texts.map fun text => text.getD []).foldl
    (fun hash str => env.stringid str hash) (env.stringid (formatSize patchNumber) 0x811c9dc5)

/-- `process_patch_metadata_for_app_ver`. -/
def processPatchMetadata (env : Env) (game : GamePatchInfo) (number : ℕ) (patch : Patch)
    (appVer : Option ℕ) (appVerIndex : ℕ) : HeapM Block PatchMetadata := do
  let patchNumber := env.sizeT (number * 100 + appVerIndex)
  let hash ← calculatePatchHash env patchNumber game.titleid patch appVer
  let title ← strDup env patch.title
  let name ← strDup env patch.name
  let author ← strDup env patch.author
  let version ← strDup env patch.version
  let appBin ← strDup env patch.appBin
  let appVer' ← strDup env appVer
  let ver ← loadOptional appVer
  let bin ← loadUnchecked appBin
  let isExeMatched := match env.argv0 with
    | none => false
    | some exe => env.strstr exe bin
  let state ← liftM (env.readPatchState (settingsPath game.titleid) hash)
  return {
    hash, patchNumber, title, name, author, version, appBin,
    appVer := appVer'
    matchesGame := patchMatchesGame game ver
    enabled := decide (state = 1) && isExeMatched
    isPrx := prxList.any (env.strstr bin) }

/-- What a callback sees of the metadata. -/
def loadMetadata (metadata : PatchMetadata) : HeapM Block GamePatch.PatchMetadata := do
  let title ← loadOptional metadata.title
  let name ← loadOptional metadata.name
  let author ← loadOptional metadata.author
  let version ← loadOptional metadata.version
  let appBin ← loadOptional metadata.appBin
  let appVer ← loadOptional metadata.appVer
  return {
    hash := metadata.hash
    patchNumber := metadata.patchNumber
    title, name, author, version, appBin, appVer
    matchesGame := metadata.matchesGame
    enabled := metadata.enabled
    isPrx := metadata.isPrx }

/-- What a callback sees of an entry. -/
def loadEntry (entry : PatchEntry) : HeapM Block GamePatch.PatchEntry := do
  let params ← entry.params.mapM loadString
  return ⟨params⟩

/-! ## The context -/

structure ParseContext (σ : Type) where
  mode : ParseMode
  gameInfo : GamePatchInfo
  globalTitleids : Table ℕ
  currentPatchNumber : ℕ
  currentPatch : Patch
  inPatchesSection : Bool
  title : Option CString
  allPatches : GrowArray PatchData
  currentEntries : GrowArray PatchEntry
  metadataArray : GrowArray PatchMetadata
  metaCallback : Option (GamePatch.PatchMetadata → σ → σ)
  entryCallback : Option (GamePatch.PatchMetadata → GamePatch.PatchEntry → σ → σ)
  userData : σ
  currentMeta : PatchMetadata
  processingEnabledPatch : Bool
  allocs : ℕ

variable {σ : Type}

/-- The block after `memset`, with its version array. -/
def Patch.blank (buffer : Option ℕ) : Patch where
  title := none
  name := none
  notes := none
  author := none
  version := none
  appBin := none
  appVer := ⟨buffer, []⟩
  isAppVerList := false

/-- The strings of a patch outside of its version array. -/
def freePatchStrings (patch : Patch) : HeapM Block Unit := do
  freeOptional patch.title
  freeOptional patch.name
  freeOptional patch.notes
  freeOptional patch.author
  freeOptional patch.version
  freeOptional patch.appBin

/-- The versions that the loops over `app_ver` visit, with their indices: a single null one
when there are none. -/
def Patch.versions (patch : Patch) : HeapM Block (List (Option ℕ × ℕ)) := do
  match ← patch.appVer.access patch.appVer.elems with
  | [] => return [(none, 0)]
  | ps => return (ps.map some).zipIdx

def processPatchMetadataForAppVer (env : Env) (ctx : ParseContext σ) (appVer : Option ℕ)
    (appVerIndex : ℕ) : HeapM Block PatchMetadata :=
  processPatchMetadata env ctx.gameInfo ctx.currentPatchNumber ctx.currentPatch appVer appVerIndex

/-- `reset_current_patch`. The version array is not freed before the new one is stored. -/
def resetCurrentPatch (env : Env) (ctx : ParseContext σ) : HeapM Block (ParseContext σ) := do
  freePatchStrings ctx.currentPatch
  ctx.currentPatch.appVer.freeElems Heap.free
  let buffer ← mallocArray (env.alloc ctx.allocs) maxArrayLength
  return { ctx with
    currentPatch := Patch.blank buffer
    allocs := ctx.allocs + 1
    inPatchesSection := false }

/-- How a round of a loop ends: with the next round, or with a return from the function. -/
inductive Flow (σ : Type) where
  | next (ctx : ParseContext σ)
  | done (ctx : ParseContext σ)

def copyEntry (entry : PatchEntry) : HeapM Block PatchEntry := do
  let params ← entry.params.mapM copyString
  return ⟨params⟩

/-- A copy of the entries in an array of its own. -/
def copyEntries (ok : Bool) (entries : GrowArray PatchEntry) : HeapM Block (Table PatchEntry) := do
  let elems ← entries.access entries.elems
  let buffer ← mallocArray ok elems.length
  let copies ← elems.mapM copyEntry
  let copies ← Table.access ⟨buffer, []⟩ copies
  return ⟨buffer, copies⟩

/-- The loop body of `handle_patch_complete` in `PARSE_MODE_ALL`, for a version that equals
the game's. The metadata of a patch with another title is not freed. -/
def completeAll (env : Env) (ctx : ParseContext σ) (appVer : ℕ) (appVerIndex : ℕ) :
    HeapM Block (Flow σ) := do
  let metadata ← processPatchMetadataForAppVer env ctx (some appVer) appVerIndex
  let title ← loadOptional metadata.title
  if ctx.title = none ∨ ctx.title ≠ title then
    return .next ctx
  else if ctx.allPatches.isFull ∧ env.alloc ctx.allocs = false then do
    let allPatches ← ctx.allPatches.grow false
    freePatchMetadata metadata
    return .done { ctx with allPatches := allPatches, allocs := ctx.allocs + 1 }
  else do
    let allPatches ← ctx.allPatches.makeRoom
    let allocs := if ctx.allPatches.isFull then ctx.allocs + 1 else ctx.allocs
    -- The place is written to before the entries are copied.
    allPatches.place
    let entries ← copyEntries (env.alloc allocs) ctx.currentEntries
    return .next { ctx with
      allPatches := allPatches.append ⟨metadata, entries⟩
      allocs := allocs + 1 }

/-- The loop body of `handle_patch_complete` in `PARSE_MODE_METADATA`. -/
def completeMetadata (env : Env) (ctx : ParseContext σ) (appVer : Option ℕ)
    (appVerIndex : ℕ) : HeapM Block (Flow σ) := do
  if ctx.metadataArray.isFull ∧ env.alloc ctx.allocs = false then do
    let metadataArray ← ctx.metadataArray.grow false
    return .done { ctx with metadataArray := metadataArray, allocs := ctx.allocs + 1 }
  else do
    let metadataArray ← ctx.metadataArray.makeRoom
    let metadata ← processPatchMetadataForAppVer env ctx appVer appVerIndex
    let metadataArray' ← metadataArray.push metadata
    return .next { ctx with
      metadataArray := metadataArray'
      allocs := if ctx.metadataArray.isFull then ctx.allocs + 1 else ctx.allocs }

/-- The loop body of `handle_patch_complete`. -/
def completeVersion (env : Env) (ctx : ParseContext σ) (appVer : Option ℕ)
    (appVerIndex : ℕ) : HeapM Block (Flow σ) :=
  if env.prx then return .next ctx
  else
    match ctx.mode with
    | .all =>
        match appVer with
        | none => failure
        | some p => do
            let v ← loadString p
            if v = ctx.gameInfo.appVer then completeAll env ctx p appVerIndex
            else return .next ctx
    | .metadata => completeMetadata env ctx appVer appVerIndex
    | .lowMem => return .next ctx

def completeVersions (env : Env) :
    List (Option ℕ × ℕ) → ParseContext σ → HeapM Block (Flow σ)
  | [], ctx => return .next ctx
  | (appVer, appVerIndex) :: rest, ctx => do
      match ← completeVersion env ctx appVer appVerIndex with
      | .next ctx => completeVersions env rest ctx
      | .done ctx => return .done ctx

/-- `handle_patch_complete`. -/
def handlePatchComplete (env : Env) (ctx : ParseContext σ) : HeapM Block (ParseContext σ) :=
  if ctx.currentPatch.title = none then return ctx
  else do
    let versions ← ctx.currentPatch.versions
    match ← completeVersions env versions ctx with
    | .done ctx => return ctx
    | .next ctx => do
        ctx.currentEntries.freeElems freePatchEntry
        let ctx := { ctx with currentEntries := { ctx.currentEntries with elems := [] } }
        let ctx ← resetCurrentPatch env ctx
        return { ctx with currentPatchNumber := env.sizeT (ctx.currentPatchNumber + 1) }

/-! ## Lines -/

def Patch.setKey (patch : Patch) (k : Key) (p : Option ℕ) : Patch :=
  match k with
  | .title => { patch with title := p }
  | .name => { patch with name := p }
  | .notes => { patch with notes := p }
  | .author => { patch with author := p }
  | .version => { patch with version := p }
  | .appBin => { patch with appBin := p }

/-- The strings of an `app_ver:` line. -/
def parseVersions (trimmed : CString) : HeapM Block (List ℕ) :=
  if isListValue trimmed then parseItems maxArrayLength trimmed
  else do
    let p ← parseQuotedString trimmed
    return p.toList

/-- The `app_ver:` branch. The strings that were stored before are not freed. -/
def Patch.setAppVer (patch : Patch) (trimmed : CString) : HeapM Block Patch :=
  match patch.appVer.buffer with
  | none => return { patch with isAppVerList := isListValue trimmed }
  | some _ => do
      let ps ← parseVersions trimmed
      let elems ← patch.appVer.access ps
      return { patch with
        appVer := { patch.appVer with elems := elems }
        isAppVerList := isListValue trimmed }

/-- The call of `meta_callback`, for metadata that matches the game. -/
def callMeta (ctx : ParseContext σ) (metadata : PatchMetadata) :
    HeapM Block (ParseContext σ) :=
  match ctx.metaCallback with
  | none => return ctx
  | some callback =>
      if metadata.matchesGame then do
        let seen ← loadMetadata metadata
        return { ctx with
          userData := callback seen ctx.userData
          processingEnabledPatch := metadata.matchesGame && metadata.enabled }
      else return ctx

/-- The first version's metadata is kept in the context, any other freed. -/
def keepFirst (ctx : ParseContext σ) (metadata : PatchMetadata) (appVerIndex : ℕ) :
    HeapM Block (ParseContext σ) :=
  if appVerIndex = 0 then do
    freePatchMetadata ctx.currentMeta
    return { ctx with currentMeta := metadata }
  else do
    freePatchMetadata metadata
    return ctx

/-- The loop of the `patches:` branch in `PARSE_MODE_LOW_MEM`. -/
def announceVersions (env : Env) :
    List (Option ℕ × ℕ) → ParseContext σ → HeapM Block (ParseContext σ)
  | [], ctx => return ctx
  | (appVer, appVerIndex) :: rest, ctx => do
      let metadata ← processPatchMetadataForAppVer env ctx appVer appVerIndex
      let ctx ← callMeta ctx metadata
      let ctx ← keepFirst ctx metadata appVerIndex
      announceVersions env rest ctx

/-- The call of `entry_callback`, in an enabled block. -/
def callEntry (ctx : ParseContext σ) (entry : PatchEntry) : HeapM Block (ParseContext σ) :=
  match ctx.entryCallback with
  | none => return ctx
  | some callback =>
      if ctx.processingEnabledPatch then do
        let metadata ← loadMetadata ctx.currentMeta
        let seen ← loadEntry entry
        return { ctx with userData := callback metadata seen ctx.userData }
      else return ctx

/-- An entry of `PARSE_MODE_ALL`. -/
def storeEntry (env : Env) (ctx : ParseContext σ) (entry : PatchEntry) :
    HeapM Block (ParseContext σ) :=
  if ctx.currentEntries.isFull ∧ env.alloc ctx.allocs = false then do
    let currentEntries ← ctx.currentEntries.grow false
    freePatchEntry entry
    return { ctx with currentEntries := currentEntries, allocs := ctx.allocs + 1 }
  else do
    let currentEntries ← ctx.currentEntries.makeRoom
    let currentEntries' ← currentEntries.push entry
    return { ctx with
      currentEntries := currentEntries'
      allocs := if ctx.currentEntries.isFull then ctx.allocs + 1 else ctx.allocs }

/-- The branch for an entry in the `patches:` section. An entry of too few parameters is not
freed, nor is any entry of `PARSE_MODE_ALL` on the console. -/
def processEntry (env : Env) (ctx : ParseContext σ) (entry : PatchEntry) :
    HeapM Block (ParseContext σ) :=
  if entry.params.length < minPatchParams then return ctx
  else
    match ctx.mode with
    | .all => if env.prx then return ctx else storeEntry env ctx entry
    | .lowMem => do
        let ctx ← callEntry ctx entry
        freePatchEntry entry
        return ctx
    | .metadata => do
        freePatchEntry entry
        return ctx

/-- `process_line`. The strings that were stored before are not freed. -/
def processLine (env : Env) (ctx : ParseContext σ) (line : CString) :
    HeapM Block (ParseContext σ) :=
  let trimmed := trim line
  match lineKind ctx.inPatchesSection line with
  | .ignored => return ctx
  | .titleid =>
      if isListValue trimmed then do
        let ps ← parseItems maxArrayLength trimmed
        let elems ← ctx.globalTitleids.access ps
        return { ctx with globalTitleids := { ctx.globalTitleids with elems := elems } }
      else return ctx
  | .patch => handlePatchComplete env ctx
  | .key k => do
      let p ← parseQuotedString trimmed
      return { ctx with currentPatch := ctx.currentPatch.setKey k p }
  | .appVer => do
      let currentPatch ← ctx.currentPatch.setAppVer trimmed
      return { ctx with currentPatch := currentPatch }
  | .patches => do
      let ctx := { ctx with inPatchesSection := true }
      if ctx.mode = .lowMem then do
        let versions ← ctx.currentPatch.versions
        announceVersions env versions ctx
      else return ctx
  | .entry => do
      let entry ← parsePatchEntry (trimmed.drop 2)
      processEntry env ctx entry
  | .other => return ctx

/-! ## Creating and freeing a context -/

def PatchMetadata.blank : PatchMetadata :=
  ⟨0, 0, none, none, none, none, none, none, false, false, false⟩

/-- An array of the context, if it has one. -/
def createArray (α : Type) (wanted : Bool) (capacity : ℕ) : HeapM Block (GrowArray α) :=
  if wanted then do
    let p ← malloc (.array capacity)
    return { buffer := some p, elems := [], capacity := capacity }
  else return { Table.empty with capacity := 0 }

/-- `create_parse_context` on a zeroed context, its allocations succeeding. -/
def createParseContext (game : GamePatchInfo) (mode : ParseMode) (title : Option CString)
    (userData : σ) : HeapM Block (ParseContext σ) := do
  let globalTitleids ← malloc (.array maxArrayLength)
  let appVer ← malloc (.array maxArrayLength)
  let allPatches ← createArray PatchData (mode = .all) 8
  let currentEntries ← createArray PatchEntry (mode = .all) 16
  let metadataArray ← createArray PatchMetadata (mode = .metadata) 8
  return {
    mode := mode
    gameInfo := game
    globalTitleids := ⟨some globalTitleids, []⟩
    currentPatchNumber := 0
    currentPatch := Patch.blank (some appVer)
    inPatchesSection := false
    title := title
    allPatches, currentEntries, metadataArray
    metaCallback := none
    entryCallback := none
    userData := userData
    currentMeta := PatchMetadata.blank
    processingEnabledPatch := false
    allocs := 0 }

/-- An element of `all_patches`. -/
def freeStored (data : PatchData) : HeapM Block Unit := do
  freePatchMetadata data.metadata
  data.entries.free freePatchEntry

/-- `free_parse_context_data`. -/
def freeParseContextData (ctx : ParseContext σ) : HeapM Block Unit := do
  ctx.globalTitleids.free Heap.free
  freePatchStrings ctx.currentPatch
  ctx.currentPatch.appVer.free Heap.free
  ctx.allPatches.free freeStored
  ctx.currentEntries.free freePatchEntry
  ctx.metadataArray.free freePatchMetadata
  freePatchMetadata ctx.currentMeta

/-! ## A whole run -/

/-- What `parse_patch_file` and `parse_patch_file_low_mem` do with the lines that their reader
delivers. -/
def parseLines (env : Env) (ctx : ParseContext σ) (lines : List CString) :
    HeapM Block (ParseContext σ) := do
  let ctx ← lines.foldlM (processLine env) ctx
  handlePatchComplete env ctx

def loadVersions (table : Table ℕ) : HeapM Block (Option (List CString)) := do
  let strs ← table.elems.mapM loadString
  return table.buffer.map fun _ => strs

def loadPatch (patch : Patch) : HeapM Block GamePatch.Patch := do
  let title ← loadOptional patch.title
  let name ← loadOptional patch.name
  let notes ← loadOptional patch.notes
  let author ← loadOptional patch.author
  let version ← loadOptional patch.version
  let appBin ← loadOptional patch.appBin
  let appVer ← loadVersions patch.appVer
  return {
    title, name, notes, author, version, appBin, appVer
    isAppVerList := patch.isAppVerList }

def loadPatchData (data : PatchData) : HeapM Block GamePatch.PatchData := do
  let metadata ← loadMetadata data.metadata
  let entries ← data.entries.elems.mapM loadEntry
  return ⟨metadata, entries⟩

def GrowArray.load {α γ : Type} (a : GrowArray α) (loadElem : α → HeapM Block γ) :
    HeapM Block (GamePatch.GrowArray γ) := do
  let allocated ← a.size
  let elems ← a.elems.mapM loadElem
  return { elems, capacity := a.capacity, allocated }

/-- What a caller sees of the context. -/
def loadContext (ctx : ParseContext σ) : HeapM Block (GamePatch.ParseContext σ) := do
  let globalTitleids ← ctx.globalTitleids.elems.mapM loadString
  let currentPatch ← loadPatch ctx.currentPatch
  let allPatches ← ctx.allPatches.load loadPatchData
  let currentEntries ← ctx.currentEntries.load loadEntry
  let metadataArray ← ctx.metadataArray.load loadMetadata
  let currentMeta ← loadMetadata ctx.currentMeta
  return {
    mode := ctx.mode
    gameInfo := ctx.gameInfo
    globalTitleids
    currentPatchNumber := ctx.currentPatchNumber
    currentPatch
    inPatchesSection := ctx.inPatchesSection
    title := ctx.title
    allPatches, currentEntries, metadataArray
    metaCallback := ctx.metaCallback
    entryCallback := ctx.entryCallback
    userData := ctx.userData
    currentMeta
    processingEnabledPatch := ctx.processingEnabledPatch
    allocs := ctx.allocs }

/-- A context is created and given its callbacks, the lines are parsed, the result is read and
the context freed. -/
def parseAndFree (env : Env) (game : GamePatchInfo) (mode : ParseMode) (title : Option CString)
    (userData : σ) (metaCallback : Option (GamePatch.PatchMetadata → σ → σ))
    (entryCallback : Option (GamePatch.PatchMetadata → GamePatch.PatchEntry → σ → σ))
    (lines : List CString) : HeapM Block (GamePatch.ParseContext σ) := do
  let created ← createParseContext game mode title userData
  let ctx ← parseLines env { created with metaCallback, entryCallback } lines
  let seen ← loadContext ctx
  freeParseContextData ctx
  return seen

end GamePatch.Pointers
