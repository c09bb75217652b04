import GamePatch.Verification.GameInfo
import GamePatch.Verification.LineReader.Correctness
import GamePatch.Verification.RunPatch.Gate
import GamePatch.Verification.Settings.Console
import GamePatch.Verification.Settings.Store

/-! # From the disk to the game

The host writes the settings file, switch by switch. The console reads it again, and
the patch file byte by byte, and applies what the user has left switched on. -/

namespace GamePatch

open LineReader Lines Settings

/-! ## The patch file -/

/-- The strings that the console makes of the lines of a file. -/
def consoleLines (content : List Char) : List CString :=
  (lines '\n' content).map fun line => cstring (withoutReturns line)

/-- The line loop gets to the end of the file. -/
structure Readable (content : List Char) : Prop where
  short : ∀ line ∈ lines '\n' content, line.length < maxLineLength
  last : content.getLast? ≠ some '\r'

instance (content : List Char) : Decidable (Readable content) :=
  decidable_of_iff
    ((∀ line ∈ lines '\n' content, line.length < maxLineLength) ∧ content.getLast? ≠ some '\r')
    ⟨fun h => ⟨h.1, h.2⟩, fun h => ⟨h.short, h.last⟩⟩

theorem cstring_lineBuffer {line : List Char} (h : line.length ≤ maxLineLength) :
    cstring (lineBuffer line) = cstring line := by
  have hzeros : maxLineLength + 1 - line.length = maxLineLength - line.length + 1 := by omega
  rw [lineBuffer, hzeros, List.replicate_succ, cstring_append_zero]

section

variable {σ : Type} (env : Env)

theorem foldl_readBuffer (buffers : List (List Char)) (ctx : Option (ParseContext σ)) :
    buffers.foldl (readBuffer env) ctx =
      ctx.bind fun ctx => runLines env ctx (buffers.map cstring) := by
  induction buffers generalizing ctx with
  | nil => cases ctx <;> rfl
  | cons buffer buffers ih =>
      rw [List.foldl_cons, ih, readBuffer, Option.bind_assoc]
      rfl

variable {env}

/-- The console parses the lines of a readable file. -/
theorem parsePatchFileLowMem_of_readable {content : List Char} (h : Readable content)
    {ctx : ParseContext σ} (hmode : ctx.mode = .lowMem) :
    parsePatchFileLowMem env (content.length + 1) ctx (some content) =
      .finished ((parseLines env ctx (consoleLines content)).map fun ctx => (ctx, 0)) := by
  have hkept : ∀ line ∈ lines '\n' content, (withoutReturns line).length < maxLineLength :=
    fun line hline => (length_withoutReturns_le line).trans_lt (h.short line hline)
  have hlines : (expectedBuffers content).map cstring = consoleLines content := by
    rw [expectedBuffers, consoleLines, List.map_map]
    apply List.map_congr_left
    intro line hline
    exact cstring_lineBuffer (Nat.le_of_lt (hkept line hline))
  have hloop : readLines (readBuffer env) (content.length + 1) content (some ctx) =
      .finished (runLines env ctx (consoleLines content)) := by
    rw [readLines, lineLoop_finished _ content.length content h.last hkept _ 0 0 _ (by omega)
      (by simp), foldl_readBuffer, hlines, Option.bind_some]
  rw [parsePatchFileLowMem, if_neg (by simp [hmode])]
  simp only [hloop]
  rfl

end

variable {ω : Type} {env : Env}

theorem runPatchOn_of_readable {content : List Char} (h : Readable content)
    (applyPatch : PatchEntry → ω → ω) (info : GamePatchInfo) {disk : CString → Option (List Char)}
    (hdisk : disk (patchPath info.titleid) = some content) (game : ω) :
    runPatchOn env (content.length + 1) applyPatch info disk game =
      .finished (runPatch env applyPatch info (some (consoleLines content)) game) := by
  rw [runPatchOn, hdisk, parsePatchFileLowMem_of_readable h rfl]
  simp only [runPatch, Option.map_map]
  rfl

/-! ## The settings file -/

/-- The number of records that a settings file announces. -/
def headerCount (order : Words.ByteOrder) (file : Option Bytes) : ℕ :=
  match file with
  | none => 0
  | some f =>
      if f.length < sizeofHeader then 0
      else (decodeHeader order (f.take sizeofHeader)).count.toNat

theorem length_records_le (order : Words.ByteOrder) (file : Option Bytes) :
    (records order file).length ≤ headerCount order file := by
  cases file with
  | none => rfl
  | some f =>
      simp only [records, headerCount, readPatchStatesInternal]
      split_ifs <;> simp

theorem headerCount_contents_le (order : Words.ByteOrder) (states : List PatchState) :
    headerCount order (some (contents order states)) ≤ states.length := by
  have htake : (contents order states).take sizeofHeader =
      encodeHeader order ⟨patchStateMagic, patchStateVersion, UInt32.ofNat states.length⟩ :=
    List.take_left' (length_encodeHeader ..)
  rw [headerCount, length_contents, if_neg (by omega), htake, decodeHeader_encodeHeader,
    UInt32.toNat_ofNat']
  exact Nat.mod_le _ _

/-- An operation adds one record at most to those announced. -/
theorem headerCount_performAll_le {order : Words.ByteOrder} {ops : List Operation}
    {file file' : Option Bytes} {results : List ℤ}
    (h : performAll order file ops = some (file', results)) :
    headerCount order file' ≤ headerCount order file + ops.length := by
  induction ops generalizing file results with
  | nil =>
      rcases Prod.mk.inj (Option.some.inj h) with ⟨rfl, -⟩
      exact Nat.le_add_right _ _
  | cons op ops ih =>
      simp only [performAll, perform_eq, Option.bind_eq_bind, Option.bind_some] at h
      rcases Option.bind_eq_some_iff.mp h with ⟨⟨last, rest⟩, hrest, heq⟩
      rcases Prod.mk.inj (Option.some.inj heq) with ⟨rfl, -⟩
      have hnext := headerCount_contents_le order (performRecords (records order file) op)
      have hrecord := length_performRecords_le (records order file) op
      have hannounced := length_records_le order file
      have htail := ih hrest
      rw [List.length_cons]
      omega

/-- The console reads what the host does, as long as the byte count of the records
fits its `size_t`. -/
theorem readPatchStatePrx_of_small {order : Words.ByteOrder} {file : Option Bytes}
    (hsmall : sizeofPatchState * headerCount order file < 2 ^ 32) (stale : Bytes)
    (hash : UInt32) :
    readPatchStatePrx order allocates stale file hash =
      some (answer (switches (records order file) hash)) := by
  have hread : readPatchStatesInternalPrx order allocates stale file =
      readPatchStatesInternal order allocates file := by
    cases file with
    | none => rfl
    | some f =>
        by_cases hshort : f.length < sizeofHeader
        · rw [readPatchStatesInternalPrx_short order stale f hshort]
          simp [readPatchStatesInternal, hshort]
        · rw [headerCount, if_neg hshort] at hsmall
          exact readPatchStatesInternalPrx_long order stale f (Nat.le_of_not_lt hshort) hsmall
  rw [← readPatchState_eq, readPatchStatePrx, readPatchState, hread]

/-- The console finds every switch as the operations of the host have left it. -/
theorem console_reads_operations {order : Words.ByteOrder} {initial settings : Option Bytes}
    {ops : List Operation} {results : List ℤ}
    (hsmall : sizeofPatchState * (headerCount order initial + ops.length) < 2 ^ 32)
    (hops : performAll order initial ops = some (settings, results)) (stale : Bytes)
    (hash : UInt32) :
    readPatchStatePrx order allocates stale settings hash =
      some (answer (((switches (records order initial)).performAll ops).1 hash)) := by
  have hfits : headerCount order initial + ops.length < 2 ^ 32 := by
    simp only [sizeofPatchState] at hsmall
    omega
  obtain ⟨file', hrun, hrecords⟩ := performAll_eq order ops initial (by
    intro pre hpre
    have hlength := length_foldl_performRecords_le pre (records order initial)
    have hannounced := length_records_le order initial
    have hprefix := hpre.length_le
    omega)
  rcases Prod.mk.inj (Option.some.inj (hops.symm.trans hrun)) with ⟨rfl, -⟩
  have hcount := headerCount_performAll_le hops
  rw [readPatchStatePrx_of_small (by simp only [sizeofPatchState] at hsmall ⊢; omega), hrecords,
    switches_foldl_performRecords]

/-! ## The run -/

/-- What the user wants of a hash. -/
def Settings.Switches.wanted (m : Switches) (hash : UInt32) : Bool := decide (m hash = some true)

theorem answer_eq_one {position : Option Bool} : answer position = 1 ↔ position = some true := by
  cases position with
  | none => decide
  | some e => cases e <;> decide

/-- The disk of a console on which the host has been at work: the patch file of the game,
and its settings file after operations on whatever was there before. -/
structure Prepared (env : Env) (info : GamePatchInfo) (disk : CString → Option (List Char))
    (content : List Char) (file : PatchFile) (initial : Option Bytes) (ops : List Operation) :
    Prop where
  console : env.prx = true
  malloc : env.malloc = allocates
  patches : disk (patchPath info.titleid) = some content
  readable : Readable content
  lines : consoleLines content = file.lines
  small : sizeofPatchState * (headerCount env.order initial + ops.length) < 2 ^ 32
  settings : ∃ results,
    performAll env.order initial ops = some (env.files (settingsPath info.titleid), results)

/-- The switches after the operations. -/
def switchesAfter (order : Words.ByteOrder) (initial : Option Bytes) (ops : List Operation) :
    Switches :=
  ((switches (records order initial)).performAll ops).1

section

variable {info : GamePatchInfo} {disk : CString → Option (List Char)} {content : List Char}
  {file : PatchFile} {initial : Option Bytes} {ops : List Operation}

theorem Prepared.readPatchState (h : Prepared env info disk content file initial ops)
    (hash : UInt32) : env.readPatchState (settingsPath info.titleid) hash =
      some (answer (switchesAfter env.order initial ops hash)) := by
  rcases h.settings with ⟨results, hops⟩
  rw [Env.readPatchState, if_pos h.console, h.malloc]
  exact console_reads_operations h.small hops env.staleHeader hash

/-- Whatever settings file there was and whatever the user has switched since, a run on
the console applies the entries that pass under the switches as they are now. -/
theorem Prepared.run_eq (h : Prepared env info disk content file initial ops)
    (applyPatch : PatchEntry → ω → ω) (game : ω) :
    runPatchOn env (content.length + 1) applyPatch info disk game =
      .finished (some (reportOf 0 ⟨file.named env info file.blocks.length,
        (file.passed (switchesAfter env.order initial ops).wanted env info
          file.blocks.length).foldl (fun game entry => applyPatch entry game) game⟩)) := by
  have hon : env.settingsOn info = (switchesAfter env.order initial ops).wanted := by
    funext hash
    rw [Env.settingsOn, Switches.wanted, decide_eq_decide, h.readPatchState, Option.some_inj]
    exact answer_eq_one
  have hlookups : ∀ p ∈ file.blocks.zipIdx, p.1.LookupsDefined env info p.2 := by
    intro p _ v _
    rw [h.readPatchState]
    exact Option.some_ne_none _
  rw [runPatchOn_of_readable h.readable applyPatch info h.patches, h.lines,
    file.runPatch_gate env applyPatch info game h.console, if_pos hlookups, hon]

end

/-! ## From the game start -/

open GameInfo in
/-- The shell starts a game, its module learns the title and the version from the shell,
and the entries applied are those that the user has left switched on for that game. -/
theorem initList_after_gameStart (env : Env) (applyPatch : PatchEntry → ω → ω)
    (info : GamePatchInfo) (game : ω) (disk : CString → Option (List Char)) (content : List Char)
    (file : PatchFile) (initial : Option Bytes) (ops : List Operation) (s : State) (fd : ℕ)
    (chunks : List ℕ) (hprepared : Prepared env info disk content file initial ops)
    (htitleid : info.titleid.length < 16) (hversion : info.appVer.length < 8)
    (hzero : '\x00' ∉ info.titleid) (hzero' : '\x00' ∉ info.appVer)
    (hchunks : sizeofInfo ≤ chunks.sum) (hwriting : s.writing = none) (hload : s.load = none)
    (hfd : s.descriptors fd = none) :
    ∃ n s' loaded,
      (gameStart (.ofStrings info htitleid hversion) chunks ++ undisturbedLoad fd n).foldlM step
          s = some s' ∧
        s'.loads = s.loads ++ [loaded] ∧
        initList env (content.length + 1) applyPatch disk loaded game =
          .finished (some ((file.passed (switchesAfter env.order initial ops).wanted env info
            file.blocks.length).foldl (fun game entry => applyPatch entry game) game)) := by
  obtain ⟨n, s', bytes, hrun, hloads, hinfo, -, -⟩ := handed_over s fd info chunks htitleid
    hversion hzero hzero' hchunks hwriting hload hfd
  refine ⟨n, s', (1, bytes), hrun, hloads, ?_⟩
  rw [initList, if_neg one_ne_zero, hinfo, hprepared.run_eq applyPatch game]
  rfl

/-! ## One switch -/

/-- The file `oneVersionFile` as it stands on a disk. -/
def oneVersionText : List Char :=
  ("patch:\n  title: \"A\"\n  app_bin: \"EBOOT\"\n  app_ver: \"1\"\n" ++
    "  patches:\n    - [ \"be32\", \"0x10\", \"0x20\" ]\n").toList

/-- The host has switched the patch of the file on. -/
theorem prepared_oneVersion :
    Prepared (consoleWith [647257894] "/game/EBOOT.BIN".toList) runningGame
      (fun _ => some oneVersionText) oneVersionText oneVersionFile none [.toggle 647257894] where
  console := rfl
  malloc := rfl
  patches := rfl
  readable := by decide +kernel
  lines := by decide +kernel
  small := by decide +kernel
  settings := ⟨[1], by decide +kernel⟩

/-- The game is started in two writes of its record. -/
theorem initList_after_gameStart_oneVersion :
    ∃ n s' loaded,
      (GameInfo.gameStart (.ofStrings runningGame (by decide) (by decide)) [10, 14] ++
          GameInfo.undisturbedLoad 3 n).foldlM GameInfo.step GameInfo.freshState = some s' ∧
        s'.loads = [] ++ [loaded] ∧
        GameInfo.initList (consoleWith [647257894] "/game/EBOOT.BIN".toList)
            (oneVersionText.length + 1) noteEntry (fun _ => some oneVersionText) loaded [] =
          .finished (some oneVersion.entries) := by
  have hpassed : oneVersionFile.passed (switchesAfter .big none [.toggle 647257894]).wanted
      (consoleWith [647257894] "/game/EBOOT.BIN".toList) runningGame oneVersionFile.blocks.length =
        oneVersion.entries := by decide +kernel
  obtain ⟨n, s', loaded, hrun, hloads, hgame⟩ := initList_after_gameStart _ noteEntry runningGame
    [] _ _ _ _ _ GameInfo.freshState 3 [10, 14] prepared_oneVersion (by decide) (by decide)
    (by decide) (by decide) (by decide) rfl rfl rfl
  refine ⟨n, s', loaded, hrun, hloads, hgame.trans ?_⟩
  rw [noteEntry_foldl, List.nil_append, ← hpassed]
  rfl

end GamePatch
