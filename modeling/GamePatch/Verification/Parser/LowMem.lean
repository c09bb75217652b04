import GamePatch.Verification.Parser.Metadata

/-! # The parser in `PARSE_MODE_LOW_MEM`

Nothing is stored in this mode: a completed block is dropped, a `patches:` line
announces the versions of its block, and an entry goes to the callback. -/

namespace GamePatch

variable {σ : Type} {env : Env} {ctx ctx' : ParseContext σ} {line : CString}

/-- The context after the completion of a block that has a title. -/
def ParseContext.nextBlock (env : Env) (ctx : ParseContext σ) : ParseContext σ :=
  { ctx with
    currentPatchNumber := env.sizeT (ctx.currentPatchNumber + 1)
    currentPatch := Patch.blank (env.alloc ctx.allocs)
    inPatchesSection := false
    currentEntries := { ctx.currentEntries with elems := [] }
    allocs := ctx.allocs + 1 }

theorem handlePatchComplete_untitled (h : ctx.currentPatch.title = none) :
    handlePatchComplete env ctx = some ctx := by
  rw [handlePatchComplete, if_pos h]

/-- Rounds that do nothing. -/
theorem completeVersions_idle
    (hround : ∀ v i, completeVersion env ctx v i = some (.next ctx))
    (vs : List (Option CString × ℕ)) : completeVersions env vs ctx = some (.next ctx) := by
  induction vs with
  | nil => rfl
  | cons v vs ih =>
      simp only [completeVersions, hround, Option.bind_eq_bind, Option.bind_some]
      exact ih

theorem completeVersions_lowMem (hmode : ctx.mode = .lowMem)
    (vs : List (Option CString × ℕ)) : completeVersions env vs ctx = some (.next ctx) := by
  apply completeVersions_idle
  intro v i
  unfold completeVersion
  split
  · rfl
  · rw [hmode]

/-- The console build stores nothing. -/
theorem completeVersions_prx (hprx : env.prx = true) (vs : List (Option CString × ℕ)) :
    completeVersions env vs ctx = some (.next ctx) := by
  apply completeVersions_idle
  intro v i
  unfold completeVersion
  rw [if_pos hprx]

theorem handlePatchComplete_lowMem (hmode : ctx.mode = .lowMem)
    (h : ctx.currentPatch.title ≠ none) :
    handlePatchComplete env ctx = some (ctx.nextBlock env) := by
  simp only [handlePatchComplete, if_neg h, completeVersions_lowMem hmode, Option.bind_eq_bind,
    Option.bind_some]
  rfl

/-- The context after the `patches:` line of a block. -/
def ParseContext.announceAll (env : Env) (ctx : ParseContext σ)
    (callback : PatchMetadata → σ → σ) : ParseContext σ :=
  ctx.currentPatch.versions.foldl (fun c v => c.announce callback (ctx.metaOf env v) v.2)
    { ctx with inPatchesSection := true }

/-- The metadata of all versions of the block being read. -/
def ParseContext.metas (env : Env) (ctx : ParseContext σ) : List PatchMetadata :=
  ctx.currentPatch.versions.map (ctx.metaOf env)

theorem ParseContext.announceAll_eq (ctx : ParseContext σ) (callback : PatchMetadata → σ → σ) :
    ctx.announceAll env callback =
      { ctx with
        inPatchesSection := true
        userData :=
          ((ctx.metas env).filter (·.matchesGame)).foldl
            (fun data metadata => callback metadata data) ctx.userData
        processingEnabledPatch :=
          (((ctx.metas env).filter (·.matchesGame)).getLast?.map (·.enabled)).getD
            ctx.processingEnabledPatch
        currentMeta := ctx.metaOf env (ctx.currentPatch.appVers.head?, 0) } := by
  have huser := announce_fold_userData callback (ctx.metaOf env) ctx.currentPatch.versions
    { ctx with inPatchesSection := true }
  have hflag := announce_fold_flag callback (ctx.metaOf env) ctx.currentPatch.versions
    { ctx with inPatchesSection := true }
  have hmeta := announce_fold_meta callback (ctx.metaOf env) ctx.currentPatch
    { ctx with inPatchesSection := true }
  obtain ⟨data, kept, enabled, hframe⟩ := announce_fold_frame callback (ctx.metaOf env)
    ctx.currentPatch.versions { ctx with inPatchesSection := true }
  rw [hframe] at huser hflag hmeta
  rw [announceAll, hframe]
  simp only at huser hflag hmeta
  rw [huser, hflag, hmeta]
  rfl

theorem processLine_patches_lowMem (hkind : lineKind ctx.inPatchesSection line = .patches)
    (hmode : ctx.mode = .lowMem) {callback : PatchMetadata → σ → σ}
    (hcb : ctx.metaCallback = some callback) :
    processLine env ctx line = some ctx' ↔
      ctx.VersionsDefined env ∧ ctx' = ctx.announceAll env callback := by
  rw [processLine_patches hkind, if_pos hmode]
  exact announceVersions_eq_some ctx.currentPatch.versions
    (show { ctx with inPatchesSection := true }.metaCallback = some callback from hcb)

theorem metadataCallback_fold {ω : Type} (metas : List PatchMetadata) (data : RunData ω) :
    metas.foldl (fun data metadata => metadataCallback metadata data) data =
      ⟨data.count + metas.length, data.game⟩ := by
  induction metas generalizing data with
  | nil => rfl
  | cons metadata metas ih =>
      rw [List.foldl_cons, ih, List.length_cons]
      simp [metadataCallback, Nat.add_assoc, Nat.add_comm 1]

/-! ## Lines that neither open a block nor its entries -/

/-- The entries that a line hands to the callback. -/
def lineEntries (inPatches : Bool) (line : CString) : List PatchEntry :=
  if lineKind inPatches line = .entry then
    [parsePatchEntry ((trim line).drop 2)].filter fun entry =>
      decide (minPatchParams ≤ entry.params.length)
  else []

/-- What the callback makes of entries under the current flag. -/
def ParseContext.applyEntries (ctx : ParseContext σ) (callback : PatchMetadata → PatchEntry → σ → σ)
    (entries : List PatchEntry) : σ :=
  if ctx.processingEnabledPatch then
    entries.foldl (fun data entry => callback ctx.currentMeta entry data) ctx.userData
  else ctx.userData

theorem lineEntries_false (line : CString) : lineEntries false line = [] := by
  rw [lineEntries, if_neg (lineKind_false_ne_entry line)]

theorem lineEntries_of_ne_entry {inPatches : Bool} (h : lineKind inPatches line ≠ .entry) :
    lineEntries inPatches line = [] :=
  if_neg h

theorem ParseContext.applyEntries_nil (ctx : ParseContext σ)
    (callback : PatchMetadata → PatchEntry → σ → σ) :
    ctx.applyEntries callback [] = ctx.userData := by
  simp [applyEntries]

/-- A plain line adds to the block and to the entries applied. -/
theorem processLine_plain (env : Env) (ctx : ParseContext σ)
    {callback : PatchMetadata → PatchEntry → σ → σ} (hmode : ctx.mode = .lowMem)
    (hcb : ctx.entryCallback = some callback)
    (hopens : ¬ OpensBlock line) (hentries : ¬ OpensEntries line) :
    ∃ titleids, processLine env ctx line =
      some { ctx with
        globalTitleids := titleids
        currentPatch := ctx.currentPatch.readLine line
        userData := ctx.applyEntries callback (lineEntries ctx.inPatchesSection line) } := by
  by_cases hentry : lineKind ctx.inPatchesSection line = .entry
  · refine ⟨ctx.globalTitleids, ?_⟩
    rw [processLine_entry hentry]
    by_cases hshort : (parsePatchEntry ((trim line).drop 2)).params.length < minPatchParams
    · simp [processEntry_short hshort, Patch.readLine_of_entry hentry, lineEntries, hentry,
        Nat.not_le_of_lt hshort, ParseContext.applyEntries_nil]
    · simp [processEntry_lowMem hmode hcb hshort, Patch.readLine_of_entry hentry, lineEntries,
        hentry, Nat.le_of_not_lt hshort, ParseContext.applyEntries]
  · obtain ⟨titleids, hquiet⟩ := processLine_quiet env ctx hopens hentries hentry
    refine ⟨titleids, ?_⟩
    rw [hquiet, lineEntries_of_ne_entry hentry, ParseContext.applyEntries_nil]

theorem runLines_cons (ctx : ParseContext σ) (line : CString) (lines : List CString) :
    runLines env ctx (line :: lines) =
      (processLine env ctx line).bind fun ctx => runLines env ctx lines :=
  List.foldlM_cons

theorem runLines_append (ctx : ParseContext σ) (lines lines' : List CString) :
    runLines env ctx (lines ++ lines') =
      (runLines env ctx lines).bind fun ctx => runLines env ctx lines' :=
  List.foldlM_append

/-- A run over plain lines never fails. -/
theorem runLines_plain (env : Env) {callback : PatchMetadata → PatchEntry → σ → σ}
    (lines : List CString) (hplain : ∀ line ∈ lines, ¬ OpensBlock line ∧ ¬ OpensEntries line) :
    ∀ ctx : ParseContext σ, ctx.mode = .lowMem → ctx.entryCallback = some callback →
      ∃ titleids, runLines env ctx lines =
        some { ctx with
          globalTitleids := titleids
          currentPatch := lines.foldl Patch.readLine ctx.currentPatch
          userData :=
            ctx.applyEntries callback (lines.flatMap (lineEntries ctx.inPatchesSection)) } := by
  induction lines with
  | nil =>
      intro ctx _ _
      exact ⟨ctx.globalTitleids, by simp [runLines, ParseContext.applyEntries_nil]⟩
  | cons line lines ih =>
      intro ctx hmode hcb
      rcases hplain line (by simp) with ⟨hopens, hentries⟩
      obtain ⟨titleids, hline⟩ :=
        processLine_plain env ctx hmode hcb hopens hentries
      obtain ⟨titleids', hrest⟩ := ih (fun l hl => hplain l (List.mem_cons_of_mem line hl))
        { ctx with
          globalTitleids := titleids
          currentPatch := ctx.currentPatch.readLine line
          userData := ctx.applyEntries callback (lineEntries ctx.inPatchesSection line) }
        hmode hcb
      refine ⟨titleids', ?_⟩
      rw [runLines_cons, hline, Option.bind_some, hrest]
      simp only [List.foldl_cons, List.flatMap_cons, ParseContext.applyEntries]
      by_cases hflag : ctx.processingEnabledPatch = true
      · simp only [hflag, if_true, List.foldl_append]
      · simp [hflag]

end GamePatch
