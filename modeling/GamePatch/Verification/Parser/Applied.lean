import Mathlib.Data.List.DropRight
import GamePatch.Verification.Parser.LowMem

/-! # Which blocks have their entries applied

The flag that lets entries through is written by a `patches:` line whose block
has a matching version, and by nothing else. A later block without a matching
version finds it as the earlier one left it. -/

namespace GamePatch

open Runs

/-- The lines since the last one that opens a block. -/
def blockLines (lines : List CString) : List CString :=
  lines.rtakeWhile fun line => decide (¬ OpensBlock line)

theorem blockLines_opens {lines : List CString} {line : CString} (h : OpensBlock line) :
    blockLines (lines ++ [line]) = [] := by
  rw [blockLines, List.rtakeWhile_concat_neg _ _ _ (by simp [h])]

theorem blockLines_inside {lines : List CString} {line : CString} (h : ¬ OpensBlock line) :
    blockLines (lines ++ [line]) = blockLines lines ++ [line] := by
  rw [blockLines, List.rtakeWhile_concat_pos _ _ _ (by simp [h]), blockLines]

/-- The block with these lines has, at its last `patches:` line, a version that is
the game's and is switched on. -/
def MayApply (env : Env) (game : GamePatchInfo) (number : ℕ) (block : List CString) : Prop :=
  ∃ before patches after k, block = before ++ patches :: after ∧ OpensEntries patches ∧
    (∀ line ∈ after, ¬ OpensEntries line) ∧
    (ownPatch true before).appVers[k]? = some game.appVer ∧
    EnabledVersion env game number (ownPatch true before) (some game.appVer, k)

variable {env : Env} {info : GamePatchInfo}

theorem MayApply.append {number : ℕ} {block : List CString} {line : CString}
    (h : MayApply env info number block) (hline : ¬ OpensEntries line) :
    MayApply env info number (block ++ [line]) := by
  rcases h with ⟨before, patches, after, k, rfl, hpatches, hafter, hk, henabled⟩
  refine ⟨before, patches, after ++ [line], k, by simp, hpatches, ?_, hk, henabled⟩
  intro l hl
  rcases List.mem_append.mp hl with hl | hl
  · exact hafter l hl
  · rw [List.mem_singleton.mp hl]
    exact hline

/-- The step leaves nothing of an earlier block behind: a block without a title is
only ended where it is still blank, and a `patches:` line that leaves the flag set
by another one does not keep enabled metadata. -/
structure LeavesNothing (env : Env) {σ : Type} (ctx : ParseContext σ) (line : CString) : Prop where
  block : OpensBlock line → ctx.currentPatch.title = none →
    (∃ allocated, ctx.currentPatch = Patch.blank allocated) ∧ ctx.inPatchesSection = false
  flag : OpensEntries line → ctx.processingEnabledPatch = true →
    (∀ v ∈ ctx.currentPatch.versions, patchMatchesGame ctx.gameInfo v.1 = false) →
    ¬ EnabledVersion env ctx.gameInfo ctx.currentPatchNumber ctx.currentPatch
      (ctx.currentPatch.appVers.head?, 0)

instance (env : Env) {σ : Type} (ctx : ParseContext σ) (line : CString) :
    Decidable (LeavesNothing env ctx line) :=
  decidable_of_iff
    ((OpensBlock line → ctx.currentPatch.title = none →
      (∃ allocated, ctx.currentPatch = Patch.blank allocated) ∧ ctx.inPatchesSection = false) ∧
    (OpensEntries line → ctx.processingEnabledPatch = true →
      (∀ v ∈ ctx.currentPatch.versions, patchMatchesGame ctx.gameInfo v.1 = false) →
      ¬ EnabledVersion env ctx.gameInfo ctx.currentPatchNumber ctx.currentPatch
        (ctx.currentPatch.appVers.head?, 0)))
    ⟨fun h => ⟨h.1, h.2⟩, fun h => ⟨h.block, h.flag⟩⟩

/-- What holds between the lines of a run with the callbacks of `run_patch`. -/
structure RunInvariant (env : Env) {ω : Type} (applyPatch : PatchEntry → ω → ω)
    (info : GamePatchInfo) (seen : List CString) (ctx : ParseContext (RunData ω)) : Prop where
  mode : ctx.mode = .lowMem
  gameInfo : ctx.gameInfo = info
  metaCallback : ctx.metaCallback = some metadataCallback
  entryCallback : ctx.entryCallback = some (entryCallback applyPatch)
  block : ∃ allocated, ctx.currentPatch = ownPatch allocated (blockLines seen)
  flag : ctx.inPatchesSection = true → ctx.processingEnabledPatch = true →
    ctx.currentMeta.enabled = true →
    MayApply env info ctx.currentPatchNumber (blockLines seen)

namespace RunInvariant

variable {ω : Type} {applyPatch : PatchEntry → ω → ω} {seen : List CString}
  {ctx ctx' : ParseContext (RunData ω)} {line : CString}

theorem initial (game : ω) :
    RunInvariant env applyPatch info [] (runContext applyPatch info game) where
  mode := rfl
  gameInfo := rfl
  metaCallback := rfl
  entryCallback := rfl
  block := ⟨true, rfl⟩
  flag := fun h => absurd h (by simp [runContext, createParseContext])

/-- A line that opens a block. -/
theorem opens (h : RunInvariant env applyPatch info seen ctx) (hline : OpensBlock line)
    (hclean : LeavesNothing env ctx line) (hstep : processLine env ctx line = some ctx') :
    RunInvariant env applyPatch info (seen ++ [line]) ctx' := by
  rw [processLine_patch (hline.lineKind_eq _)] at hstep
  by_cases htitle : ctx.currentPatch.title = none
  · rw [handlePatchComplete_untitled htitle] at hstep
    obtain rfl := Option.some.inj hstep
    rcases hclean.block hline htitle with ⟨⟨allocated, hblank⟩, hsection⟩
    refine { h with block := ⟨allocated, ?_⟩, flag := ?_ }
    · rw [blockLines_opens hline]
      exact hblank
    · intro hin
      rw [hsection] at hin
      cases hin
  · rw [handlePatchComplete_lowMem h.mode htitle] at hstep
    obtain rfl := Option.some.inj hstep
    refine { h with block := ⟨env.alloc ctx.allocs, ?_⟩, flag := ?_ }
    · rw [blockLines_opens hline]
      rfl
    · intro hin
      cases hin

/-- The flag that a `patches:` line leaves set is justified by its own block. -/
theorem opensEntries (h : RunInvariant env applyPatch info seen ctx) (hline : OpensEntries line)
    (hclean : LeavesNothing env ctx line) (hstep : processLine env ctx line = some ctx') :
    RunInvariant env applyPatch info (seen ++ [line]) ctx' := by
  have hopens : ¬ OpensBlock line := by
    intro hpatch
    cases hpatch.symm.trans hline
  have hinside := processLine_insideBlock hopens hstep
  obtain ⟨hdefined, hctx'⟩ := (processLine_patches_lowMem (hline.lineKind_eq _) h.mode
    h.metaCallback).mp hstep
  rcases h.block with ⟨allocated, hblock⟩
  have hsame : ctx'.currentPatch = ctx.currentPatch := by
    rw [hinside.currentPatch, Patch.readLine, show lineKind false line = .patches from hline]
  refine ⟨hinside.mode.trans h.mode, hinside.gameInfo.trans h.gameInfo,
    hinside.metaCallback.trans h.metaCallback, hinside.entryCallback.trans h.entryCallback,
    ⟨allocated, ?_⟩, ?_⟩
  · rw [blockLines_inside hopens, ownPatch_append_singleton, ← hblock, hinside.currentPatch]
  · intro _ hflag henabled
    have hhead : (ctx.currentPatch.appVers.head?, 0) ∈ ctx.currentPatch.versions := by
      obtain ⟨rest, hversions, -⟩ := ctx.currentPatch.versions_eq_cons
      rw [hversions]
      exact List.mem_cons_self
    have hbin := (hdefined _ hhead).appBin
    rw [hctx', ParseContext.announceAll_eq] at hflag henabled
    dsimp only at hflag henabled
    cases hlast : ((ctx.metas env).filter (·.matchesGame)).getLast? with
    | none =>
        -- No version matches, so the flag is the one left by an earlier line.
        rw [hlast] at hflag
        have hnone : ∀ v ∈ ctx.currentPatch.versions,
            patchMatchesGame ctx.gameInfo v.1 = false := by
          rw [List.getLast?_eq_none_iff, List.filter_eq_nil_iff] at hlast
          intro v hv
          have hmatch := hlast _ (List.mem_map_of_mem hv)
          simpa [ParseContext.metaOf, versionMetadata] using hmatch
        exact absurd ((versionMetadata_enabled_iff hbin).mp henabled)
          (hclean.flag hline hflag hnone)
    | some metadata =>
        rw [hlast] at hflag
        have hmem := List.mem_of_getLast? hlast
        obtain ⟨hmem, hmatch⟩ := List.mem_filter.mp hmem
        obtain ⟨⟨appVer, k⟩, hv, rfl⟩ := List.mem_map.mp hmem
        obtain ⟨-, hver⟩ := patchMatchesGame_iff.mp hmatch
        obtain rfl : appVer = some ctx.gameInfo.appVer := hver
        have hon := (versionMetadata_enabled_iff hbin).mp hflag
        have hk := Patch.mem_versions.mp hv
        rw [hblock] at hk hon
        obtain rfl := allocated_of_mem_appVers (List.mem_of_getElem? hk)
        rw [h.gameInfo] at hk hon
        rw [hinside.currentPatchNumber]
        exact ⟨blockLines seen, line, [], k, blockLines_inside hopens, hline, by simp, hk, hon⟩

/-- Every other line keeps the flag and the metadata. -/
theorem inside (h : RunInvariant env applyPatch info seen ctx) (hopens : ¬ OpensBlock line)
    (hentries : ¬ OpensEntries line) (hstep : processLine env ctx line = some ctx') :
    RunInvariant env applyPatch info (seen ++ [line]) ctx' := by
  have hinside := processLine_insideBlock hopens hstep
  obtain ⟨hmeta, hflag⟩ := processLine_keeps_flag hopens hentries hstep
  rcases h.block with ⟨allocated, hblock⟩
  refine ⟨hinside.mode.trans h.mode, hinside.gameInfo.trans h.gameInfo,
    hinside.metaCallback.trans h.metaCallback, hinside.entryCallback.trans h.entryCallback,
    ⟨allocated, ?_⟩, ?_⟩
  · rw [blockLines_inside hopens, ownPatch_append_singleton, ← hblock, hinside.currentPatch]
  · rw [hinside.inPatchesSection, hmeta, hflag, hinside.currentPatchNumber,
      blockLines_inside hopens]
    intro hsection hset henabled
    exact (h.flag (by simpa [hentries] using hsection) hset henabled).append hentries

theorem step (h : RunInvariant env applyPatch info seen ctx) (hclean : LeavesNothing env ctx line)
    (hstep : processLine env ctx line = some ctx') :
    RunInvariant env applyPatch info (seen ++ [line]) ctx' := by
  by_cases hopens : OpensBlock line
  · exact h.opens hopens hclean hstep
  · by_cases hentries : OpensEntries line
    · exact h.opensEntries hentries hclean hstep
    · exact h.inside hopens hentries hstep

theorem of_applied_entry (h : RunInvariant env applyPatch info seen ctx)
    (hentry : lineKind ctx.inPatchesSection line = .entry)
    (hstep : processLine env ctx line = some ctx')
    (happlied : ctx'.userData.game ≠ ctx.userData.game) :
    ctx.inPatchesSection = true ∧ ctx.processingEnabledPatch = true ∧
      ctx.currentMeta.enabled = true := by
  have hsection : ctx.inPatchesSection = true := by
    by_contra hout
    rw [Bool.eq_false_iff.mpr hout] at hentry
    exact lineKind_false_ne_entry line hentry
  rw [processLine_entry hentry] at hstep
  by_cases hshort : (parsePatchEntry ((trim line).drop 2)).params.length < minPatchParams
  · rw [processEntry_short hshort] at hstep
    obtain rfl := Option.some.inj hstep
    exact absurd rfl happlied
  · rw [processEntry_lowMem h.mode h.entryCallback hshort] at hstep
    obtain rfl := Option.some.inj hstep
    by_cases hflag : ctx.processingEnabledPatch = true
    · by_cases henabled : ctx.currentMeta.enabled = true
      · exact ⟨hsection, hflag, henabled⟩
      · exact absurd (by simp [hflag, GamePatch.entryCallback, henabled]) happlied
    · exact absurd (by simp [hflag]) happlied

/-- Only an entry line reaches the game, and only with the flag set and enabled
metadata. -/
theorem of_applied (h : RunInvariant env applyPatch info seen ctx)
    (hstep : processLine env ctx line = some ctx')
    (happlied : ctx'.userData.game ≠ ctx.userData.game) :
    ctx.inPatchesSection = true ∧ ctx.processingEnabledPatch = true ∧
      ctx.currentMeta.enabled = true := by
  by_cases hopens : OpensBlock line
  · rw [processLine_patch (hopens.lineKind_eq _)] at hstep
    by_cases htitle : ctx.currentPatch.title = none
    · rw [handlePatchComplete_untitled htitle] at hstep
      obtain rfl := Option.some.inj hstep
      exact absurd rfl happlied
    · rw [handlePatchComplete_lowMem h.mode htitle] at hstep
      obtain rfl := Option.some.inj hstep
      exact absurd rfl happlied
  · by_cases hentries : OpensEntries line
    · obtain ⟨-, rfl⟩ := (processLine_patches_lowMem (hentries.lineKind_eq _) h.mode
        h.metaCallback).mp hstep
      rw [ParseContext.announceAll_eq, metadataCallback_fold] at happlied
      exact absurd rfl happlied
    · by_cases hentry : lineKind ctx.inPatchesSection line = .entry
      · exact h.of_applied_entry hentry hstep happlied
      · obtain ⟨titleids, hquiet⟩ := processLine_quiet env ctx hopens hentries hentry
        obtain rfl := Option.some.inj (hquiet.symm.trans hstep)
        exact absurd rfl happlied

end RunInvariant

/-- The effect of `apply_patch` as far as it matters here: the entries that reach
it are noted down. -/
def noteEntry (entry : PatchEntry) (applied : List PatchEntry) : List PatchEntry :=
  applied ++ [entry]

/-- If `line`, read after `lines`, applies an entry, then its block has a version that
is the game's and is switched on. -/
def AppliesOnlyOwn (env : Env) (info : GamePatchInfo) (lines : List CString) (line : CString) :
    Prop :=
  ∀ ctx ctx', runLines env (runContext noteEntry info []) lines = some ctx →
    processLine env ctx line = some ctx' → ctx'.userData.game ≠ ctx.userData.game →
    MayApply env info ctx.currentPatchNumber (blockLines lines)

/-- In a run whose steps leave nothing of earlier blocks behind, an entry is only
applied for the sake of its own block. -/
theorem appliesOnlyOwn_of_leavesNothing (env : Env) (info : GamePatchInfo)
    (lines : List CString) (line : CString)
    (hclean : EveryStep (processLine env) (LeavesNothing env) (runContext noteEntry info [])
      (lines ++ [line])) :
    AppliesOnlyOwn env info lines line := by
  intro ctx ctx' hrun hstep happlied
  have hinv : RunInvariant env noteEntry info ([] ++ lines) ctx :=
    invariant_of_run (RunInvariant env noteEntry info)
      (fun _ _ _ _ hinv hstepClean hrunStep => hinv.step hstepClean hrunStep)
      [] (RunInvariant.initial []) (everyStep_append.mp hclean).1 hrun
  rcases hinv.of_applied hstep happlied with ⟨hsection, hflag, henabled⟩
  exact hinv.flag hsection hflag henabled

/-! ## A flag left by an earlier block -/

/-- A block up to its `patches:` line. -/
def blockOf (title appVer : String) : List CString :=
  ["patch:", "  title: \"" ++ title ++ "\"", "  app_bin: \"EBOOT\"",
    "  app_ver: \"" ++ appVer ++ "\"", "  patches:"].map String.toList

/-- Whether reading `line` after `lines` applies an entry. -/
def appliesAt (env : Env) (info : GamePatchInfo) (lines : List CString) (line : CString) : Bool :=
  (runLines env (runContext noteEntry info []) lines).any fun ctx =>
    (processLine env ctx line).any fun ctx' => decide (ctx'.userData.game ≠ ctx.userData.game)

/-- Both blocks are switched on, and only the first is for the running version. -/
def bothOn : Env := consoleWith [647257894, 318854593] "/game/EBOOT.BIN".toList

/-- The first and the third of three blocks are switched on. -/
def outerOn : Env := consoleWith [647257894, 1609744446] "/game/EBOOT.BIN".toList

/-- The flag of the first block goes on into the second, which is for another version and
switched off. The third block sets it anew, and its entry is applied. -/
theorem appliesOnlyOwn_of_leavesNothing_threeBlocks :
    let second := blockOf "A" "1" ++ entryLine :: blockOf "B" "2"
    let third := second ++ entryLine :: blockOf "C" "1"
    (appliesAt outerOn runningGame second entryLine = false ∧
      AppliesOnlyOwn outerOn runningGame second entryLine) ∧
    appliesAt outerOn runningGame third entryLine = true ∧
      AppliesOnlyOwn outerOn runningGame third entryLine :=
  ⟨⟨by decide +kernel, appliesOnlyOwn_of_leavesNothing _ _ _ _ (by decide +kernel)⟩,
    by decide +kernel, appliesOnlyOwn_of_leavesNothing _ _ _ _ (by decide +kernel)⟩

/-- The entry of the second block is applied although that block is for another
version. -/
theorem not_appliesOnlyOwn :
    ¬ AppliesOnlyOwn bothOn runningGame (blockOf "A" "1" ++ blockOf "B" "2") entryLine := by
  intro h
  have happlies : appliesAt bothOn runningGame (blockOf "A" "1" ++ blockOf "B" "2") entryLine =
      true := by decide +kernel
  obtain ⟨ctx, hrun, happlies⟩ := (Option.any_eq_true _ _).mp happlies
  obtain ⟨ctx', hstep, happlies⟩ := (Option.any_eq_true _ _).mp happlies
  obtain ⟨before, patches, after, k, hblock, -, -, hk, -⟩ :=
    h ctx ctx' hrun hstep (of_decide_eq_true happlies)
  -- No prefix of the second block lists the running version.
  have hnone : ∀ before ∈ (blockLines (blockOf "A" "1" ++ blockOf "B" "2")).inits,
      runningGame.appVer ∉ (ownPatch true before).appVers := by decide +kernel
  apply hnone before
  · rw [List.mem_inits, hblock]
    exact List.prefix_append before _
  · exact List.mem_of_getElem? hk

end GamePatch
