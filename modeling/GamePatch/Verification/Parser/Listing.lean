import GamePatch.Verification.Parser.Isolation

/-! # What a file of blocks stores

Every block of a file starts in a clean context, so the arrays at the end of the
file are the records of its blocks, one block after the other. -/

namespace GamePatch

variable {σ : Type} {env : Env} {mode : ParseMode} {game : GamePatchInfo}
  {title : Option CString}

/-- The `i`-th block, given by its lines behind the opening one, is titled and its
completion goes well. -/
structure Completes (env : Env) (mode : ParseMode) (game : GamePatchInfo) (i : ℕ)
    (inner : List CString) : Prop where
  inside : ∀ line ∈ inner, ¬ OpensBlock line
  title : (ownPatch true inner).title ≠ none
  defined : ∀ v ∈ (ownPatch true inner).versions,
    mode.VersionDefined env game (env.sizeT i) (ownPatch true inner) v

/-- The patches stored for the `i`-th block. -/
def blockData (env : Env) (mode : ParseMode) (game : GamePatchInfo) (title : Option CString)
    (i : ℕ) (inner : List CString) : List PatchData :=
  mode.storedData env game title (env.sizeT i) (ownPatch true inner)
    (mode.keeps (sectionEntries false inner)) (ownPatch true inner).versions

/-- The metadata stored for the `i`-th block. -/
def blockMetadata (env : Env) (mode : ParseMode) (game : GamePatchInfo) (i : ℕ)
    (inner : List CString) : List PatchMetadata :=
  mode.storedMetadata env game (env.sizeT i) (ownPatch true inner) (ownPatch true inner).versions

/-- The context where the `i`-th block starts. -/
structure CleanStart (env : Env) (mode : ParseMode) (game : GamePatchInfo)
    (title : Option CString) (i : ℕ) (ctx : ParseContext σ) : Prop where
  run : StoringRun mode game title ctx
  clean : Clean ctx
  number : ctx.currentPatchNumber = env.sizeT i

/-- The lines of a block and its completion lead from one clean start to the next. -/
theorem CleanStart.block (hprx : env.prx = false) (halloc : ∀ n, env.alloc n = true)
    (hmode : mode ≠ .lowMem) {i : ℕ} {ctx : ParseContext σ}
    (hctx : CleanStart env mode game title i ctx) {inner : List CString}
    (hinner : Completes env mode game i inner) :
    ∃ mid last, runLines env ctx inner = some mid ∧ handlePatchComplete env mid = some last ∧
      CleanStart env mode game title (i + 1) last ∧
      last.allPatches.elems = ctx.allPatches.elems ++ blockData env mode game title i inner ∧
      last.metadataArray.elems =
        ctx.metadataArray.elems ++ blockMetadata env mode game i inner := by
  rcases hctx with ⟨hrunning, hclean, hnumber⟩
  obtain ⟨mid, hrun, hmid⟩ := runLines_stores hprx halloc inner hinner.inside
    (hrunning.mode.symm ▸ hmode) hrunning.storing
  have hmodeMid := hmid.mode.trans hrunning.mode
  have hpatch : mid.currentPatch = ownPatch true inner := by
    rw [hmid.patch, hclean.patch]
    rfl
  have hentries : mid.currentEntries.elems = mode.keeps (sectionEntries false inner) := by
    rw [hmid.entries, hclean.entries, hclean.section_closed, List.nil_append, hrunning.mode]
  have hdefined : mid.CompletionDefined env := by
    rw [ParseContext.CompletionDefined, hpatch, hmodeMid, hmid.gameInfo.trans hrunning.gameInfo,
      hmid.number, hnumber]
    exact hinner.defined
  obtain ⟨last, hlast, hstored⟩ := (handlePatchComplete_stores hprx halloc
    (hmodeMid.symm ▸ hmode) hmid.storing (hpatch.symm ▸ hinner.title)).1 hdefined
  refine ⟨mid, last, hrun, hlast, ⟨⟨hstored.mode.trans hmodeMid,
    hstored.gameInfo.trans (hmid.gameInfo.trans hrunning.gameInfo),
    hstored.title.trans (hmid.title.trans hrunning.title), hstored.storing⟩,
    ⟨hstored.patch, hstored.section_closed, hstored.entries⟩, ?_⟩, ?_, ?_⟩
  · rw [hstored.number, hmid.number, hnumber, Env.sizeT_succ]
  · rw [hstored.data, hmid.allPatches, hmodeMid, hmid.gameInfo, hrunning.gameInfo, hmid.title,
      hrunning.title, hmid.number, hnumber, hpatch, hentries]
    rfl
  · rw [hstored.metadata, hmid.metadataArray, hmodeMid, hmid.gameInfo, hrunning.gameInfo,
      hmid.number, hnumber, hpatch]
    rfl

/-- The lines of blocks, each given by its opening line and the lines behind it. -/
def linesOf (blocks : List (CString × List CString)) : List CString :=
  blocks.flatMap fun b => b.1 :: b.2

/-- From where `i` blocks are to be completed, the blocks that follow and the end of
the file add their records. -/
theorem blocks_stored (hprx : env.prx = false) (halloc : ∀ n, env.alloc n = true)
    (hmode : mode ≠ .lowMem) (blocks : List (CString × List CString))
    (hopens : ∀ b ∈ blocks, OpensBlock b.1) :
    ∀ {i : ℕ} {ctx start : ParseContext σ}, handlePatchComplete env ctx = some start →
      CleanStart env mode game title i start →
      (∀ p ∈ blocks.zipIdx i, Completes env mode game p.2 p.1.2) →
      ∃ last, parseLines env ctx (linesOf blocks) = some last ∧
        last.allPatches.elems = start.allPatches.elems ++
          (blocks.zipIdx i).flatMap (fun p => blockData env mode game title p.2 p.1.2) ∧
        last.metadataArray.elems = start.metadataArray.elems ++
          (blocks.zipIdx i).flatMap (fun p => blockMetadata env mode game p.2 p.1.2) := by
  induction blocks with
  | nil =>
      intro i ctx start hstart _ _
      exact ⟨start, hstart, by simp, by simp⟩
  | cons b blocks ih =>
      intro i ctx start hstart hclean hcompletes
      rw [List.zipIdx_cons, List.forall_mem_cons] at hcompletes
      obtain ⟨mid, next, hinner, hnext, hclean', hdata, hmetadata⟩ :=
        hclean.block hprx halloc hmode hcompletes.1
      obtain ⟨last, hlast, hdata', hmetadata'⟩ :=
        ih (fun b' hb' => hopens b' (List.mem_cons_of_mem b hb')) hnext hclean' hcompletes.2
      refine ⟨last, ?_, ?_, ?_⟩
      · have hlines : linesOf (b :: blocks) = b.1 :: (b.2 ++ linesOf blocks) := rfl
        rw [parseLines, hlines, runLines_cons,
          processLine_patch ((hopens b (by simp)).lineKind_eq _), hstart, Option.bind_some,
          runLines_append, hinner, Option.bind_some]
        exact hlast
      · rw [hdata', hdata, List.zipIdx_cons, List.flatMap_cons, List.append_assoc]
      · rw [hmetadata', hmetadata, List.zipIdx_cons, List.flatMap_cons, List.append_assoc]

/-- The records of a whole file. -/
theorem file_stored (mode : ParseMode) (game : GamePatchInfo) (title : Option CString)
    (hprx : env.prx = false) (halloc : ∀ n, env.alloc n = true)
    (hmode : mode ≠ .lowMem) (preamble : List CString)
    (hpreamble : ∀ line ∈ preamble, Filler line) (blocks : List (CString × List CString))
    (hopens : ∀ b ∈ blocks, OpensBlock b.1)
    (hcompletes : ∀ p ∈ blocks.zipIdx, Completes env mode game p.2 p.1.2) (data : σ) :
    ∃ last, parseLines env (createParseContext game mode title data)
        (preamble ++ linesOf blocks) = some last ∧
      last.allPatches.elems =
        blocks.zipIdx.flatMap (fun p => blockData env mode game title p.2 p.1.2) ∧
      last.metadataArray.elems =
        blocks.zipIdx.flatMap (fun p => blockMetadata env mode game p.2 p.1.2) := by
  have hplain : ∀ line ∈ preamble, Plain line := fun line hline => (hpreamble line hline).plain
  have hinitial : StoringRun mode game title (createParseContext game mode title data) :=
    StoringRun.initial data
  obtain ⟨ctx, hrun, hctx⟩ := runLines_stores hprx halloc preamble
    (fun line hline => (hplain line hline).1) hmode hinitial.storing
  have hstart := hinitial.run hprx halloc hmode hrun
  have hblank : ctx.currentPatch = Patch.blank true := by
    rw [hctx.patch]
    exact foldl_readLine_of_filler hpreamble _
  have hclosed : ctx.inPatchesSection = false := by
    rw [hctx.inPatchesSection]
    simpa [createParseContext] using fun line hline => (hplain line hline).2
  have hnone : (createParseContext game mode title data).currentEntries.elems = [] := by
    cases mode <;> rfl
  have hentries : ctx.currentEntries.elems = [] := by
    rw [hctx.entries, hnone, List.nil_append]
    rw [show (createParseContext game mode title data).inPatchesSection = false from rfl,
      sectionEntries_closed hplain]
    simp [ParseMode.keeps]
  have hnumber : ctx.currentPatchNumber = env.sizeT 0 := by
    rw [hctx.number]
    simp [createParseContext, Env.sizeT]
  obtain ⟨last, hlast, hdata, hmetadata⟩ := blocks_stored hprx halloc hmode blocks hopens
    (handlePatchComplete_untitled (by rw [hblank]; rfl))
    ⟨hstart, ⟨hblank, hclosed, hentries⟩, hnumber⟩ hcompletes
  refine ⟨last, ?_, ?_, ?_⟩
  · rw [parseLines, runLines_append, hrun, Option.bind_some]
    exact hlast
  · rw [hdata, hctx.allPatches]
    cases mode <;> rfl
  · rw [hmetadata, hctx.metadataArray]
    cases mode <;> rfl

end GamePatch
