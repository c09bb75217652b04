import GamePatch.Verification.Parser.Applied
import GamePatch.Verification.Parser.Stored

/-! # Blocks that do not leak

What a block stores is a function of its own lines, its number and the request,
as long as it starts in a blank context. The completion of a titled block leaves
such a context; the early return for an untitled one leaves what it finds. -/

namespace GamePatch

open Runs

variable {σ : Type} {env : Env} {ctx ctx' : ParseContext σ} {line : CString}

/-- The records stored while the lines of a block are read and it is completed. -/
def emitted (env : Env) (ctx : ParseContext σ) (body : List CString) :
    Option (List PatchData × List PatchMetadata) :=
  (runLines env ctx body).bind fun mid =>
    (handlePatchComplete env mid).map fun last =>
      (last.allPatches.elems.drop ctx.allPatches.elems.length,
        last.metadataArray.elems.drop ctx.metadataArray.elems.length)

open Classical in
/-- The records of a block, from its own lines. -/
noncomputable def blockRecords (env : Env) (mode : ParseMode) (game : GamePatchInfo)
    (title : Option CString) (number : ℕ) (body : List CString) :
    Option (List PatchData × List PatchMetadata) :=
  let patch := ownPatch true body
  if patch.title = none then some ([], [])
  else if ∀ v ∈ patch.versions, mode.VersionDefined env game number patch v then
    some
      (mode.storedData env game title number patch (mode.keeps (sectionEntries false body))
        patch.versions,
      mode.storedMetadata env game number patch patch.versions)
  else none

/-- A context in which nothing of an earlier block is left. -/
structure Clean (ctx : ParseContext σ) : Prop where
  patch : ctx.currentPatch = Patch.blank true
  section_closed : ctx.inPatchesSection = false
  entries : ctx.currentEntries.elems = []

instance (ctx : ParseContext σ) : Decidable (Clean ctx) :=
  decidable_of_iff (ctx.currentPatch = Patch.blank true ∧ ctx.inPatchesSection = false ∧
    ctx.currentEntries.elems = []) ⟨fun h => ⟨h.1, h.2.1, h.2.2⟩, fun h => ⟨h.1, h.2, h.3⟩⟩

/-- From a clean context a block stores what its own lines say. -/
theorem emitted_eq_blockRecords (hprx : env.prx = false) (halloc : ∀ n, env.alloc n = true)
    (hmode : ctx.mode ≠ .lowMem) (hctx : Storing ctx) (hclean : Clean ctx) (body : List CString)
    (hbody : ∀ line ∈ body, ¬ OpensBlock line) :
    emitted env ctx body =
      blockRecords env ctx.mode ctx.gameInfo ctx.title ctx.currentPatchNumber body := by
  obtain ⟨mid, hrun, hmid⟩ := runLines_stores hprx halloc body hbody hmode hctx
  have hpatch : mid.currentPatch = ownPatch true body := by
    rw [hmid.patch, hclean.patch]
    rfl
  have hentries : mid.currentEntries.elems = ctx.mode.keeps (sectionEntries false body) := by
    rw [hmid.entries, hclean.entries, hclean.section_closed, List.nil_append]
  rw [emitted, hrun, Option.bind_some, blockRecords]
  by_cases htitle : (ownPatch true body).title = none
  · rw [handlePatchComplete_untitled (hpatch ▸ htitle), if_pos htitle]
    simp [hmid.allPatches, hmid.metadataArray]
  · obtain ⟨hdefined, hundefined⟩ := handlePatchComplete_stores hprx halloc (hmid.mode ▸ hmode)
      hmid.storing (hpatch ▸ htitle)
    have hiff : mid.CompletionDefined env ↔ ∀ v ∈ (ownPatch true body).versions,
        ctx.mode.VersionDefined env ctx.gameInfo ctx.currentPatchNumber (ownPatch true body) v := by
      rw [ParseContext.CompletionDefined, hpatch, hmid.mode, hmid.gameInfo, hmid.number]
    rw [if_neg htitle]
    by_cases hall : mid.CompletionDefined env
    · rcases hdefined hall with ⟨last, hlast, hstored⟩
      rw [hlast, if_pos (hiff.mp hall), Option.map_some, hstored.data, hstored.metadata,
        hmid.allPatches, hmid.metadataArray, List.drop_left, List.drop_left, hmid.mode,
        hmid.gameInfo, hmid.title, hmid.number, hpatch, hentries]
    · rw [hundefined hall, if_neg fun h => hall (hiff.mpr h)]
      rfl

/-! ## Runs -/

/-- What every line of a run in a storing mode keeps. -/
structure StoringRun (mode : ParseMode) (game : GamePatchInfo) (title : Option CString)
    (ctx : ParseContext σ) : Prop where
  mode : ctx.mode = mode
  gameInfo : ctx.gameInfo = game
  title : ctx.title = title
  storing : Storing ctx

section

variable {mode : ParseMode} {game : GamePatchInfo} {title : Option CString}

theorem StoringRun.initial (data : σ) :
    StoringRun mode game title (createParseContext game mode title data) := by
  refine ⟨rfl, rfl, rfl, ?_, ?_, ?_⟩
  · rintro rfl
    exact GrowArray.wellFormed_ofCapacity (by simp)
  · rintro rfl
    exact GrowArray.wellFormed_ofCapacity (by simp)
  · rintro rfl
    exact GrowArray.wellFormed_ofCapacity (by simp)

/-- The opening line ends the block before; unless that one is untitled and not
blank, it leaves a clean context. -/
theorem StoringRun.opens (hprx : env.prx = false) (halloc : ∀ n, env.alloc n = true)
    (hmode : mode ≠ .lowMem) (h : StoringRun mode game title ctx) (hopens : OpensBlock line)
    (hline : processLine env ctx line = some ctx') :
    StoringRun mode game title ctx' ∧
      (ctx.currentPatch.title ≠ none ∨ Clean ctx → Clean ctx') := by
  rw [processLine_patch (hopens.lineKind_eq _)] at hline
  by_cases htitle : ctx.currentPatch.title = none
  · rw [handlePatchComplete_untitled htitle] at hline
    obtain rfl := Option.some.inj hline
    exact ⟨h, fun hor => hor.resolve_left fun hn => hn htitle⟩
  · obtain ⟨hdefined, hundefined⟩ :=
      handlePatchComplete_stores hprx halloc (h.mode.symm ▸ hmode) h.storing htitle
    by_cases hall : ctx.CompletionDefined env
    · rcases hdefined hall with ⟨next, hnext, hstored⟩
      obtain rfl := Option.some.inj (hnext.symm.trans hline)
      exact ⟨⟨hstored.mode.trans h.mode, hstored.gameInfo.trans h.gameInfo,
        hstored.title.trans h.title, hstored.storing⟩,
        fun _ => ⟨hstored.patch, hstored.section_closed, hstored.entries⟩⟩
    · rw [hundefined hall] at hline
      cases hline

theorem StoringRun.step (hprx : env.prx = false) (halloc : ∀ n, env.alloc n = true)
    (hmode : mode ≠ .lowMem) (h : StoringRun mode game title ctx)
    (hline : processLine env ctx line = some ctx') : StoringRun mode game title ctx' := by
  by_cases hopens : OpensBlock line
  · exact (h.opens hprx halloc hmode hopens hline).1
  · obtain ⟨next, hnext, hafter, -⟩ :=
      processLine_stores hprx halloc (h.mode.symm ▸ hmode) h.storing hopens
    obtain rfl := Option.some.inj (hnext.symm.trans hline)
    exact ⟨hafter.mode.trans h.mode, hafter.gameInfo.trans h.gameInfo,
      hafter.title.trans h.title, hafter.storing⟩

theorem StoringRun.run (hprx : env.prx = false) (halloc : ∀ n, env.alloc n = true)
    (hmode : mode ≠ .lowMem) (h : StoringRun mode game title ctx) {lines : List CString}
    (hrun : runLines env ctx lines = some ctx') : StoringRun mode game title ctx' :=
  invariant_of_run (fun _ ctx => StoringRun mode game title ctx)
    (fun _ _ _ _ hinv _ hline => hinv.step hprx halloc hmode hline) [] h
    (everyStep_of_forall (P := fun _ _ => True) (fun _ _ => trivial) ctx) hrun

end

/-! ## Isolation -/

/-- The last block of the lines is titled, or nothing of it was read yet. -/
def EndsClean (env : Env) (mode : ParseMode) (game : GamePatchInfo) (title : Option CString)
    (lines : List CString) : Prop :=
  ((runLines env (createParseContext game mode title ()) lines).all fun ctx =>
    decide (ctx.currentPatch.title ≠ none ∨ Clean ctx)) = true

instance (env : Env) (mode : ParseMode) (game : GamePatchInfo) (title : Option CString)
    (lines : List CString) : Decidable (EndsClean env mode game title lines) :=
  inferInstanceAs (Decidable (_ = true))

/-- A block stores the same after both sequences of lines if they leave the same
block number. -/
def Isolated (env : Env) (mode : ParseMode) (game : GamePatchInfo) (title : Option CString)
    (before before' body : List CString) : Prop :=
  ∀ ctx ctx', runLines env (createParseContext game mode title ()) before = some ctx →
    runLines env (createParseContext game mode title ()) before' = some ctx' →
    ctx.currentPatchNumber = ctx'.currentPatchNumber →
    emitted env ctx body = emitted env ctx' body

/-- After a sequence of lines that ends with an opening line, a block stores what its
own lines say. -/
theorem emitted_after_opening (env : Env) (mode : ParseMode) (game : GamePatchInfo)
    (title : Option CString) (before body : List CString) (line : CString)
    (hprx : env.prx = false) (halloc : ∀ n, env.alloc n = true) (hmode : mode ≠ .lowMem)
    (hopens : OpensBlock line) (hbody : ∀ line ∈ body, ¬ OpensBlock line)
    (hclean : EndsClean env mode game title before) {ctx : ParseContext Unit}
    (hrun : runLines env (createParseContext game mode title ()) (before ++ [line]) = some ctx) :
    emitted env ctx body =
      blockRecords env mode game title ctx.currentPatchNumber body := by
  rw [runLines_append] at hrun
  obtain ⟨mid, hmid, hlast⟩ := Option.bind_eq_some_iff.mp hrun
  have hlast' : processLine env mid line = some ctx := by
    rw [runLines_cons] at hlast
    obtain ⟨next, hnext, hdone⟩ := Option.bind_eq_some_iff.mp hlast
    obtain rfl := Option.some.inj hdone
    exact hnext
  rw [EndsClean, hmid] at hclean
  have hstart := StoringRun.run hprx halloc hmode (StoringRun.initial ()) hmid
  rcases hstart.opens hprx halloc hmode hopens hlast' with ⟨hctx, hafter⟩
  rw [emitted_eq_blockRecords hprx halloc (hctx.mode.symm ▸ hmode) hctx.storing
    (hafter (of_decide_eq_true hclean)) body hbody, hctx.mode, hctx.gameInfo, hctx.title]

/-- Where no allocation fails and both sequences end cleanly before their last opening
line, a block stores the same after either. -/
theorem isolated_of_endsClean (env : Env) (mode : ParseMode) (game : GamePatchInfo)
    (title : Option CString) (before before' body : List CString) (line line' : CString)
    (hprx : env.prx = false) (halloc : ∀ n, env.alloc n = true) (hmode : mode ≠ .lowMem)
    (hopens : OpensBlock line) (hopens' : OpensBlock line')
    (hbody : ∀ line ∈ body, ¬ OpensBlock line) (hclean : EndsClean env mode game title before)
    (hclean' : EndsClean env mode game title before') :
    Isolated env mode game title (before ++ [line]) (before' ++ [line']) body := by
  intro ctx ctx' hrun hrun' hnumber
  rw [emitted_after_opening env mode game title before body line hprx halloc hmode hopens hbody
      hclean hrun,
    emitted_after_opening env mode game title before' body line' hprx halloc hmode hopens' hbody
      hclean' hrun', hnumber]

/-! ## An untitled block -/

/-- The lines of a block behind its opening line. -/
def bodyOf (title appVer : String) : List CString := (blockOf title appVer).tail ++ [entryLine]

/-- Two different blocks before the one that is stored. -/
theorem isolated_of_endsClean_titled :
    Isolated (hostWith []) .metadata runningGame none
      (blockOf "A" "1" ++ ["patch:".toList]) (blockOf "C" "2" ++ ["patch:".toList])
      (bodyOf "B" "1") :=
  isolated_of_endsClean _ _ _ _ _ _ _ _ _ rfl (fun _ => rfl) (by decide) (by decide +kernel)
    (by decide +kernel) (by decide +kernel) (by decide +kernel) (by decide +kernel)

/-- Lines of an untitled block that gives a name. -/
def untitledLines : List CString := ["patch:", "  name: \"x\"", "patch:"].map String.toList

/-- The name of the untitled block goes into the record of the next block. -/
theorem not_isolated :
    ¬ Isolated (hostWith []) .metadata runningGame none untitledLines ["patch:".toList]
      (bodyOf "B" "1") := by
  intro h
  have hdiffer : ((runLines (hostWith []) (createParseContext runningGame .metadata none ())
      untitledLines).any fun ctx =>
    (runLines (hostWith []) (createParseContext runningGame .metadata none ())
        ["patch:".toList]).any fun ctx' =>
      decide (ctx.currentPatchNumber = ctx'.currentPatchNumber ∧
        emitted (hostWith []) ctx (bodyOf "B" "1") ≠
          emitted (hostWith []) ctx' (bodyOf "B" "1"))) = true := by decide +kernel
  obtain ⟨ctx, hrun, hdiffer⟩ := (Option.any_eq_true _ _).mp hdiffer
  obtain ⟨ctx', hrun', hdiffer⟩ := (Option.any_eq_true _ _).mp hdiffer
  obtain ⟨hnumber, hne⟩ := of_decide_eq_true hdiffer
  exact hne (h ctx ctx' hrun hrun' hnumber)

end GamePatch
