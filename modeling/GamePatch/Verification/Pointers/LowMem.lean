import GamePatch.Verification.Pointers.Run

/-! # What the game's parser loses

In `PARSE_MODE_LOW_MEM`, in which the game reads its patch file, the blocks that a run leaves
behind can be counted on the lines of the file. -/

namespace GamePatch.Pointers

variable {σ : Type} {env : Env} {start ctx ctx' last : GamePatch.ParseContext σ}
  {seen lines : List CString} {line : CString}

/-! ## The state that a line meets -/

/-- Whether the open block has come to its `patches:` line. -/
def inPatches (seen : List CString) : Bool :=
  (openBlock seen).any fun line => decide (OpensEntries line)

/-- A `titleid:` line with a list. -/
def ListsTitleids (line : CString) : Bool :=
  decide (lineKind false line = .titleid) && isListValue (trim line)

/-- What the last such line has stored. -/
def listedTitleids (seen : List CString) : List CString :=
  (seen.filter ListsTitleids).getLast?.elim [] fun line =>
    parseStringList (trim line) maxArrayLength

theorem listedTitleids_append_singleton (seen : List CString) (line : CString) :
    listedTitleids (seen ++ [line]) =
      if ListsTitleids line then parseStringList (trim line) maxArrayLength
      else listedTitleids seen := by
  rw [listedTitleids, List.filter_append]
  by_cases hlists : ListsTitleids line = true
  · rw [if_pos hlists, List.filter_cons_of_pos hlists, List.filter_nil, List.getLast?_concat,
      Option.elim_some]
  · rw [if_neg hlists, List.filter_cons_of_neg hlists, List.filter_nil, List.append_nil,
      listedTitleids]

theorem keepsTitleids_processLine (hmode : ctx.mode = .lowMem)
    (hkind : lineKind ctx.inPatchesSection line ≠ .titleid)
    (h : GamePatch.processLine env ctx line = some ctx') :
    ctx'.globalTitleids = ctx.globalTitleids := by
  cases hline : lineKind ctx.inPatchesSection line with
  | titleid => exact absurd hline hkind
  | ignored =>
      rw [processLine_ignored hline] at h
      cases h
      rfl
  | patch =>
      rw [processLine_patch hline] at h
      by_cases htitle : ctx.currentPatch.title = none
      · rw [handlePatchComplete_untitled htitle] at h
        cases h
        rfl
      · -- the table of ids outlives the block
        rw [handlePatchComplete_lowMem hmode htitle] at h
        cases h
        rfl
  | key k =>
      rw [processLine_key hline] at h
      cases h
      rfl
  | appVer =>
      rw [processLine_appVer hline] at h
      cases h
      rfl
  | patches =>
      rw [processLine_patches hline, if_pos hmode] at h
      obtain ⟨data, kept, enabled, rfl⟩ := announceVersions_frame h
      rfl
  | entry =>
      rw [processLine_entry hline] at h
      obtain ⟨data, entries, allocs, rfl⟩ := processEntry_frame h
      rfl
  | other =>
      simp only [GamePatch.processLine, hline] at h
      cases h
      rfl

theorem globalTitleids_processLine (hmode : ctx.mode = .lowMem)
    (h : GamePatch.processLine env ctx line = some ctx') :
    ctx'.globalTitleids =
      if ListsTitleids line then parseStringList (trim line) maxArrayLength
      else ctx.globalTitleids := by
  have hiff : lineKind ctx.inPatchesSection line = .titleid ↔ lineKind false line = .titleid :=
    lineKind_eq_iff (by simp) (by simp)
  by_cases hkind : lineKind ctx.inPatchesSection line = .titleid
  · have hlists : ListsTitleids line = isListValue (trim line) := by
      simp [ListsTitleids, hiff.mp hkind]
    rw [hlists]
    by_cases hlist : isListValue (trim line) = true
    · simp only [GamePatch.processLine, hkind, if_pos hlist] at h
      cases h
      rw [if_pos hlist]
    · simp only [GamePatch.processLine, hkind, if_neg hlist] at h
      cases h
      rw [if_neg hlist]
  · have hlists : ¬ ListsTitleids line = true := by
      simp [ListsTitleids, hiff.not.mp hkind]
    rw [if_neg hlists]
    exact keepsTitleids_processLine hmode hkind h

/-- Everything that decides what a line loses is what the lines before it say. -/
structure ReadsText (start : GamePatch.ParseContext σ) (seen : List CString)
    (ctx : GamePatch.ParseContext σ) : Prop where
  block : ReadsBlock start seen ctx
  inPatchesSection : ctx.inPatchesSection = inPatches seen
  globalTitleids : ctx.globalTitleids = listedTitleids seen

theorem inPatchesSection_processLine (hmode : ctx.mode = .lowMem) (h : ReadsText start seen ctx)
    (hline : GamePatch.processLine env ctx line = some ctx') :
    ctx'.inPatchesSection = inPatches (seen ++ [line]) := by
  rw [inPatches, openBlock_append_singleton]
  by_cases hopens : OpensBlock line
  · rw [processLine_patch (hopens.lineKind_eq _)] at hline
    rw [if_pos hopens, ← h.block.title_eq]
    by_cases htitle : ctx.currentPatch.title = none
    · rw [handlePatchComplete_untitled htitle] at hline
      cases hline
      rw [if_pos htitle]
      exact h.inPatchesSection
    · rw [handlePatchComplete_lowMem hmode htitle] at hline
      cases hline
      rw [if_neg htitle]
      rfl
  · rw [if_neg hopens, (processLine_insideBlock hopens hline).inPatchesSection,
      h.inPatchesSection, inPatches, List.any_append]
    simp

theorem ReadsText.step (halloc : ∀ n, env.alloc n = true) (hmode : ctx.mode = .lowMem)
    (h : ReadsText start seen ctx) (hline : GamePatch.processLine env ctx line = some ctx') :
    ReadsText start (seen ++ [line]) ctx' where
  block := h.block.step halloc hline
  inPatchesSection := inPatchesSection_processLine hmode h hline
  globalTitleids := by
    rw [globalTitleids_processLine hmode hline, listedTitleids_append_singleton,
      h.globalTitleids]

/-! ## What a line loses -/

/-- The blocks that the line after `seen` loses. -/
def lostText (seen : List CString) (line : CString) : ℕ :=
  match lineKind (inPatches seen) line with
  | .titleid => if isListValue (trim line) then (listedTitleids seen).length else 0
  | .patch => if Titled seen then 1 else 0
  | .key k => (lastValue k (openBlock seen)).toList.length
  | .appVer => (lastVersions (openBlock seen)).length
  | .entry =>
      let entry := GamePatch.parsePatchEntry ((trim line).drop 2)
      if entry.params.length < minPatchParams then entry.params.length else 0
  | .ignored | .patches | .other => 0

/-- The blocks that the rest of a file loses. -/
def lostFile : List CString → List CString → ℕ
  | seen, [] => if Titled seen then 1 else 0
  | seen, line :: lines => lostText seen line + lostFile (seen ++ [line]) lines

theorem lostVersions_lowMem (hmode : ctx.mode = .lowMem) (vs : List (Option CString × ℕ)) :
    lostVersions env vs ctx = 0 := by
  induction vs with
  | nil => rfl
  | cons v vs ih =>
      have hround : GamePatch.completeVersion env ctx v.1 v.2 = some (.next ctx) := by
        unfold GamePatch.completeVersion
        rw [hmode]
        split
        · rfl
        · rfl
      have hlost : lostVersion env ctx v.1 = 0 := if_neg (by simp [hmode])
      rw [lostVersions, hlost, hround, zero_add]
      exact ih

theorem lostBlock_lowMem (hmode : ctx.mode = .lowMem) (h : ReadsBlock start seen ctx) :
    lostBlock env ctx = if Titled seen then 1 else 0 := by
  rw [lostBlock]
  by_cases htitle : ctx.currentPatch.title = none
  · have huntitled : ¬ Titled seen := fun htitled => htitled (h.title_eq ▸ htitle)
    rw [if_pos htitle, if_neg huntitled]
  · have htitled : Titled seen := fun hnone => htitle (h.title_eq.trans hnone)
    rw [if_neg htitle, if_pos htitled, lostVersions_lowMem hmode, completeVersions_lowMem hmode,
      zero_add]
    exact lostTable_eq_one h

theorem lostBy_lowMem (hmode : ctx.mode = .lowMem) (h : ReadsText start seen ctx) :
    lostBy env ctx line = lostText seen line := by
  rw [lostBy, lostText, h.inPatchesSection, h.globalTitleids]
  cases lineKind (inPatches seen) line with
  | patch => exact lostBlock_lowMem hmode h.block
  | key k => simp only [h.block.currentPatch, value_ownPatch]
  | appVer => simp only [h.block.currentPatch, appVers_ownPatch]
  | entry => simp [lostEntry, hmode]
  | titleid | ignored | patches | other => rfl

theorem lostLines_lowMem (halloc : ∀ n, env.alloc n = true) (hmode : ctx.mode = .lowMem)
    (h : ReadsText start seen ctx) (hrun : GamePatch.parseLines env ctx lines = some last) :
    lostLines env lines ctx = lostFile seen lines := by
  induction lines generalizing seen ctx with
  | nil => exact lostBlock_lowMem hmode h.block
  | cons line lines ih =>
      rw [plain_parseLines_cons] at hrun
      obtain ⟨mid, hline, hrest⟩ := Option.bind_eq_some_iff.mp hrun
      have hmid := h.step halloc hmode hline
      have hmode' : mid.mode = .lowMem :=
        (hmid.block.mode.trans h.block.mode.symm).trans hmode
      rw [lostLines, lostFile, hline, lostBy_lowMem hmode h]
      exact congrArg (_ + ·) (ih hmode' hmid hrest)

/-- What the game's run over a file leaves behind is counted on the lines of the file. -/
theorem parseAndFree_lowMem (halloc : ∀ n, env.alloc n = true) (game : GamePatchInfo)
    (title : Option CString) (userData : σ)
    (metaCallback : Option (GamePatch.PatchMetadata → σ → σ))
    (entryCallback : Option (GamePatch.PatchMetadata → GamePatch.PatchEntry → σ → σ))
    (lines : List CString) (h : Heap Block)
    (hrun : GamePatch.parseLines env
      (startContext game .lowMem title userData metaCallback entryCallback) lines = some last) :
    ∃ h', parseAndFree env game .lowMem title userData metaCallback entryCallback lines h =
        some (last, h') ∧
      h'.blocks.length = h.blocks.length + lostFile [] lines := by
  obtain ⟨h', hprog, hlength⟩ := length_parseAndFree env game .lowMem title userData metaCallback
    entryCallback lines h hrun
  have hblock : ReadsBlock
      (startContext game .lowMem title userData metaCallback entryCallback) []
      (startContext game .lowMem title userData metaCallback entryCallback) := ⟨rfl, rfl, rfl, rfl⟩
  refine ⟨h', hprog, ?_⟩
  rw [hlength, lostLines_lowMem halloc rfl ⟨hblock, rfl, rfl⟩ hrun]

/-- A second list of titles, a second title, a second list of versions, and an entry of
two parameters. -/
def leakingLines : List CString :=
  ["titleid: [ \"X\", \"Y\" ]", "titleid: [ \"Z\" ]", "patch:", "  title: \"A\"",
    "  title: \"B\"", "  app_bin: \"EBOOT\"", "  app_ver: [ \"1\", \"2\" ]", "  app_ver: \"1\"",
    "  patches:", "    - [ \"be32\", \"0x10\" ]"].map String.toList

/-- Two ids, one title, two versions, two parameters and the version array are lost. -/
theorem parseAndFree_lowMem_leakingLines :
    ∃ seen h', parseAndFree (consoleWith [] []) runningGame .lowMem none () none none
      leakingLines Heap.empty = some (seen, h') ∧ h'.blocks.length = 8 := by
  have hsome : (GamePatch.parseLines (consoleWith [] [])
      (startContext runningGame .lowMem none () none none) leakingLines).isSome = true := by
    decide +kernel
  have hlost : lostFile [] leakingLines = 2 + 1 + 2 + 2 + 1 := by decide +kernel
  obtain ⟨last, hrun⟩ := Option.isSome_iff_exists.mp hsome
  obtain ⟨h', hprog, hlength⟩ := parseAndFree_lowMem (fun _ => rfl) runningGame none () none none
    leakingLines Heap.empty hrun
  refine ⟨last, h', hprog, ?_⟩
  rw [hlength, hlost]
  rfl

end GamePatch.Pointers
