import GamePatch.Verification.Parser.PatchNumbers
import GamePatch.Verification.Pointers.Lines

/-! # A whole run behind pointers

A context is created, the lines of a file are parsed, the context is read and freed. The run
fails where the plain parser does and nowhere else, so no block is read or freed when it is
not live; its result is the plain parser's; and of the blocks it allocates as many stay live
as the lines have lost. -/

namespace GamePatch.Pointers

open Heap
open scoped Pointwise

variable {σ : Type} {ctx : ParseContext σ} {ctx' : GamePatch.ParseContext σ}

/-! ## Parsing -/

/-- The blocks that are lost from here to the end of the file. -/
def lostLines (env : Env) : List CString → GamePatch.ParseContext σ → ℕ
  | [], ctx => lostBlock env ctx
  | line :: lines, ctx =>
      lostBy env ctx line +
        match GamePatch.processLine env ctx line with
        | none => 0
        | some ctx => lostLines env lines ctx

theorem parseLines_cons (env : Env) (ctx : ParseContext σ) (line : CString)
    (lines : List CString) : parseLines env ctx (line :: lines) =
      processLine env ctx line >>= fun ctx => parseLines env ctx lines := by
  simp only [parseLines, List.foldlM_cons, bind_assoc]

theorem plain_parseLines_cons (env : Env) (ctx : GamePatch.ParseContext σ) (line : CString)
    (lines : List CString) : GamePatch.parseLines env ctx (line :: lines) =
      GamePatch.processLine env ctx line >>= fun ctx => GamePatch.parseLines env ctx lines := by
  simp only [GamePatch.parseLines, runLines, List.foldlM_cons, bind_assoc]

theorem follows_parseLines (env : Env) (lines : List CString) :
    Follows (ctx.holds ctx') (parseLines env ctx lines) (GamePatch.parseLines env ctx' lines)
      fun ctx ctx₁' => ctx.holds ctx₁' + live Block (lostLines env lines ctx') := by
  induction lines generalizing ctx ctx' with
  | nil => exact follows_handlePatchComplete env
  | cons line lines ih =>
      rw [parseLines_cons, plain_parseLines_cons, lostLines]
      refine .bind (follows_processLine env line).known fun ctx₁ ctx₁' => ?_
      refine .of_only fun hline => ?_
      rw [hline]
      -- what the line has lost stays beside all that follows
      refine (ih.frame (live Block (lostBy env ctx' line))).mono subset_rfl fun ctx₂ ctx₂' => ?_
      rw [add_assoc, add_comm (live Block _)]
      exact Set.add_subset_add_left (live_add _ _)

/-! ## Creating a context -/

theorem follows_createArray {α γ : Type} (P : α → γ → Assertion Block) (wanted : Bool)
    (capacity : ℕ) :
    Follows 0 (createArray α wanted capacity) (some ()) fun a _ =>
      a.holds P (if wanted then .ofCapacity capacity else .empty) := by
  cases wanted with
  | false =>
      refine .pure (subset_only ⟨rfl, le_rfl⟩ (subset_only le_rfl ?_))
      exact (add_zero _).ge
  | true =>
      refine .silent (add_zero _).ge (follows_malloc (Block.array capacity)) fun p => ?_
      refine .pure ((add_zero _).subset.trans (subset_only ⟨rfl, le_rfl⟩ ?_))
      exact subset_only (Nat.zero_le _) (add_zero _).ge

theorem blankMetadata_holds : (0 : Assertion Block) ⊆ PatchMetadata.blank.holds default := by
  have htexts : metadataTexts default = [none, none, none, none, none, none] := rfl
  refine subset_only ⟨rfl, rfl, rfl, rfl, rfl⟩ (Eq.subset ?_)
  rw [htexts]
  simp [eachOptional, PatchMetadata.pointers, PatchMetadata.blank]

theorem follows_createParseContext (game : GamePatchInfo) (mode : ParseMode)
    (title : Option CString) (userData : σ) :
    Follows 0 (createParseContext game mode title userData)
      (some (GamePatch.createParseContext game mode title userData)) ParseContext.holds := by
  refine .silent (add_zero _).ge (follows_malloc (Block.array maxArrayLength)) fun titleids => ?_
  refine .silent (zero_add _).ge (follows_malloc (Block.array maxArrayLength)) fun appVer => ?_
  refine .silent (zero_add _).ge (follows_createArray PatchData.holds (mode = .all) 8)
    fun allPatches => ?_
  refine .silent (zero_add _).ge (follows_createArray PatchEntry.holds (mode = .all) 16)
    fun currentEntries => ?_
  refine .silent (zero_add _).ge (follows_createArray PatchMetadata.holds (mode = .metadata) 8)
    fun metadataArray => ?_
  refine .pure ?_
  simp only [decide_eq_true_eq]
  have htitleids : cell titleids (Block.array maxArrayLength) ⊆
      Table.holds stringAt ⟨some titleids, []⟩ maxArrayLength [] :=
    subset_only (Nat.zero_le _) (add_zero _).ge
  have hpatch : cell appVer (Block.array maxArrayLength) ⊆
      (Patch.blank (some appVer)).holds (GamePatch.Patch.blank true) := blank_holds (some appVer)
  have hcells := Set.add_subset_add hpatch (Set.add_subset_add htitleids blankMetadata_holds)
  refine (Set.add_subset_add_left (Set.add_subset_add_left
    (Set.add_subset_add_left hcells))).trans (subset_only ⟨rfl, rfl, rfl, rfl, rfl, rfl, rfl, rfl,
      rfl, rfl⟩ (Eq.subset ?_))
  rw [GamePatch.createParseContext]
  abel

/-! ## Reading it back -/

theorem reads_loadVersions (table : Table ℕ) (strs : Option (List CString)) :
    Reads (versionsAt table strs) (loadVersions table) (some strs) := by
  cases strs with
  | none =>
      refine .of_only fun htable => ?_
      rw [htable]
      exact .pure _ _
  | some strs =>
      refine .of_only fun _ => ?_
      rw [loadVersions]
      cases table.buffer with
      | none =>
          have hempty : bufferAt none maxArrayLength = ∅ := rfl
          rw [hempty, Set.empty_add]
          exact .empty
      | some p => exact .step (.right (.refl _) _) (.mapM reads_loadString _ _) (.pure _ _)

theorem reads_loadPatch (patch : Patch) (patch' : GamePatch.Patch) :
    Reads (patch.holds patch') (loadPatch patch) (some patch') := by
  refine .of_only fun hlist => ?_
  simp only [eachOptional, Patch.pointers, patchTexts, each_cons, each_nil]
  refine .step (.left (.left (.refl _) _) _) (reads_loadOptional _ _) ?_
  refine .step (.left (.right (.left (.refl _) _) _) _) (reads_loadOptional _ _) ?_
  refine .step (.left (.right (.right (.left (.refl _) _) _) _) _) (reads_loadOptional _ _) ?_
  refine .step (.left (.right (.right (.right (.left (.refl _) _) _) _) _) _)
    (reads_loadOptional _ _) ?_
  refine .step (.left (.right (.right (.right (.right (.left (.refl _) _) _) _) _) _) _)
    (reads_loadOptional _ _) ?_
  refine .step
    (.left (.right (.right (.right (.right (.right (.left (.refl _) _) _) _) _) _) _) _)
    (reads_loadOptional _ _) ?_
  refine .step (.right (.refl _) _) (reads_loadVersions _ _) ?_
  rw [hlist]
  exact .pure _ _

theorem reads_loadPatchData (data : PatchData) (data' : GamePatch.PatchData) :
    Reads (data.holds data') (loadPatchData data) (some data') := by
  refine .step (.left (.refl _) _) (reads_loadMetadata data.metadata data'.metadata) ?_
  have hentries : Has (data.holds data') (each PatchEntry.holds data.entries.elems data'.entries) :=
    .right (fun _ hm => ((Has.refl _).right _) hm.2) _
  exact .step hentries (.mapM reads_loadEntry _ _) (.pure _ _)

theorem reads_load_array {α γ : Type} {P : α → γ → Assertion Block} {loadElem : α → HeapM Block γ}
    (hload : ∀ a c, Reads (P a c) (loadElem a) (some c)) (a : GrowArray α)
    (a' : GamePatch.GrowArray γ) : Reads (a.holds P a') (a.load loadElem) (some a') := by
  refine .of_only fun hcapacity => .of_only fun _ => ?_
  refine .step (.left (.refl _) _) (reads_size a.toTable a'.allocated) ?_
  refine .step (.right (.refl _) _) (.mapM hload a.elems a'.elems) ?_
  rw [hcapacity.1]
  exact .pure _ _

theorem reads_loadContext (ctx : ParseContext σ) (ctx' : GamePatch.ParseContext σ) :
    Reads (ctx.holds ctx') (loadContext ctx) (some ctx') := by
  refine .of_only fun hsame => ?_
  have htitleids : Has (titleidsAt ctx ctx') (eachString ctx.globalTitleids.elems
      ctx'.globalTitleids) := .under _ ((Has.refl _).right _)
  refine .step (.left (.left (.left (.left (.left htitleids _) _) _) _) _)
    (.mapM reads_loadString _ _) ?_
  refine .step (.left (.left (.left (.left (.right (.refl _) _) _) _) _) _)
    (reads_loadPatch _ _) ?_
  refine .step (.left (.left (.left (.right (.refl _) _) _) _) _)
    (reads_load_array reads_loadPatchData _ _) ?_
  refine .step (.left (.left (.right (.refl _) _) _) _) (reads_load_array reads_loadEntry _ _) ?_
  refine .step (.left (.right (.refl _) _) _) (reads_load_array reads_loadMetadata _ _) ?_
  refine .step (.right (.refl _) _) (reads_loadMetadata _ _) ?_
  rw [hsame.mode, hsame.gameInfo, hsame.currentPatchNumber, hsame.inPatchesSection, hsame.title,
    hsame.metaCallback, hsame.entryCallback, hsame.userData, hsame.processingEnabledPatch,
    hsame.allocs]
  exact .pure _ _

/-! ## Freeing it -/

theorem follows_free_versions (table : Table ℕ) (strs : Option (List CString)) :
    Follows (versionsAt table strs) (table.free Heap.free) (some ()) fun _ _ => 0 := by
  cases strs with
  | none =>
      refine .of_only fun htable => ?_
      rw [htable]
      exact .pure subset_rfl
  | some strs => exact follows_free_table follows_freeString table maxArrayLength strs

theorem follows_free_array {α γ : Type} {P : α → γ → Assertion Block}
    {freeElem : α → HeapM Block Unit}
    (hfree : ∀ a c, Follows (P a c) (freeElem a) (some ()) fun _ _ => 0) (a : GrowArray α)
    (a' : GamePatch.GrowArray γ) :
    Follows (a.holds P a') (a.free freeElem) (some ()) fun _ _ => 0 :=
  .of_only fun _ => follows_free_table hfree a.toTable a'.allocated a'.elems

/-- A step that gives back all it owns. -/
theorem gives_back {A R : Assertion Block} {prog k : HeapM Block Unit}
    (h : Follows A prog (some ()) fun _ _ => 0) (hk : Follows R k (some ()) fun _ _ => 0) :
    Follows (A + R) (prog >>= fun _ => k) (some ()) fun _ _ => 0 := by
  refine .silent subset_rfl h fun _ => ?_
  rw [zero_add]
  exact hk

/-- Everything the context owns is given back. -/
theorem follows_freeParseContextData (ctx : ParseContext σ) (ctx' : GamePatch.ParseContext σ) :
    Follows (ctx.holds ctx') (freeParseContextData ctx) (some ()) fun _ _ => 0 := by
  have hfree := gives_back (follows_free_table follows_freeString ctx.globalTitleids maxArrayLength
      ctx'.globalTitleids)
    (gives_back (follows_freePatchStrings ctx.currentPatch (patchTexts ctx'.currentPatch))
    (gives_back (follows_free_versions ctx.currentPatch.appVer ctx'.currentPatch.appVer)
    (gives_back (follows_free_array follows_freeStored ctx.allPatches ctx'.allPatches)
    (gives_back (follows_free_array follows_freePatchEntry ctx.currentEntries ctx'.currentEntries)
    (gives_back
      (follows_free_array follows_freePatchMetadata ctx.metadataArray ctx'.metadataArray)
    (follows_freePatchMetadata ctx.currentMeta ctx'.currentMeta))))))
  refine hfree.mono ?_ fun _ _ => subset_rfl
  have hparts : ctx.holds ctx' ⊆ titleidsAt ctx ctx' + patchAt ctx ctx' + allPatchesAt ctx ctx' +
      entriesAt ctx ctx' + metadataAt ctx ctx' + currentMetaAt ctx ctx' := fun _ hm => hm.2
  have hpatch : patchAt ctx ctx' ⊆
      eachOptional ctx.currentPatch.pointers (patchTexts ctx'.currentPatch) +
        versionsAt ctx.currentPatch.appVer ctx'.currentPatch.appVer := fun _ hm => hm.2
  refine hparts.trans ((Set.add_subset_add_right (Set.add_subset_add_right
    (Set.add_subset_add_right (Set.add_subset_add_right (Set.add_subset_add_left
      hpatch))))).trans (Eq.subset ?_))
  abel

/-! ## The run -/

/-- The context that a run begins with. -/
def startContext (game : GamePatchInfo) (mode : ParseMode) (title : Option CString) (userData : σ)
    (metaCallback : Option (GamePatch.PatchMetadata → σ → σ))
    (entryCallback : Option (GamePatch.PatchMetadata → GamePatch.PatchEntry → σ → σ)) :
    GamePatch.ParseContext σ :=
  { GamePatch.createParseContext game mode title userData with metaCallback, entryCallback }

theorem follows_parseAndFree (env : Env) (game : GamePatchInfo) (mode : ParseMode)
    (title : Option CString) (userData : σ)
    (metaCallback : Option (GamePatch.PatchMetadata → σ → σ))
    (entryCallback : Option (GamePatch.PatchMetadata → GamePatch.PatchEntry → σ → σ))
    (lines : List CString) :
    Follows 0
      (parseAndFree env game mode title userData metaCallback entryCallback lines)
      (GamePatch.parseLines env
        (startContext game mode title userData metaCallback entryCallback) lines)
      fun seen ctx' => only (seen = ctx') (live Block (lostLines env lines
        (startContext game mode title userData metaCallback entryCallback))) := by
  refine .silent (add_zero _).ge (follows_createParseContext game mode title userData)
    fun created => ?_
  rw [add_zero]
  have hstart : created.holds (GamePatch.createParseContext game mode title userData) ⊆
      ParseContext.holds { created with metaCallback, entryCallback }
        (startContext game mode title userData metaCallback entryCallback) :=
    fun _ hm => ⟨{ hm.1 with metaCallback := rfl, entryCallback := rfl }, hm.2⟩
  refine .of_eq (bind_pure _).symm ?_
  refine .bind ((follows_parseLines env lines).mono hstart fun _ _ => subset_rfl) fun ctx ctx' => ?_
  refine .read (.left (.refl _) _) (reads_loadContext ctx ctx') ?_
  refine .silent subset_rfl (follows_freeParseContextData ctx ctx') fun _ => ?_
  exact .pure ((zero_add _).subset.trans (subset_only rfl subset_rfl))

/-- Wherever the heap stands, the run does what the plain parser does; the blocks it leaves
behind are those that its lines lose, and no other block is touched. -/
theorem parseAndFree_loses (env : Env) (game : GamePatchInfo) (mode : ParseMode)
    (title : Option CString) (userData : σ)
    (metaCallback : Option (GamePatch.PatchMetadata → σ → σ))
    (entryCallback : Option (GamePatch.PatchMetadata → GamePatch.PatchEntry → σ → σ))
    (lines : List CString) (h : Heap Block) :
    match GamePatch.parseLines env
      (startContext game mode title userData metaCallback entryCallback) lines with
    | none => parseAndFree env game mode title userData metaCallback entryCallback lines h = none
    | some ctx' => ∃ h' lost,
        parseAndFree env game mode title userData metaCallback entryCallback lines h =
          some (ctx', h') ∧
        lost.length = lostLines env lines
          (startContext game mode title userData metaCallback entryCallback) ∧
        h'.blocks.Perm (lost ++ h.blocks) := by
  have hrun := follows_parseAndFree env game mode title userData metaCallback entryCallback lines
    (h := h) rfl (zero_add _).symm
  cases hspec : GamePatch.parseLines env
      (startContext game mode title userData metaCallback entryCallback) lines with
  | none =>
      rw [hspec] at hrun
      exact hrun
  | some ctx' =>
      rw [hspec] at hrun
      rcases hrun with ⟨_, h', ⟨lost⟩, hprog, ⟨rfl, hlost⟩, hblocks⟩
      exact ⟨h', lost, hprog, hlost, Multiset.coe_eq_coe.mp hblocks⟩

theorem length_parseAndFree {last : GamePatch.ParseContext σ} (env : Env) (game : GamePatchInfo)
    (mode : ParseMode) (title : Option CString) (userData : σ)
    (metaCallback : Option (GamePatch.PatchMetadata → σ → σ))
    (entryCallback : Option (GamePatch.PatchMetadata → GamePatch.PatchEntry → σ → σ))
    (lines : List CString) (h : Heap Block)
    (hrun : GamePatch.parseLines env
      (startContext game mode title userData metaCallback entryCallback) lines = some last) :
    ∃ h', parseAndFree env game mode title userData metaCallback entryCallback lines h =
        some (last, h') ∧
      h'.blocks.length = h.blocks.length + lostLines env lines
        (startContext game mode title userData metaCallback entryCallback) := by
  have hall := follows_parseAndFree env game mode title userData metaCallback entryCallback lines
    (h := h) rfl (zero_add _).symm
  rw [hrun] at hall
  obtain ⟨_, h', lost, hprog, ⟨rfl, hlost⟩, hblocks⟩ := hall
  refine ⟨h', hprog, ?_⟩
  rw [← Multiset.coe_card h'.blocks, hblocks, Multiset.card_add, Multiset.coe_card, add_comm]
  exact congrArg (_ + ·) hlost

/-! ## The blocks of a file -/

/-- Whether the block that the lines `seen` leave open has a title. -/
def Titled (seen : List CString) : Prop := lastValue .title (openBlock seen) ≠ none

instance (seen : List CString) : Decidable (Titled seen) :=
  inferInstanceAs (Decidable (_ ≠ _))

/-- The blocks with a title that the rest of a file completes. -/
def completedBlocks : List CString → List CString → ℕ
  | seen, [] => if Titled seen then 1 else 0
  | seen, line :: lines =>
      (if OpensBlock line ∧ Titled seen then 1 else 0) + completedBlocks (seen ++ [line]) lines

variable {env : Env} {start ctx' last' : GamePatch.ParseContext σ} {seen lines : List CString}

theorem lostTable_eq_one (h : ReadsBlock start seen ctx') :
    lostTable ctx'.currentPatch = 1 := by
  have hstored := ownPatch_appVer_isSome true (openBlock seen)
  rw [← h.currentPatch] at hstored
  obtain ⟨strs, hstrs⟩ := Option.isSome_iff_exists.mp hstored
  rw [lostTable, hstrs]
  rfl

/-- A completed block loses its version array. -/
theorem titled_le_lostBlock (halloc : ∀ n, env.alloc n = true) (h : ReadsBlock start seen ctx')
    (hdone : GamePatch.handlePatchComplete env ctx' = some last') :
    (if Titled seen then 1 else 0) ≤ lostBlock env ctx' := by
  by_cases htitled : Titled seen
  · have htitle : ctx'.currentPatch.title ≠ none := by rwa [h.title_eq]
    rw [GamePatch.handlePatchComplete, if_neg htitle] at hdone
    obtain ⟨flow, hflow, -⟩ := Option.bind_eq_some_iff.mp hdone
    obtain ⟨mid, rfl, -⟩ := completeVersions_next halloc hflow
    rw [if_pos htitled, lostBlock, if_neg htitle, hflow]
    exact (lostTable_eq_one h).ge.trans (Nat.le_add_left _ _)
  · rw [if_neg htitled]
    exact Nat.zero_le _

theorem completedBlocks_le_lostLines (halloc : ∀ n, env.alloc n = true)
    (h : ReadsBlock start seen ctx') (hrun : GamePatch.parseLines env ctx' lines = some last') :
    completedBlocks seen lines ≤ lostLines env lines ctx' := by
  induction lines generalizing seen ctx' with
  | nil => exact titled_le_lostBlock halloc h hrun
  | cons line lines ih =>
      rw [plain_parseLines_cons] at hrun
      obtain ⟨mid, hline, hrest⟩ := Option.bind_eq_some_iff.mp hrun
      rw [completedBlocks, lostLines, hline]
      refine Nat.add_le_add ?_ (ih (h.step halloc hline) hrest)
      by_cases hopens : OpensBlock line
      · rw [lostBy, hopens.lineKind_eq]
        rw [processLine_patch (hopens.lineKind_eq _)] at hline
        simpa only [hopens, true_and] using titled_le_lostBlock halloc h hline
      · rw [if_neg fun hboth => hopens hboth.1]
        exact Nat.zero_le _

/-- Where the arrays can be had, every block that a file completes leaves its version array
behind. -/
theorem parseAndFree_leaks (halloc : ∀ n, env.alloc n = true) (game : GamePatchInfo)
    (mode : ParseMode) (title : Option CString) (userData : σ)
    (metaCallback : Option (GamePatch.PatchMetadata → σ → σ))
    (entryCallback : Option (GamePatch.PatchMetadata → GamePatch.PatchEntry → σ → σ))
    (lines : List CString) (h : Heap Block)
    (hrun : GamePatch.parseLines env
      (startContext game mode title userData metaCallback entryCallback) lines = some last') :
    ∃ h', parseAndFree env game mode title userData metaCallback entryCallback lines h =
        some (last', h') ∧
      h.blocks.length + completedBlocks [] lines ≤ h'.blocks.length := by
  obtain ⟨h', hprog, hlength⟩ := length_parseAndFree env game mode title userData metaCallback
    entryCallback lines h hrun
  have hstart : ReadsBlock (startContext game mode title userData metaCallback entryCallback) []
      (startContext game mode title userData metaCallback entryCallback) := ⟨rfl, rfl, rfl, rfl⟩
  refine ⟨h', hprog, ?_⟩
  rw [hlength]
  exact Nat.add_le_add_left (completedBlocks_le_lostLines halloc hstart hrun) _

theorem parseAndFree_leaks_threeBlocks :
    ∃ seen h', parseAndFree { hostWith [] with sizeBits := 64 } runningGame .metadata none () none
        none threeBlockLines Heap.empty = some (seen, h') ∧ 2 ≤ h'.blocks.length := by
  have hsome : (GamePatch.parseLines { hostWith [] with sizeBits := 64 }
      (startContext runningGame .metadata none () none none) threeBlockLines).isSome = true := by
    decide +kernel
  have htwo : completedBlocks [] threeBlockLines = 2 := by decide +kernel
  obtain ⟨last, hrun⟩ := Option.isSome_iff_exists.mp hsome
  obtain ⟨h', hprog, hle⟩ := parseAndFree_leaks (fun _ => rfl) runningGame .metadata none () none
    none threeBlockLines Heap.empty hrun
  refine ⟨last, h', hprog, ?_⟩
  rw [htwo] at hle
  exact (Nat.le_add_left _ _).trans hle

end GamePatch.Pointers
