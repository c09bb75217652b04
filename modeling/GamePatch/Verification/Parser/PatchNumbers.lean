import GamePatch.Verification.Parser.Identity

/-! # Patch numbers

A record is numbered by its block and by the place of its version. The numbers of
a file go up, since a block has fewer than a hundred versions and the block count
moves on with every block that leaves records. -/

namespace GamePatch

variable {σ : Type} {env : Env} {ctx ctx' : ParseContext σ} {line : CString} {blocks : ℕ}

/-- The numbers of the records stored. -/
def ParseContext.patchNumbers (ctx : ParseContext σ) : List ℕ :=
  ctx.metadataArray.elems.map (·.patchNumber)

/-- The context after at most `blocks` blocks. -/
structure Numbered (blocks : ℕ) (ctx : ParseContext σ) : Prop where
  mode : ctx.mode = .metadata
  array : ctx.metadataArray.WellFormed
  appVers : ctx.currentPatch.appVers.length ≤ maxArrayLength
  number : ctx.currentPatchNumber ≤ blocks
  increasing : ctx.patchNumbers.Pairwise (· < ·)
  below : ∀ n ∈ ctx.patchNumbers, n < ctx.currentPatchNumber * 100

/-! ## One block -/

theorem Patch.pairwise_versions (patch : Patch) :
    (patch.versions.map (·.2)).Pairwise (· < ·) := by
  unfold versions
  split
  · simp
  · rw [List.zipIdx_map_snd]
    exact List.pairwise_lt_range'

/-- The numbers that the block being read would give its records. -/
def ParseContext.ownNumbers (ctx : ParseContext σ) : List ℕ :=
  ctx.currentPatch.versions.map fun v => ctx.currentPatchNumber * 100 + v.2

theorem ParseContext.pairwise_ownNumbers (ctx : ParseContext σ) :
    ctx.ownNumbers.Pairwise (· < ·) := by
  have h := ctx.currentPatch.pairwise_versions
  rw [List.pairwise_map] at h
  rw [ownNumbers, List.pairwise_map]
  exact h.imp fun hlt => Nat.add_lt_add_left hlt _

theorem Numbered.mem_ownNumbers (h : Numbered blocks ctx) {n : ℕ} (hn : n ∈ ctx.ownNumbers) :
    ctx.currentPatchNumber * 100 ≤ n ∧ n < (ctx.currentPatchNumber + 1) * 100 := by
  rcases List.mem_map.mp hn with ⟨v, hv, rfl⟩
  have hindex := Patch.index_lt_of_mem_versions h.appVers hv
  omega

/-- The sum fits a `size_t` as long as the next block's numbers do. -/
theorem Numbered.storedMetadata_numbers (h : Numbered blocks ctx)
    (hsize : (blocks + 1) * 100 ≤ 2 ^ env.sizeBits) :
    (ctx.mode.storedMetadata env ctx.gameInfo ctx.currentPatchNumber ctx.currentPatch
      ctx.currentPatch.versions).map (·.patchNumber) = ctx.ownNumbers := by
  rw [ParseMode.storedMetadata, if_pos h.mode, List.map_map, ParseContext.ownNumbers]
  apply List.map_congr_left
  intro v hv
  have hindex := Patch.index_lt_of_mem_versions h.appVers hv
  have hnumber := h.number
  show env.sizeT (ctx.currentPatchNumber * 100 + v.2) = _
  exact Nat.mod_eq_of_lt (by omega)

/-- What the completion of a block with a title leaves. The console build stores
nothing. -/
theorem Numbered.complete_titled (h : Numbered blocks ctx) (halloc : ∀ n, env.alloc n = true)
    (htitle : ctx.currentPatch.title ≠ none) (hdone : handlePatchComplete env ctx = some ctx') :
    ctx'.mode = .metadata ∧ ctx'.metadataArray.WellFormed ∧
      ctx'.currentPatch = Patch.blank true ∧
      ctx'.currentPatchNumber = env.sizeT (ctx.currentPatchNumber + 1) ∧
      (ctx'.metadataArray.elems = ctx.metadataArray.elems ∨ ctx'.metadataArray.elems =
        ctx.metadataArray.elems ++ ctx.mode.storedMetadata env ctx.gameInfo
          ctx.currentPatchNumber ctx.currentPatch ctx.currentPatch.versions) := by
  cases hprx : env.prx with
  | true =>
      rw [handlePatchComplete, if_neg htitle, completeVersions_prx hprx] at hdone
      simp only [Option.bind_eq_bind, Option.bind_some] at hdone
      cases hdone
      refine ⟨h.mode, h.array, ?_, rfl, .inl rfl⟩
      simp [resetCurrentPatch, halloc]
  | false =>
      have hmode : ctx.mode ≠ .lowMem := by simp [h.mode]
      have hstoring : Storing ctx :=
        ⟨by simp [h.mode], by simp [h.mode], fun _ => h.array⟩
      rcases handlePatchComplete_stores hprx halloc hmode hstoring htitle with
        ⟨hdefined, hundefined⟩
      by_cases hcompletes : ctx.CompletionDefined env
      · rcases hdefined hcompletes with ⟨last, hlast, hstored⟩
        obtain rfl : last = ctx' := Option.some.inj (hlast.symm.trans hdone)
        have hmode' := hstored.mode.trans h.mode
        exact ⟨hmode', hstored.storing.metadata hmode', hstored.patch, hstored.number,
          .inr hstored.metadata⟩
      · rw [hundefined hcompletes] at hdone
        cases hdone

/-- A completed block moves the count on and leaves numbers below it. -/
theorem Numbered.complete (h : Numbered blocks ctx) (halloc : ∀ n, env.alloc n = true)
    (hsize : (blocks + 1) * 100 ≤ 2 ^ env.sizeBits)
    (hdone : handlePatchComplete env ctx = some ctx') : Numbered (blocks + 1) ctx' := by
  have hnumber := h.number
  by_cases htitle : ctx.currentPatch.title = none
  · -- the early return leaves the count and the records
    rw [handlePatchComplete_untitled htitle] at hdone
    cases hdone
    exact ⟨h.mode, h.array, h.appVers, by omega, h.increasing, h.below⟩
  rcases h.complete_titled halloc htitle hdone with ⟨hmode, harray, hpatch, hnext, hrecords⟩
  have hcount : ctx'.currentPatchNumber = ctx.currentPatchNumber + 1 :=
    hnext.trans (Nat.mod_eq_of_lt (by omega))
  have happVers : ctx'.currentPatch.appVers.length ≤ maxArrayLength := by
    simp [hpatch, Patch.blank, Patch.appVers]
  rcases hrecords with hsame | hmore
  · have hnumbers : ctx'.patchNumbers = ctx.patchNumbers := by
      rw [ParseContext.patchNumbers, hsame, ParseContext.patchNumbers]
    refine ⟨hmode, harray, happVers, by omega, ?_, ?_⟩
    · rw [hnumbers]
      exact h.increasing
    · rw [hnumbers, hcount]
      intro n hn
      have hbelow := h.below n hn
      omega
  · have hnumbers : ctx'.patchNumbers = ctx.patchNumbers ++ ctx.ownNumbers := by
      rw [ParseContext.patchNumbers, hmore, List.map_append, h.storedMetadata_numbers hsize,
        ParseContext.patchNumbers]
    refine ⟨hmode, harray, happVers, by omega, ?_, ?_⟩
    · rw [hnumbers, List.pairwise_append]
      refine ⟨h.increasing, ctx.pairwise_ownNumbers, ?_⟩
      intro n hn m hm
      exact Nat.lt_of_lt_of_le (h.below n hn) (h.mem_ownNumbers hm).1
    · rw [hnumbers, hcount]
      intro n hn
      rcases List.mem_append.mp hn with hold | hown
      · have hbelow := h.below n hold
        omega
      · exact (h.mem_ownNumbers hown).2

/-! ## A whole file -/

theorem Numbered.inside (h : Numbered blocks ctx) (hopens : ¬ OpensBlock line)
    (hline : processLine env ctx line = some ctx') : Numbered blocks ctx' := by
  have hinside := processLine_insideBlock hopens hline
  have hnumbers : ctx'.patchNumbers = ctx.patchNumbers := by
    rw [ParseContext.patchNumbers, hinside.metadataArray, ParseContext.patchNumbers]
  refine ⟨hinside.mode.trans h.mode, ?_, ?_, ?_, ?_, ?_⟩
  · rw [hinside.metadataArray]
    exact h.array
  · rw [hinside.currentPatch]
    exact Patch.length_readLine_appVers h.appVers line
  · rw [hinside.currentPatchNumber]
    exact h.number
  · rw [hnumbers]
    exact h.increasing
  · rw [hnumbers, hinside.currentPatchNumber]
    exact h.below

/-- The lines of a file, a block ending at each `patch:` line. -/
theorem Numbered.runLines (halloc : ∀ n, env.alloc n = true) (lines : List CString) :
    ∀ {blocks} {ctx : ParseContext σ}, Numbered blocks ctx →
      (blocks + lines.countP (fun line => decide (OpensBlock line))) * 100 ≤ 2 ^ env.sizeBits →
      runLines env ctx lines = some ctx' →
      Numbered (blocks + lines.countP fun line => decide (OpensBlock line)) ctx' := by
  induction lines with
  | nil =>
      intro blocks ctx h _ hrun
      obtain rfl : ctx = ctx' := by simpa [GamePatch.runLines] using hrun
      exact h
  | cons line lines ih =>
      intro blocks ctx h hsize hrun
      rcases Runs.foldlM_cons_eq_some.mp hrun with ⟨mid, hline, hrest⟩
      rw [List.countP_cons] at hsize ⊢
      by_cases hopens : OpensBlock line
      · rw [if_pos (decide_eq_true hopens)] at hsize ⊢
        rw [processLine_patch (hopens.lineKind_eq _)] at hline
        have hmid := h.complete halloc (by omega) hline
        rw [Nat.add_comm _ 1, ← Nat.add_assoc] at hsize ⊢
        exact ih hmid hsize hrest
      · rw [if_neg (by simp [hopens])] at hsize ⊢
        exact ih (h.inside hopens hline) hsize hrest

theorem numbered_createParseContext (game : GamePatchInfo) (title : Option CString) (data : σ) :
    Numbered 0 (createParseContext game .metadata title data) where
  mode := rfl
  array := GrowArray.wellFormed_ofCapacity (n := 8) (by decide)
  appVers := Nat.zero_le _
  number := Nat.le_refl 0
  increasing := .nil
  below := by simp [ParseContext.patchNumbers, createParseContext, GrowArray.ofCapacity]

/-- The records of a file have rising numbers, whatever its lines say. The numbers of
2 ^ 57 blocks fit a `size_t` of 64 bits. -/
theorem patchNumbers_increasing (halloc : ∀ n, env.alloc n = true) (hsize : 64 ≤ env.sizeBits)
    (game : GamePatchInfo) (title : Option CString) (data : σ) (lines : List CString)
    (hblocks : lines.countP (fun line => decide (OpensBlock line)) < 2 ^ 57)
    (hrun : parseLines env (createParseContext game .metadata title data) lines = some ctx) :
    (ctx.metadataArray.elems.map (·.patchNumber)).Pairwise (· < ·) ∧
      (ctx.metadataArray.elems.map (·.patchNumber)).Nodup := by
  have hfits : 2 ^ 64 ≤ 2 ^ env.sizeBits := Nat.pow_le_pow_right (by decide) hsize
  rcases Option.bind_eq_some_iff.mp hrun with ⟨mid, hlines, hdone⟩
  have hmid := Numbered.runLines halloc lines (numbered_createParseContext game title data)
    (by omega) hlines
  have hend := hmid.complete halloc (by omega) hdone
  exact ⟨hend.increasing, hend.increasing.imp Nat.ne_of_lt⟩

/-- A block without a title, one with two versions and one with none. -/
def threeBlockLines : List CString :=
  ["- patch:".toList, "  name: \"a\"".toList, "- patch:".toList, "  title: \"a\"".toList,
    "  app_bin: \"b\"".toList, "  app_ver: [ \"1\", \"2\" ]".toList, "- patch:".toList,
    "  title: \"a\"".toList, "  app_bin: \"b\"".toList]

theorem patchNumbers_increasing_threeBlocks :
    ∃ ctx, parseLines { hostWith [] with sizeBits := 64 }
      (createParseContext runningGame .metadata none ()) threeBlockLines = some ctx ∧
      ctx.metadataArray.elems.length = 3 ∧
      (ctx.metadataArray.elems.map (·.patchNumber)).Pairwise (· < ·) ∧
      (ctx.metadataArray.elems.map (·.patchNumber)).Nodup := by
  have hlength : (parseLines { hostWith [] with sizeBits := 64 }
      (createParseContext runningGame .metadata none ()) threeBlockLines).map
        (fun ctx => ctx.metadataArray.elems.length) = some 3 := by decide +kernel
  rcases Option.map_eq_some_iff.mp hlength with ⟨ctx, hrun, hthree⟩
  have hblocks : threeBlockLines.countP (fun line => decide (OpensBlock line)) = 3 := by decide
  exact ⟨ctx, hrun, hthree, patchNumbers_increasing (fun _ => rfl) (Nat.le_refl 64) runningGame
    none () threeBlockLines (by rw [hblocks]; norm_num) hrun⟩

end GamePatch
