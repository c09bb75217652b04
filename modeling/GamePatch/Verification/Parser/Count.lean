import GamePatch.Verification.Parser.Complete

/-! # The number of patches reported

`run_patch` counts the metadata announced to it, which are those of matching
versions, switched on or not. The patches applied are the wanted blocks. -/

namespace GamePatch

open Parts

variable {ω : Type} {env : Env} {info : GamePatchInfo} {i : ℕ}

/-- The number of wanted blocks of a file. -/
def PatchFile.wantedCount (env : Env) (info : GamePatchInfo) (file : PatchFile) : ℕ :=
  file.blocks.zipIdx.countP fun p => decide (p.1.Wanted env info p.2)

/-- The report that `n` patches were applied. -/
structure Reports (n : ℕ) (report : RunReport ω) : Prop where
  count : report.count = n
  notice : report.notice =
    if 0 < n then .write ((appliedMessage n).take 63) else .delete
  result : report.result = if 0 < n then 0 else 1

/-- `run_patch` reports the number of wanted blocks. -/
def PatchFile.ReportsWanted (env : Env) (applyPatch : PatchEntry → ω → ω) (info : GamePatchInfo)
    (file : PatchFile) (game : ω) : Prop :=
  ∃ report, runPatch env applyPatch info (some file.lines) game = some report ∧
    Reports (file.wantedCount env info) report

theorem reports_reportOf_iff {n : ℕ} {data : RunData ω} :
    Reports n (reportOf 0 data) ↔ data.count = n := by
  constructor
  · intro h
    exact h.count
  · rintro rfl
    refine ⟨rfl, ?_, rfl⟩
    by_cases hpos : 0 < data.count
    · simp [reportOf, hpos]
    · have hzero : data.count = 0 := Nat.eq_zero_of_not_pos hpos
      simp [reportOf, hzero]

/-- The versions that match are the occurrences of the game's version. -/
theorem Block.length_hits (b : Block) (hversioned : info.appVer ≠ []) :
    (b.hits env info i).length = (b.patch env i).appVers.count info.appVer := by
  have hmatch : ∀ w : CString, patchMatchesGame info (some w) = (w == info.appVer) := by
    intro w
    rw [Bool.eq_iff_iff, patchMatchesGame_iff]
    simp [hversioned]
  rw [hits, metas, List.filter_map, List.length_map, ← List.countP_eq_length_filter]
  have hfst : ∀ vs : List (Option CString × ℕ),
      vs.countP ((fun metadata => metadata.matchesGame) ∘
        versionMetadata env info (env.sizeT i) (b.patch env i)) =
      (vs.map Prod.fst).countP (patchMatchesGame info) := by
    intro vs
    rw [List.countP_map]
    rfl
  rw [hfst, Patch.versions]
  cases (b.patch env i).appVers with
  | nil => simp [patchMatchesGame]
  | cons u us =>
      rw [List.zipIdx_map_fst, List.countP_map, List.count]
      exact List.countP_congr fun w _ => by simp [hmatch]

theorem Block.Wanted.mem_appVers {b : Block} (h : b.Wanted env info i) :
    info.appVer ∈ (b.patch env i).appVers := by
  rcases h with ⟨⟨appVer, k⟩, hv, hver, -⟩
  obtain rfl : appVer = some info.appVer := hver
  exact List.mem_of_getElem? (Patch.mem_versions.mp hv)

/-- What the count of a block would have to be. -/
theorem Block.length_hits_eq_iff (b : Block) :
    ((b.hits env info i).length = if b.Wanted env info i then 1 else 0) ↔
      if info.appVer = [] then ¬ b.Wanted env info i
      else (b.patch env i).appVers.count info.appVer ≤ 1 ∧
        (info.appVer ∈ (b.patch env i).appVers → b.Wanted env info i) := by
  by_cases hversioned : info.appVer = []
  · rw [b.hits_of_unversioned hversioned, if_pos hversioned]
    by_cases hwanted : b.Wanted env info i <;> simp [hwanted]
  · rw [b.length_hits hversioned, if_neg hversioned]
    by_cases hmem : info.appVer ∈ (b.patch env i).appVers
    · have hpos : 0 < (b.patch env i).appVers.count info.appVer := List.count_pos_iff.mpr hmem
      by_cases hwanted : b.Wanted env info i
      · simp only [hwanted, if_true, hmem, implies_true, and_true]
        omega
      · simp only [hwanted, if_false, hmem, true_implies, and_false, iff_false]
        omega
    · have hwanted : ¬ b.Wanted env info i := fun h => hmem h.mem_appVers
      simp [List.count_eq_zero_of_not_mem hmem, hwanted, hmem]

/-- The run succeeds exactly where no lookup goes wrong, and then reports what was
announced. -/
theorem PatchFile.runPatch_lines (file : PatchFile) (env : Env)
    (applyPatch : PatchEntry → ω → ω) (info : GamePatchInfo) (game : ω) (hprx : env.prx = true) :
    ((∀ p ∈ file.blocks.zipIdx, p.1.LookupsDefined env info p.2) →
      ∃ data : RunData ω, runPatch env applyPatch info (some file.lines) game =
        some (reportOf 0 data) ∧
        data.count = (file.blocks.zipIdx.map fun p => (p.1.hits env info p.2).length).sum) ∧
    ((∃ p ∈ file.blocks.zipIdx, ¬ p.1.LookupsDefined env info p.2) →
      runPatch env applyPatch info (some file.lines) game = none) := by
  obtain ⟨start, hpreamble, hstart, hread, hdata, -⟩ :=
    file.preamble_run env applyPatch info game
  obtain ⟨hdefined, hundefined⟩ := blocks_run file.blocks hstart hread
  simp only [Block.defined_iff hprx] at hdefined hundefined
  have hrun : runPatch env applyPatch info (some file.lines) game =
      ((runLines env start (file.blocks.flatMap (·.lines))).bind
        (handlePatchComplete env)).map fun ctx => reportOf 0 ctx.userData := by
    rw [runPatch, parseLines, lines, runLines_append, hpreamble]
    rfl
  rw [hrun]
  constructor
  · intro h
    rcases hdefined h with ⟨last, hlast, hlastListening, hlastRead, hcount, -⟩
    obtain ⟨ctx, hcomplete, -, -, hsame, -⟩ := completion_run hlastListening hlastRead
    refine ⟨ctx.userData, ?_, ?_⟩
    · rw [hlast, Option.bind_some, hcomplete, Option.map_some]
    · rw [hsame, hcount, hdata]
      simp
  · intro h
    rw [hundefined h]
    rfl

/-- The number reported is the number of wanted blocks exactly when no lookup goes
wrong, no block lists the running version twice, and every block that lists it is
switched on; for a game without a version, when no block is wanted. -/
theorem PatchFile.reportsWanted_iff (env : Env) (applyPatch : PatchEntry → ω → ω)
    (info : GamePatchInfo) (file : PatchFile) (game : ω) (hprx : env.prx = true) :
    file.ReportsWanted env applyPatch info game ↔
      (∀ p ∈ file.blocks.zipIdx, p.1.LookupsDefined env info p.2) ∧
        ∀ p ∈ file.blocks.zipIdx,
          if info.appVer = [] then ¬ p.1.Wanted env info p.2
          else (p.1.patch env p.2).appVers.count info.appVer ≤ 1 ∧
            (info.appVer ∈ (p.1.patch env p.2).appVers → p.1.Wanted env info p.2) := by
  obtain ⟨hdefined, hundefined⟩ :=
    file.runPatch_lines env applyPatch info game hprx
  simp only [← Block.length_hits_eq_iff]
  by_cases hlookups : ∀ p ∈ file.blocks.zipIdx, p.1.LookupsDefined env info p.2
  · rcases hdefined hlookups with ⟨data, hrun, hcount⟩
    have hreports : file.ReportsWanted env applyPatch info game ↔
        data.count = file.wantedCount env info := by
      rw [ReportsWanted, hrun]
      simp [reports_reportOf_iff]
    rw [hreports, hcount, wantedCount, and_iff_right hlookups]
    by_cases hversioned : info.appVer = []
    · have hzero : ∀ p : Block × ℕ, (p.1.hits env info p.2).length = 0 := by
        intro p
        rw [p.1.hits_of_unversioned hversioned]
        rfl
      simp only [hzero]
      rw [List.map_const', List.sum_replicate_nat, Nat.mul_zero, eq_comm, List.countP_eq_zero]
      refine forall₂_congr fun p _ => ?_
      by_cases hwanted : p.1.Wanted env info p.2 <;> simp [hwanted]
    · apply sum_eq_countP_iff (fun p : Block × ℕ => p.1.Wanted env info p.2)
        fun p => (p.1.hits env info p.2).length
      intro p _ hwanted
      rw [p.1.length_hits hversioned]
      exact List.count_pos_iff.mpr hwanted.mem_appVers
  · refine iff_of_false ?_ fun h => hlookups h.1
    rintro ⟨report, hrun, -⟩
    rw [hundefined (by simpa using hlookups)] at hrun
    cases hrun

/-! ## A block that is not switched on -/

theorem PatchFile.reportsWanted_iff_oneVersion :
    let env := consoleWith [647257894] "/game/EBOOT.BIN".toList
    oneVersionFile.ReportsWanted env noteEntry runningGame [] ↔
      (∀ p ∈ oneVersionFile.blocks.zipIdx, p.1.LookupsDefined env runningGame p.2) ∧
        ∀ p ∈ oneVersionFile.blocks.zipIdx,
          if runningGame.appVer = [] then ¬ p.1.Wanted env runningGame p.2
          else (p.1.patch env p.2).appVers.count runningGame.appVer ≤ 1 ∧
            (runningGame.appVer ∈ (p.1.patch env p.2).appVers →
              p.1.Wanted env runningGame p.2) :=
  PatchFile.reportsWanted_iff _ _ _ _ _ rfl

/-- Nothing is switched on, and one patch is reported. -/
theorem PatchFile.not_reportsWanted :
    ¬ oneVersionFile.ReportsWanted (consoleWith [] "/game/EBOOT.BIN".toList) noteEntry
      runningGame [] := by
  rintro ⟨report, hrun, hreports⟩
  have hcount : (runPatch (consoleWith [] "/game/EBOOT.BIN".toList) noteEntry runningGame
      (some oneVersionFile.lines) []).map (·.count) = some 1 := by decide +kernel
  have hwanted : oneVersionFile.wantedCount (consoleWith [] "/game/EBOOT.BIN".toList)
      runningGame = 0 := by decide +kernel
  rw [hrun, Option.map_some, hreports.count, hwanted] at hcount
  cases hcount

end GamePatch
