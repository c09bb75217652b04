import GamePatch.Verification.Parser.Blocks

/-! # What the storing modes keep

`PARSE_MODE_METADATA` stores the metadata of every version of a completed block,
`PARSE_MODE_ALL` those of the wanted title and version together with the entries.
As long as allocations succeed, the arrays take everything that is stored. -/

namespace GamePatch

/-! ## Growing arrays -/

/-- The buffer is as large as the capacity says. -/
structure GrowArray.WellFormed {α : Type} (a : GrowArray α) : Prop where
  fits : a.elems.length ≤ a.capacity
  allocated : a.allocated = a.capacity
  pos : 0 < a.capacity

namespace GrowArray

variable {α : Type} {a : GrowArray α}

theorem wellFormed_ofCapacity {n : ℕ} (h : 0 < n) : (ofCapacity n : GrowArray α).WellFormed :=
  ⟨Nat.zero_le n, rfl, h⟩

theorem WellFormed.clear (h : a.WellFormed) :
    ({ a with elems := [] } : GrowArray α).WellFormed :=
  ⟨Nat.zero_le _, h.allocated, h.pos⟩

/-- Growing when full and then storing never leaves the buffer. -/
theorem WellFormed.push_grow (h : a.WellFormed) (hfull : a.isFull = true) (x : α) :
    ∃ a', (a.grow true).push x = some a' ∧ a'.elems = a.elems ++ [x] ∧ a'.WellFormed := by
  have hlen : a.capacity ≤ a.elems.length := of_decide_eq_true hfull
  have hfits := h.fits
  have hpos := h.pos
  refine ⟨⟨a.elems ++ [x], a.capacity * 2, a.capacity * 2⟩, ?_, rfl, ?_⟩
  · have hlt : a.elems.length < a.capacity * 2 := by omega
    simp [push, grow, hlt]
  · refine ⟨?_, rfl, ?_⟩
    · simp only [List.length_append, List.length_singleton]
      omega
    · simp only
      omega

theorem WellFormed.push (h : a.WellFormed) (hfull : ¬ a.isFull = true) (x : α) :
    ∃ a', a.push x = some a' ∧ a'.elems = a.elems ++ [x] ∧ a'.WellFormed := by
  have hlt : a.elems.length < a.capacity := by
    simpa [isFull] using hfull
  refine ⟨{ a with elems := a.elems ++ [x] }, ?_, rfl, ?_⟩
  · rw [GrowArray.push, h.allocated, if_pos hlt]
  · refine ⟨?_, h.allocated, h.pos⟩
    simp only [List.length_append, List.length_singleton]
    omega

end GrowArray

/-! ## Lines inside a block -/

variable {σ : Type} {env : Env} {ctx ctx' : ParseContext σ} {line : CString}

/-- The arrays that the mode uses are well formed. -/
structure Storing (ctx : ParseContext σ) : Prop where
  entries : ctx.mode = .all → ctx.currentEntries.WellFormed
  patches : ctx.mode = .all → ctx.allPatches.WellFormed
  metadata : ctx.mode = .metadata → ctx.metadataArray.WellFormed

/-- The entries of lines, the section being open or not when they start. -/
def sectionEntries : Bool → List CString → List PatchEntry
  | _, [] => []
  | inPatches, line :: lines =>
      lineEntries inPatches line ++ sectionEntries (inPatches || decide (OpensEntries line)) lines

/-- The entries that the mode keeps. -/
def ParseMode.keeps (mode : ParseMode) (entries : List PatchEntry) : List PatchEntry :=
  if mode = .all then entries else []

/-- The context after a line inside a block. -/
structure AfterLines (ctx ctx' : ParseContext σ) (lines : List CString) : Prop where
  mode : ctx'.mode = ctx.mode
  gameInfo : ctx'.gameInfo = ctx.gameInfo
  title : ctx'.title = ctx.title
  number : ctx'.currentPatchNumber = ctx.currentPatchNumber
  patch : ctx'.currentPatch = lines.foldl Patch.readLine ctx.currentPatch
  inPatchesSection : ctx'.inPatchesSection =
    (ctx.inPatchesSection || lines.any fun line => decide (OpensEntries line))
  entries : ctx'.currentEntries.elems =
    ctx.currentEntries.elems ++ ctx.mode.keeps (sectionEntries ctx.inPatchesSection lines)
  allPatches : ctx'.allPatches = ctx.allPatches
  metadataArray : ctx'.metadataArray = ctx.metadataArray
  storing : Storing ctx'

theorem processEntry_stores (hprx : env.prx = false) (halloc : ∀ n, env.alloc n = true)
    (hmode : ctx.mode ≠ .lowMem) (hctx : Storing ctx) (entry : PatchEntry) :
    ∃ ctx', processEntry env ctx entry = some ctx' ∧ ctx'.currentEntries.elems =
      ctx.currentEntries.elems ++ ctx.mode.keeps ([entry].filter fun entry =>
        decide (minPatchParams ≤ entry.params.length)) ∧ Storing ctx' := by
  by_cases hshort : entry.params.length < minPatchParams
  · refine ⟨ctx, processEntry_short hshort, ?_, hctx⟩
    simp [ParseMode.keeps, Nat.not_le_of_lt hshort]
  obtain hall | hmetadata : ctx.mode = .all ∨ ctx.mode = .metadata := by
    cases hm : ctx.mode <;> simp_all
  · have hkeeps : ctx.mode.keeps ([entry].filter fun entry =>
        decide (minPatchParams ≤ entry.params.length)) = [entry] := by
      simp [ParseMode.keeps, hall, Nat.le_of_not_lt hshort]
    rw [processEntry_all hall hprx hshort, hkeeps, halloc, if_neg (by simp)]
    by_cases hfull : ctx.currentEntries.isFull = true
    · obtain ⟨entries, hpush, helems, hwell⟩ := (hctx.entries hall).push_grow hfull entry
      rw [if_pos hfull, hpush]
      exact ⟨_, rfl, helems, fun _ => hwell, hctx.patches, hctx.metadata⟩
    · obtain ⟨entries, hpush, helems, hwell⟩ := (hctx.entries hall).push hfull entry
      rw [if_neg hfull, hpush]
      exact ⟨_, rfl, helems, fun _ => hwell, hctx.patches, hctx.metadata⟩
  · refine ⟨ctx, processEntry_metadata hmetadata, ?_, hctx⟩
    simp [ParseMode.keeps, hmetadata]

/-- A line inside a block never fails. -/
theorem processLine_stores (hprx : env.prx = false) (halloc : ∀ n, env.alloc n = true)
    (hmode : ctx.mode ≠ .lowMem) (hctx : Storing ctx) (hopens : ¬ OpensBlock line) :
    ∃ ctx', processLine env ctx line = some ctx' ∧ AfterLines ctx ctx' [line] ∧
      InsideBlock ctx ctx' line := by
  suffices h : ∃ ctx', processLine env ctx line = some ctx' ∧ Storing ctx' ∧
      ctx'.currentEntries.elems = ctx.currentEntries.elems ++
        ctx.mode.keeps (lineEntries ctx.inPatchesSection line) by
    rcases h with ⟨ctx', hline, hstoring, helems⟩
    have hinside := processLine_insideBlock hopens hline
    refine ⟨ctx', hline, ⟨hinside.mode, hinside.gameInfo, hinside.title,
      hinside.currentPatchNumber, hinside.currentPatch, ?_, ?_, hinside.allPatches,
      hinside.metadataArray, hstoring⟩, hinside⟩
    · simp [hinside.inPatchesSection]
    · rw [helems, sectionEntries, sectionEntries, List.append_nil]
  by_cases hentry : lineKind ctx.inPatchesSection line = .entry
  · obtain ⟨ctx', hline, helems, hstoring⟩ := processEntry_stores hprx halloc hmode hctx
      (parsePatchEntry ((trim line).drop 2))
    refine ⟨ctx', (processLine_entry hentry).trans hline, hstoring, ?_⟩
    rw [helems, lineEntries, if_pos hentry]
  · have hnone : ctx.mode.keeps (lineEntries ctx.inPatchesSection line) = [] := by
      simp [lineEntries_of_ne_entry hentry, ParseMode.keeps]
    rw [hnone, List.append_nil]
    by_cases hentries : OpensEntries line
    · have hline : processLine env ctx line = some { ctx with inPatchesSection := true } :=
        (processLine_patches (hentries.lineKind_eq _)).trans (if_neg hmode)
      exact ⟨_, hline, ⟨hctx.entries, hctx.patches, hctx.metadata⟩, rfl⟩
    · obtain ⟨titleids, hquiet⟩ := processLine_quiet env ctx hopens hentries hentry
      exact ⟨_, hquiet, ⟨hctx.entries, hctx.patches, hctx.metadata⟩, rfl⟩

theorem ParseMode.keeps_append (mode : ParseMode) (entries entries' : List PatchEntry) :
    mode.keeps (entries ++ entries') = mode.keeps entries ++ mode.keeps entries' := by
  unfold keeps
  split <;> rfl

/-- Before its `patches:` line a block has no entries. -/
theorem sectionEntries_plain {lines : List CString} (h : ∀ line ∈ lines, Plain line)
    (inPatches : Bool) :
    sectionEntries inPatches lines = lines.flatMap (lineEntries inPatches) := by
  induction lines with
  | nil => rfl
  | cons line lines ih =>
      rw [sectionEntries, List.flatMap_cons, decide_eq_false (h line (by simp)).2, Bool.or_false,
        ih fun l hl => h l (List.mem_cons_of_mem line hl)]

theorem sectionEntries_closed {lines : List CString} (h : ∀ line ∈ lines, Plain line) :
    sectionEntries false lines = [] := by
  rw [sectionEntries_plain h]
  simp [lineEntries_false]

/-- A run over lines inside a block never fails. -/
theorem runLines_stores (hprx : env.prx = false) (halloc : ∀ n, env.alloc n = true)
    (lines : List CString) (hlines : ∀ line ∈ lines, ¬ OpensBlock line) :
    ∀ {ctx : ParseContext σ}, ctx.mode ≠ .lowMem → Storing ctx →
      ∃ ctx', runLines env ctx lines = some ctx' ∧ AfterLines ctx ctx' lines := by
  induction lines with
  | nil =>
      intro ctx _ hctx
      refine ⟨ctx, rfl, rfl, rfl, rfl, rfl, rfl, ?_, ?_, rfl, rfl, hctx⟩
      · simp
      · simp [sectionEntries, ParseMode.keeps]
  | cons line lines ih =>
      intro ctx hmode hctx
      obtain ⟨mid, hline, hmid, hinside⟩ :=
        processLine_stores hprx halloc hmode hctx (hlines line (by simp))
      obtain ⟨ctx', hrun, hafter⟩ := ih (fun l hl => hlines l (List.mem_cons_of_mem line hl))
        (hmid.mode ▸ hmode) hmid.storing
      refine ⟨ctx', ?_, hafter.mode.trans hmid.mode, hafter.gameInfo.trans hmid.gameInfo,
        hafter.title.trans hmid.title, hafter.number.trans hmid.number, ?_, ?_, ?_,
        hafter.allPatches.trans hmid.allPatches, hafter.metadataArray.trans hmid.metadataArray,
        hafter.storing⟩
      · rw [runLines_cons, hline, Option.bind_some, hrun]
      · rw [hafter.patch, hmid.patch]
        rfl
      · rw [hafter.inPatchesSection, hinside.inPatchesSection, List.any_cons, Bool.or_assoc]
      · rw [hafter.entries, hmid.entries, hmid.mode, hinside.inPatchesSection, List.append_assoc,
          ← ParseMode.keeps_append]
        simp [sectionEntries]

/-! ## The completion of a block -/

/-- No round over a version goes wrong when the block is completed. -/
def ParseMode.VersionDefined (mode : ParseMode) (env : Env) (game : GamePatchInfo) (number : ℕ)
    (patch : Patch) (v : Option CString × ℕ) : Prop :=
  match mode with
  | .all => v.1 ≠ none ∧ (v.1 = some game.appVer → MetadataDefined env game number patch v)
  | .metadata => MetadataDefined env game number patch v
  | .lowMem => True

/-- What `PARSE_MODE_ALL` stores for a version of a block. -/
def versionData (env : Env) (game : GamePatchInfo) (title : Option CString) (number : ℕ)
    (patch : Patch) (entries : List PatchEntry) (v : Option CString × ℕ) : Option PatchData :=
  if v.1 = some game.appVer ∧ title ≠ none ∧ title = patch.title then
    some ⟨versionMetadata env game number patch v, entries⟩
  else none

/-- A round in `PARSE_MODE_METADATA`. -/
theorem completeVersion_metadata (hprx : env.prx = false) (halloc : ∀ n, env.alloc n = true)
    (hmode : ctx.mode = .metadata) (hctx : Storing ctx) (v : Option CString × ℕ) :
    (MetadataDefined env ctx.gameInfo ctx.currentPatchNumber ctx.currentPatch v →
      ∃ array allocs, completeVersion env ctx v.1 v.2 =
        some (.next { ctx with metadataArray := array, allocs := allocs }) ∧
        array.elems = ctx.metadataArray.elems ++ [ctx.metaOf env v] ∧ array.WellFormed) ∧
    (¬ MetadataDefined env ctx.gameInfo ctx.currentPatchNumber ctx.currentPatch v →
      completeVersion env ctx v.1 v.2 = none) := by
  have hround : completeVersion env ctx v.1 v.2 = completeMetadata env ctx v.1 v.2 := by
    simp [completeVersion, hprx, hmode]
  have hwell := hctx.metadata hmode
  rw [hround, completeMetadata, halloc, if_neg (by simp)]
  constructor
  · intro hdefined
    have hmeta := processPatchMetadata_of_defined hdefined
    by_cases hfull : ctx.metadataArray.isFull = true
    · rcases hwell.push_grow hfull (ctx.metaOf env v) with ⟨array, hpush, helems, hwell'⟩
      refine ⟨array, ctx.allocs + 1, ?_, helems, hwell'⟩
      rw [if_pos hfull]
      simp only [processPatchMetadataForAppVer, hmeta, Option.bind_eq_bind, Option.bind_some]
      rw [show versionMetadata env ctx.gameInfo ctx.currentPatchNumber ctx.currentPatch v =
        ctx.metaOf env v from rfl, hpush]
      rfl
    · rcases hwell.push hfull (ctx.metaOf env v) with ⟨array, hpush, helems, hwell'⟩
      refine ⟨array, ctx.allocs, ?_, helems, hwell'⟩
      rw [if_neg hfull]
      simp only [processPatchMetadataForAppVer, hmeta, Option.bind_eq_bind, Option.bind_some]
      rw [show versionMetadata env ctx.gameInfo ctx.currentPatchNumber ctx.currentPatch v =
        ctx.metaOf env v from rfl, hpush]
      rfl
  · intro hundefined
    have hmeta := processPatchMetadata_of_not_defined hundefined
    by_cases hfull : ctx.metadataArray.isFull = true
    · rw [if_pos hfull]
      simp only [processPatchMetadataForAppVer, hmeta]
      rfl
    · rw [if_neg hfull]
      simp only [processPatchMetadataForAppVer, hmeta]
      rfl

/-- Storing a block for the game's version, if its title is the one asked for. -/
theorem completeAll_of_defined (halloc : ∀ n, env.alloc n = true)
    (hwell : ctx.allPatches.WellFormed) {k : ℕ}
    (hdefined : MetadataDefined env ctx.gameInfo ctx.currentPatchNumber ctx.currentPatch
      (some ctx.gameInfo.appVer, k)) :
    ∃ array allocs, completeAll env ctx ctx.gameInfo.appVer k =
      some (.next { ctx with allPatches := array, allocs := allocs }) ∧
      array.elems = ctx.allPatches.elems ++ (versionData env ctx.gameInfo ctx.title
        ctx.currentPatchNumber ctx.currentPatch ctx.currentEntries.elems
        (some ctx.gameInfo.appVer, k)).toList ∧
      array.WellFormed := by
  have hmeta := processPatchMetadata_of_defined hdefined
  simp only [completeAll, processPatchMetadataForAppVer, hmeta, Option.bind_eq_bind,
    Option.bind_some, versionData, halloc, Bool.true_eq_false, and_false, false_and, if_false,
    true_and]
  by_cases htitle : ctx.title = none ∨ ctx.title ≠ ctx.currentPatch.title
  · refine ⟨ctx.allPatches, ctx.allocs, if_pos htitle, ?_, hwell⟩
    have hno : ¬ (ctx.title ≠ none ∧ ctx.title = ctx.currentPatch.title) := by
      tauto
    rw [if_neg hno, Option.toList_none, List.append_nil]
  · have hyes : ctx.title ≠ none ∧ ctx.title = ctx.currentPatch.title := by
      tauto
    have hskip : ¬ (ctx.title = none ∨ ctx.title ≠ (versionMetadata env ctx.gameInfo
        ctx.currentPatchNumber ctx.currentPatch (some ctx.gameInfo.appVer, k)).title) := htitle
    rw [if_pos hyes]
    simp only [if_neg hskip]
    by_cases hfull : ctx.allPatches.isFull = true
    · obtain ⟨array, hpush, helems, hwell'⟩ := hwell.push_grow hfull
        ⟨versionMetadata env ctx.gameInfo ctx.currentPatchNumber ctx.currentPatch
          (some ctx.gameInfo.appVer, k), ctx.currentEntries.elems⟩
      refine ⟨array, ctx.allocs + 1 + 1, ?_, helems, hwell'⟩
      simp only [hfull, if_true, hpush, Option.bind_some]
      rfl
    · obtain ⟨array, hpush, helems, hwell'⟩ := hwell.push hfull
        ⟨versionMetadata env ctx.gameInfo ctx.currentPatchNumber ctx.currentPatch
          (some ctx.gameInfo.appVer, k), ctx.currentEntries.elems⟩
      refine ⟨array, ctx.allocs + 1, ?_, helems, hwell'⟩
      simp only [hfull, Bool.false_eq_true, if_false, hpush, Option.bind_some]
      rfl

/-- A round in `PARSE_MODE_ALL`. -/
theorem completeVersion_all (hprx : env.prx = false) (halloc : ∀ n, env.alloc n = true)
    (hmode : ctx.mode = .all) (hctx : Storing ctx) (v : Option CString × ℕ) :
    (ParseMode.all.VersionDefined env ctx.gameInfo ctx.currentPatchNumber ctx.currentPatch v →
      ∃ array allocs, completeVersion env ctx v.1 v.2 =
        some (.next { ctx with allPatches := array, allocs := allocs }) ∧
        array.elems = ctx.allPatches.elems ++ (versionData env ctx.gameInfo ctx.title
          ctx.currentPatchNumber ctx.currentPatch ctx.currentEntries.elems v).toList ∧
        array.WellFormed) ∧
    (¬ ParseMode.all.VersionDefined env ctx.gameInfo ctx.currentPatchNumber ctx.currentPatch v →
      completeVersion env ctx v.1 v.2 = none) := by
  have hwell := hctx.patches hmode
  obtain ⟨appVer, k⟩ := v
  cases appVer with
  | none =>
      refine ⟨fun h => absurd rfl h.1, fun _ => ?_⟩
      simp [completeVersion, hprx, hmode]
  | some w =>
      have hround : completeVersion env ctx (some w) k =
          if w = ctx.gameInfo.appVer then completeAll env ctx w k else some (.next ctx) := by
        simp [completeVersion, hprx, hmode]
      rw [hround]
      by_cases hver : w = ctx.gameInfo.appVer
      · subst hver
        rw [if_pos rfl]
        refine ⟨fun h => completeAll_of_defined halloc hwell (h.2 rfl), fun h => ?_⟩
        have hundefined : ¬ MetadataDefined env ctx.gameInfo ctx.currentPatchNumber
            ctx.currentPatch (some ctx.gameInfo.appVer, k) :=
          fun hdefined => h ⟨by simp, fun _ => hdefined⟩
        simp only [completeAll, processPatchMetadataForAppVer,
          processPatchMetadata_of_not_defined hundefined]
        rfl
      · rw [if_neg hver]
        refine ⟨fun _ => ⟨ctx.allPatches, ctx.allocs, rfl, ?_, hwell⟩, fun h => ?_⟩
        · simp [versionData, hver]
        · exact absurd ⟨by simp, fun hsame => absurd (Option.some.inj hsame) hver⟩ h

/-- The patches that the mode stores for some versions of a block. -/
def ParseMode.storedData (mode : ParseMode) (env : Env) (game : GamePatchInfo)
    (title : Option CString) (number : ℕ) (patch : Patch) (entries : List PatchEntry)
    (vs : List (Option CString × ℕ)) : List PatchData :=
  if mode = .all then vs.filterMap (versionData env game title number patch entries) else []

/-- The metadata that the mode stores for some versions of a block. -/
def ParseMode.storedMetadata (mode : ParseMode) (env : Env) (game : GamePatchInfo) (number : ℕ)
    (patch : Patch) (vs : List (Option CString × ℕ)) : List PatchMetadata :=
  if mode = .metadata then vs.map (versionMetadata env game number patch) else []

/-- The context after the rounds for the versions `done`. -/
structure RoundsDone (env : Env) (ctx : ParseContext σ) (done : List (Option CString × ℕ))
    (ctx' : ParseContext σ) : Prop where
  mode : ctx'.mode = ctx.mode
  gameInfo : ctx'.gameInfo = ctx.gameInfo
  title : ctx'.title = ctx.title
  number : ctx'.currentPatchNumber = ctx.currentPatchNumber
  patch : ctx'.currentPatch = ctx.currentPatch
  entries : ctx'.currentEntries = ctx.currentEntries
  data : ctx'.allPatches.elems = ctx.allPatches.elems ++ ctx.mode.storedData env ctx.gameInfo
    ctx.title ctx.currentPatchNumber ctx.currentPatch ctx.currentEntries.elems done
  metadata : ctx'.metadataArray.elems = ctx.metadataArray.elems ++
    ctx.mode.storedMetadata env ctx.gameInfo ctx.currentPatchNumber ctx.currentPatch done
  storing : Storing ctx'

theorem RoundsDone.refl (h : Storing ctx) : RoundsDone env ctx [] ctx := by
  refine ⟨rfl, rfl, rfl, rfl, rfl, rfl, ?_, ?_, h⟩
  · simp [ParseMode.storedData]
  · simp [ParseMode.storedMetadata]

theorem ParseMode.eq_all_or_metadata {mode : ParseMode} (h : mode ≠ .lowMem) :
    mode = .all ∨ mode = .metadata := by
  cases mode <;> simp_all

/-- One more round. -/
theorem RoundsDone.round (hprx : env.prx = false) (halloc : ∀ n, env.alloc n = true)
    (hmode : ctx.mode ≠ .lowMem) {done : List (Option CString × ℕ)}
    (h : RoundsDone env ctx done ctx') (v : Option CString × ℕ) :
    (ctx.mode.VersionDefined env ctx.gameInfo ctx.currentPatchNumber ctx.currentPatch v →
      ∃ next, completeVersion env ctx' v.1 v.2 = some (.next next) ∧
        RoundsDone env ctx (done ++ [v]) next) ∧
    (¬ ctx.mode.VersionDefined env ctx.gameInfo ctx.currentPatchNumber ctx.currentPatch v →
      completeVersion env ctx' v.1 v.2 = none) := by
  obtain hall | hmeta := ParseMode.eq_all_or_metadata hmode
  · obtain ⟨hdefined, hundefined⟩ :=
      completeVersion_all hprx halloc (h.mode.trans hall) h.storing v
    rw [h.gameInfo, h.number, h.patch] at hundefined
    rw [hall]
    refine ⟨fun hv => ?_, hundefined⟩
    obtain ⟨patches, allocs, hround, helems, hwell⟩ :=
      hdefined (by rw [h.gameInfo, h.number, h.patch]; exact hv)
    refine ⟨_, hround, h.mode, h.gameInfo, h.title, h.number, h.patch, h.entries, ?_, ?_,
      ⟨h.storing.entries, fun _ => hwell, h.storing.metadata⟩⟩
    · rw [helems, h.data, h.gameInfo, h.title, h.number, h.patch, h.entries, hall,
        List.append_assoc]
      simp only [ParseMode.storedData, if_true, List.filterMap_append]
      cases hv : versionData env ctx.gameInfo ctx.title ctx.currentPatchNumber ctx.currentPatch
          ctx.currentEntries.elems v with
      | none => simp [hv]
      | some data => simp [hv]
    · rw [h.metadata, hall]
      simp [ParseMode.storedMetadata]
  · obtain ⟨hdefined, hundefined⟩ :=
      completeVersion_metadata hprx halloc (h.mode.trans hmeta) h.storing v
    rw [h.gameInfo, h.number, h.patch] at hundefined
    rw [hmeta]
    refine ⟨fun hv => ?_, hundefined⟩
    obtain ⟨array, allocs, hround, helems, hwell⟩ :=
      hdefined (by rw [h.gameInfo, h.number, h.patch]; exact hv)
    refine ⟨_, hround, h.mode, h.gameInfo, h.title, h.number, h.patch, h.entries, ?_, ?_,
      ⟨h.storing.entries, h.storing.patches, fun _ => hwell⟩⟩
    · rw [h.data, hmeta]
      simp [ParseMode.storedData]
    · rw [helems, h.metadata, ParseContext.metaOf, h.gameInfo, h.number, h.patch, hmeta]
      simp [ParseMode.storedMetadata]

/-- The rounds over versions fail exactly where one of them does. -/
theorem RoundsDone.rounds (hprx : env.prx = false) (halloc : ∀ n, env.alloc n = true)
    (hmode : ctx.mode ≠ .lowMem) (vs : List (Option CString × ℕ)) :
    ∀ {done ctx'}, RoundsDone env ctx done ctx' →
      ((∀ v ∈ vs, ctx.mode.VersionDefined env ctx.gameInfo ctx.currentPatchNumber
          ctx.currentPatch v) →
        ∃ next, completeVersions env vs ctx' = some (.next next) ∧
          RoundsDone env ctx (done ++ vs) next) ∧
      ((∃ v ∈ vs, ¬ ctx.mode.VersionDefined env ctx.gameInfo ctx.currentPatchNumber
          ctx.currentPatch v) →
        completeVersions env vs ctx' = none) := by
  induction vs with
  | nil =>
      intro done ctx' h
      refine ⟨fun _ => ⟨ctx', rfl, ?_⟩, by simp⟩
      rw [List.append_nil]
      exact h
  | cons v vs ih =>
      intro done ctx' h
      rcases h.round hprx halloc hmode v with ⟨hdefined, hundefined⟩
      simp only [List.forall_mem_cons, List.exists_mem_cons_iff]
      constructor
      · rintro ⟨hv, hvs⟩
        rcases hdefined hv with ⟨mid, hround, hmid⟩
        obtain ⟨next, hrest, hnext⟩ := (ih hmid).1 hvs
        refine ⟨next, ?_, ?_⟩
        · simp only [completeVersions, hround, Option.bind_eq_bind, Option.bind_some]
          exact hrest
        · simpa using hnext
      · intro hbad
        by_cases hv : ctx.mode.VersionDefined env ctx.gameInfo ctx.currentPatchNumber
            ctx.currentPatch v
        · rcases hdefined hv with ⟨mid, hround, hmid⟩
          simp only [completeVersions, hround, Option.bind_eq_bind, Option.bind_some]
          exact (ih hmid).2 (hbad.resolve_left fun hn => hn hv)
        · simp only [completeVersions, hundefined hv, Option.bind_eq_bind, Option.bind_none]

/-- The context behind a completed block. -/
structure BlockStored (env : Env) (ctx ctx' : ParseContext σ) : Prop where
  mode : ctx'.mode = ctx.mode
  gameInfo : ctx'.gameInfo = ctx.gameInfo
  title : ctx'.title = ctx.title
  number : ctx'.currentPatchNumber = env.sizeT (ctx.currentPatchNumber + 1)
  patch : ctx'.currentPatch = Patch.blank true
  section_closed : ctx'.inPatchesSection = false
  entries : ctx'.currentEntries.elems = []
  data : ctx'.allPatches.elems = ctx.allPatches.elems ++ ctx.mode.storedData env ctx.gameInfo
    ctx.title ctx.currentPatchNumber ctx.currentPatch ctx.currentEntries.elems
    ctx.currentPatch.versions
  metadata : ctx'.metadataArray.elems = ctx.metadataArray.elems ++
    ctx.mode.storedMetadata env ctx.gameInfo ctx.currentPatchNumber ctx.currentPatch
      ctx.currentPatch.versions
  storing : Storing ctx'

/-- No round goes wrong when the block being read is completed. -/
def ParseContext.CompletionDefined (env : Env) (ctx : ParseContext σ) : Prop :=
  ∀ v ∈ ctx.currentPatch.versions,
    ctx.mode.VersionDefined env ctx.gameInfo ctx.currentPatchNumber ctx.currentPatch v

/-- The completion of a block that has a title. -/
theorem handlePatchComplete_stores (hprx : env.prx = false) (halloc : ∀ n, env.alloc n = true)
    (hmode : ctx.mode ≠ .lowMem) (hctx : Storing ctx) (htitle : ctx.currentPatch.title ≠ none) :
    (ctx.CompletionDefined env → ∃ ctx', handlePatchComplete env ctx = some ctx' ∧
      BlockStored env ctx ctx') ∧
    (¬ ctx.CompletionDefined env → handlePatchComplete env ctx = none) := by
  obtain ⟨hdefined, hundefined⟩ := (RoundsDone.refl hctx).rounds hprx halloc hmode
    ctx.currentPatch.versions
  rw [handlePatchComplete, if_neg htitle]
  constructor
  · intro h
    rcases hdefined h with ⟨next, hrounds, hnext⟩
    rw [hrounds]
    refine ⟨_, rfl, hnext.mode, hnext.gameInfo, hnext.title, ?_, ?_, rfl, rfl, hnext.data,
      hnext.metadata, ⟨fun hall => (hnext.storing.entries hall).clear, hnext.storing.patches,
      hnext.storing.metadata⟩⟩
    · exact congrArg (fun n => env.sizeT (n + 1)) hnext.number
    · simp [resetCurrentPatch, halloc]
  · intro h
    rw [hundefined (by simpa [ParseContext.CompletionDefined] using h)]
    rfl

end GamePatch
