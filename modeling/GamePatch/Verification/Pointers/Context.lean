import GamePatch.Verification.Pointers.Metadata

/-! # The context behind its pointers

Every function of the parser does on pointers what it does on values, and fails nowhere
else. What it loses track of is counted. -/

namespace GamePatch.Pointers

open Heap
open scoped Pointwise

variable {σ : Type}

structure SameContext (ctx : ParseContext σ) (ctx' : GamePatch.ParseContext σ) : Prop where
  mode : ctx.mode = ctx'.mode
  gameInfo : ctx.gameInfo = ctx'.gameInfo
  currentPatchNumber : ctx.currentPatchNumber = ctx'.currentPatchNumber
  inPatchesSection : ctx.inPatchesSection = ctx'.inPatchesSection
  title : ctx.title = ctx'.title
  metaCallback : ctx.metaCallback = ctx'.metaCallback
  entryCallback : ctx.entryCallback = ctx'.entryCallback
  userData : ctx.userData = ctx'.userData
  processingEnabledPatch : ctx.processingEnabledPatch = ctx'.processingEnabledPatch
  allocs : ctx.allocs = ctx'.allocs

/-! The parts of a context. -/

abbrev titleidsAt (ctx : ParseContext σ) (ctx' : GamePatch.ParseContext σ) : Assertion Block :=
  ctx.globalTitleids.holds stringAt maxArrayLength ctx'.globalTitleids

abbrev patchAt (ctx : ParseContext σ) (ctx' : GamePatch.ParseContext σ) : Assertion Block :=
  ctx.currentPatch.holds ctx'.currentPatch

abbrev allPatchesAt (ctx : ParseContext σ) (ctx' : GamePatch.ParseContext σ) : Assertion Block :=
  ctx.allPatches.holds PatchData.holds ctx'.allPatches

abbrev entriesAt (ctx : ParseContext σ) (ctx' : GamePatch.ParseContext σ) : Assertion Block :=
  ctx.currentEntries.holds PatchEntry.holds ctx'.currentEntries

abbrev metadataAt (ctx : ParseContext σ) (ctx' : GamePatch.ParseContext σ) : Assertion Block :=
  ctx.metadataArray.holds PatchMetadata.holds ctx'.metadataArray

abbrev currentMetaAt (ctx : ParseContext σ) (ctx' : GamePatch.ParseContext σ) :
    Assertion Block :=
  ctx.currentMeta.holds ctx'.currentMeta

def ParseContext.holds (ctx : ParseContext σ) (ctx' : GamePatch.ParseContext σ) :
    Assertion Block :=
  only (SameContext ctx ctx')
    (titleidsAt ctx ctx' + patchAt ctx ctx' + allPatchesAt ctx ctx' + entriesAt ctx ctx' +
      metadataAt ctx ctx' + currentMetaAt ctx ctx')

/-- The block that is being completed stays as it is. -/
def Flow.holds (patch : Patch) (patch' : GamePatch.Patch) :
    Flow σ → GamePatch.Flow σ → Assertion Block
  | .next ctx, .next ctx' =>
      only (ctx.currentPatch = patch ∧ ctx'.currentPatch = patch') (ctx.holds ctx')
  | .done ctx, .done ctx' =>
      only (ctx.currentPatch = patch ∧ ctx'.currentPatch = patch') (ctx.holds ctx')
  | _, _ => ∅

variable {ctx : ParseContext σ} {ctx' : GamePatch.ParseContext σ}

/-! ## Completing a block -/

/-- The strings among some that may be absent. -/
def stringCount (strs : List (Option CString)) : ℕ := (strs.map fun str => str.toList.length).sum

theorem eachOptional_live (ps : List (Option ℕ)) (strs : List (Option CString)) :
    eachOptional ps strs ⊆ live Block (stringCount strs) :=
  each_live (optional_live fun p str => cell_live p (Block.string str)) ps strs

theorem eq_of_strDup {env : Env} {str str' : Option CString} (h : env.strDup str = some str') :
    str' = str := by
  rw [Env.strDup, Option.ite_none_left_eq_some] at h
  exact (Option.some.inj h.2).symm

theorem metadataTexts_of_process {env : Env} {game : GamePatchInfo} {n i : ℕ}
    {patch : GamePatch.Patch} {appVer : Option CString} {metadata : GamePatch.PatchMetadata}
    (h : GamePatch.processPatchMetadata env game n patch appVer i = some metadata) :
    metadataTexts metadata = sourceTexts patch appVer := by
  simp only [GamePatch.processPatchMetadata, Option.bind_eq_bind, Option.bind_eq_some_iff] at h
  rcases h with ⟨title, htitle, name, hname, author, hauthor, version, hversion, appBin, happBin,
    appVer', happVer, bin, _, state, _, hmetadata⟩
  cases hmetadata
  simp only [metadataTexts, sourceTexts]
  rw [eq_of_strDup htitle, eq_of_strDup hname, eq_of_strDup hauthor, eq_of_strDup hversion,
    eq_of_strDup happBin, eq_of_strDup happVer]

theorem holds_live {metadata : PatchMetadata} {metadata' : GamePatch.PatchMetadata} :
    metadata.holds metadata' ⊆ live Block (stringCount (metadataTexts metadata')) :=
  fun _ hm => eachOptional_live _ _ hm.2

theorem has_title (metadata : PatchMetadata) (metadata' : GamePatch.PatchMetadata) :
    Has (metadata.holds metadata') (pointsTo metadata.title metadata'.title) := by
  have hfirst : Has (eachOptional metadata.pointers (metadataTexts metadata'))
      (pointsTo metadata.title metadata'.title) := .left (.refl _) _
  exact fun _ hm => hfirst hm.2

/-- The metadata of a version, beside the whole context. -/
theorem follows_process (env : Env) {appVer : Option ℕ} {appVer' : Option CString} (i : ℕ)
    (hversion : VersionOf ctx.currentPatch ctx'.currentPatch appVer appVer') :
    Follows (ctx.holds ctx') (processPatchMetadataForAppVer env ctx appVer i)
      (GamePatch.processPatchMetadataForAppVer env ctx' appVer' i) fun metadata metadata' =>
        only (metadataTexts metadata' = sourceTexts ctx'.currentPatch appVer')
          (ctx.holds ctx' + metadata.holds metadata') := by
  refine .of_only fun hsame => ?_
  have hprocess := (follows_processForAppVer env ctx'.gameInfo ctx'.currentPatchNumber hversion
    i).known.frame (titleidsAt ctx ctx' + allPatchesAt ctx ctx' + entriesAt ctx ctx' +
      metadataAt ctx ctx' + currentMetaAt ctx ctx')
  rw [processPatchMetadataForAppVer, hsame.gameInfo, hsame.currentPatchNumber]
  refine hprocess.mono (Eq.subset (by abel)) fun metadata metadata' => ?_
  rw [only_add]
  rintro m ⟨hmetadata, hm⟩
  have hsum : patchAt ctx ctx' + metadata.holds metadata' +
      (titleidsAt ctx ctx' + allPatchesAt ctx ctx' + entriesAt ctx ctx' +
        metadataAt ctx ctx' + currentMetaAt ctx ctx') =
      titleidsAt ctx ctx' + patchAt ctx ctx' + allPatchesAt ctx ctx' + entriesAt ctx ctx' +
        metadataAt ctx ctx' + currentMetaAt ctx ctx' + metadata.holds metadata' := by
    abel
  rw [ParseContext.holds, only_add]
  exact ⟨metadataTexts_of_process hmetadata, hsame, hsum.subset hm⟩

theorem has_patch (ctx : ParseContext σ) (ctx' : GamePatch.ParseContext σ) :
    Has (ctx.holds ctx') (patchAt ctx ctx') :=
  .under _ ((((Has.refl (patchAt ctx ctx')).right _).left _).left _ |>.left _ |>.left _)

theorem has_allPatches (ctx : ParseContext σ) (ctx' : GamePatch.ParseContext σ) :
    Has (ctx.holds ctx') (allPatchesAt ctx ctx') :=
  .under _ (((Has.refl (allPatchesAt ctx ctx')).right _).left _ |>.left _ |>.left _)

theorem has_entries (ctx : ParseContext σ) (ctx' : GamePatch.ParseContext σ) :
    Has (ctx.holds ctx') (entriesAt ctx ctx') :=
  .under _ (((Has.refl (entriesAt ctx ctx')).right _).left _ |>.left _)

theorem has_metadata (ctx : ParseContext σ) (ctx' : GamePatch.ParseContext σ) :
    Has (ctx.holds ctx') (metadataAt ctx ctx') :=
  .under _ (((Has.refl (metadataAt ctx ctx')).right _).left _)

theorem same_of_holds {m : Multiset (ℕ × Block)} (hm : m ∈ ctx.holds ctx') :
    SameContext ctx ctx' := hm.1

theorem follows_copyEntry (entry : PatchEntry) (entry' : GamePatch.PatchEntry) :
    Follows (entry.holds entry') (copyEntry entry) (some entry')
      fun copy copy' => entry.holds entry' + copy.holds copy' := by
  refine .silent (add_zero _).ge (.mapM_copy follows_copyString entry.params entry'.params)
    fun copies => ?_
  exact .pure (add_zero _).subset

/-- The entries are copied as far as the array of the copies can be had. -/
theorem follows_copyEntries (ok : Bool) (entries : GrowArray PatchEntry)
    (entries' : GamePatch.GrowArray GamePatch.PatchEntry) :
    Follows (entries.holds PatchEntry.holds entries') (copyEntries ok entries)
      (if ok = false ∧ entries'.elems ≠ [] then none else some ()) fun copies _ =>
        entries.holds PatchEntry.holds entries' +
          copies.holds PatchEntry.holds entries'.elems.length entries'.elems := by
  refine .of_only fun hcapacity => .of_only fun hlength => ?_
  have haccess := reads_access PatchEntry.holds entries.toTable entries.elems entries'.elems
    entries'.allocated
  rw [if_pos hlength] at haccess
  refine .read (.refl _) haccess ?_
  refine .of_mem (p := entries.elems.length = entries'.elems.length) ?_ fun hequal => ?_
  · rintro m ⟨_, _, m', hm', _⟩
    exact length_of_each hm'
  refine .silent (zero_add _).ge (follows_mallocArray ok entries.elems.length) fun buffer => ?_
  rw [only_add]
  refine .of_only fun _ => ?_
  generalize hsize : (if ok then entries.elems.length else 0) = size
  refine .silent (R := bufferAt buffer size + bufferAt entries.buffer entries'.allocated)
    (Eq.subset (by abel)) (.mapM_copy follows_copyEntry entries.elems entries'.elems)
    fun copies => ?_
  have hcopies := reads_access PatchEntry.holds ⟨buffer, []⟩ copies entries'.elems size
  have hhas : Has (each PatchEntry.holds entries.elems entries'.elems +
        each PatchEntry.holds copies entries'.elems +
        (bufferAt buffer size + bufferAt entries.buffer entries'.allocated))
      (bufferAt buffer size + each PatchEntry.holds copies entries'.elems) :=
    .of_subset (R := each PatchEntry.holds entries.elems entries'.elems +
      bufferAt entries.buffer entries'.allocated) (Eq.subset (by abel))
  -- without an array the first copy has nowhere to go
  by_cases hbad : ok = false ∧ entries'.elems ≠ []
  · have hnone : ¬ entries'.elems.length ≤ size := by
      rw [hbad.1] at hsize
      intro hle
      exact hbad.2 (List.length_eq_zero_iff.mp (Nat.le_zero.mp (hle.trans hsize.ge)))
    rw [if_neg hnone] at hcopies
    rw [if_pos hbad]
    exact .fails hhas hcopies
  · have hfits : size = entries'.elems.length := by
      rw [← hsize]
      cases ok with
      | true => exact hequal
      | false =>
          have hnil : entries'.elems = [] := not_not.mp fun hne => hbad ⟨rfl, hne⟩
          rw [hnil]
          rfl
    rw [if_pos hfits.ge] at hcopies
    rw [if_neg hbad]
    refine .read hhas hcopies (.pure ?_)
    have hsum : each PatchEntry.holds entries.elems entries'.elems +
          each PatchEntry.holds copies entries'.elems +
          (bufferAt buffer size + bufferAt entries.buffer entries'.allocated) =
        bufferAt entries.buffer entries'.allocated +
          each PatchEntry.holds entries.elems entries'.elems +
          (bufferAt buffer size + each PatchEntry.holds copies entries'.elems) := by
      abel
    rw [hsum, hfits]
    exact Set.add_subset_add (subset_only hcapacity (subset_only hlength subset_rfl))
      (subset_only le_rfl subset_rfl)

/-- The allocations counted once there is room for one more element. -/
def roomyAllocs {γ : Type} (a : GamePatch.GrowArray γ) (allocs : ℕ) : ℕ :=
  if a.isFull then allocs + 1 else allocs

theorem completeAll_rest (env : Env) (ctx : GamePatch.ParseContext σ)
    (metadata : GamePatch.PatchMetadata) :
    (let ctx :=
      if ctx.allPatches.isFull then
        { ctx with allPatches := ctx.allPatches.grow true, allocs := ctx.allocs + 1 }
      else ctx
    (do
      let allPatches ← ctx.allPatches.push ⟨metadata, ctx.currentEntries.elems⟩
      if env.alloc ctx.allocs = false ∧ ctx.currentEntries.elems ≠ [] then
        none
      else
        return .next { ctx with allPatches := allPatches, allocs := ctx.allocs + 1 } :
      Option (GamePatch.Flow σ))) =
    (if (roomy ctx.allPatches).elems.length < (roomy ctx.allPatches).allocated then some ()
      else none) >>= fun _ =>
    (if env.alloc (roomyAllocs ctx.allPatches ctx.allocs) = false ∧
        ctx.currentEntries.elems ≠ [] then none else some ()) >>= fun _ =>
    some (.next { ctx with
      allPatches := { roomy ctx.allPatches with
        elems := (roomy ctx.allPatches).elems ++ [⟨metadata, ctx.currentEntries.elems⟩] }
      allocs := roomyAllocs ctx.allPatches ctx.allocs + 1 }) := by
  have hpush (a : GamePatch.GrowArray GamePatch.PatchData) (allocs : ℕ) :
      (do
        let allPatches ← a.push ⟨metadata, ctx.currentEntries.elems⟩
        if env.alloc allocs = false ∧ ctx.currentEntries.elems ≠ [] then
          none
        else
          return .next { ctx with allPatches := allPatches, allocs := allocs + 1 } :
        Option (GamePatch.Flow σ)) =
      (if a.elems.length < a.allocated then some () else none) >>= fun _ =>
      (if env.alloc allocs = false ∧ ctx.currentEntries.elems ≠ [] then none else some ())
        >>= fun _ =>
      some (.next { ctx with
        allPatches := { a with elems := a.elems ++ [⟨metadata, ctx.currentEntries.elems⟩] }
        allocs := allocs + 1 }) := by
    rw [GamePatch.GrowArray.push]
    split
    · split
      · rfl
      · rfl
    · rfl
  rw [roomy, roomyAllocs]
  by_cases hfull : ctx.allPatches.isFull = true
  · simp only [if_pos hfull]
    exact hpush _ _
  · simp only [if_neg hfull]
    exact hpush _ _

theorem follows_completeAll (env : Env) {p : ℕ} {v : CString} (i : ℕ)
    (hversion : VersionOf ctx.currentPatch ctx'.currentPatch (some p) (some v)) :
    Follows (ctx.holds ctx') (completeAll env ctx p i) (GamePatch.completeAll env ctx' v i)
      fun flow flow' => flow.holds ctx.currentPatch ctx'.currentPatch flow' +
        live Block (if ctx'.title = none ∨ ctx'.title ≠ ctx'.currentPatch.title then
          stringCount (sourceTexts ctx'.currentPatch (some v)) else 0) := by
  refine .of_mem (fun m => same_of_holds) fun hsame => ?_
  refine .bind (follows_process env i hversion) fun metadata metadata' => ?_
  refine .of_only fun htexts => ?_
  refine .read (.right (has_title metadata metadata') _)
    (reads_loadOptional metadata.title metadata'.title) ?_
  have htitle : metadata'.title = ctx'.currentPatch.title := (List.cons.inj htexts).1
  rw [hsame.title, hsame.allocs, ← htitle]
  by_cases hother : ctx'.title = none ∨ ctx'.title ≠ metadata'.title
  · rw [if_pos hother, if_pos hother, if_pos hother, ← htexts]
    -- the metadata of another title is no longer reachable
    exact .pure (Set.add_subset_add (subset_only ⟨rfl, rfl⟩ subset_rfl) holds_live)
  · rw [if_neg hother, if_neg hother, if_neg hother, live_zero]
    refine .of_mem (((has_allPatches ctx ctx').left _).show_of fun m => isFull_eq) fun hfull => ?_
    rw [hfull, ParseContext.holds, only_add]
    refine .of_only fun _ => ?_
    by_cases hfails : ctx'.allPatches.isFull = true ∧ env.alloc ctx'.allocs = false
    · rw [if_pos hfails, if_pos hfails]
      refine .silent (R := titleidsAt ctx ctx' + patchAt ctx ctx' + entriesAt ctx ctx' +
          metadataAt ctx ctx' + currentMetaAt ctx ctx' + metadata.holds metadata')
        (Eq.subset (by abel)) (follows_grow _ _ false) fun allPatches => ?_
      refine .silent (R := allPatches.holds PatchData.holds (ctx'.allPatches.grow false) +
          (titleidsAt ctx ctx' + patchAt ctx ctx' + entriesAt ctx ctx' + metadataAt ctx ctx' +
            currentMetaAt ctx ctx'))
        (Eq.subset (by abel)) (follows_freePatchMetadata metadata metadata') fun _ => ?_
      refine .pure ?_
      rw [zero_add, add_zero]
      refine subset_only ⟨rfl, rfl⟩
        (subset_only { hsame with title := rfl, allocs := rfl } (Eq.subset ?_))
      abel
    · rw [if_neg hfails, if_neg hfails]
      refine .of_eq (completeAll_rest env ctx' metadata') ?_
      refine .silent (R := titleidsAt ctx ctx' + patchAt ctx ctx' + entriesAt ctx ctx' +
          metadataAt ctx ctx' + currentMetaAt ctx ctx' + metadata.holds metadata')
        (Eq.subset (by abel)) (follows_makeRoom _ _) fun allPatches => ?_
      refine .look (.left (.refl _) _) (reads_place allPatches _) fun _ hplace => ?_
      rw [Option.ite_none_right_eq_some] at hplace
      refine .step (R := allPatches.holds PatchData.holds (roomy ctx'.allPatches) +
          (titleidsAt ctx ctx' + patchAt ctx ctx' + metadataAt ctx ctx' +
            currentMetaAt ctx ctx' + metadata.holds metadata'))
        (Eq.subset (by abel)) (follows_copyEntries _ _ _) fun entries _ => ?_
      have happend := append_holds PatchData.holds allPatches (roomy ctx'.allPatches)
        ⟨metadata, entries⟩ ⟨metadata', ctx'.currentEntries.elems⟩ hplace.1
      have hsum : entriesAt ctx ctx' + entries.holds PatchEntry.holds
            ctx'.currentEntries.elems.length ctx'.currentEntries.elems +
          (allPatches.holds PatchData.holds (roomy ctx'.allPatches) +
            (titleidsAt ctx ctx' + patchAt ctx ctx' + metadataAt ctx ctx' +
              currentMetaAt ctx ctx' + metadata.holds metadata')) =
          titleidsAt ctx ctx' + patchAt ctx ctx' + entriesAt ctx ctx' + metadataAt ctx ctx' +
              currentMetaAt ctx ctx' +
            (allPatches.holds PatchData.holds (roomy ctx'.allPatches) +
              PatchData.holds ⟨metadata, entries⟩ ⟨metadata', ctx'.currentEntries.elems⟩) := by
        rw [PatchData.holds]
        abel
      refine .pure (hsum.subset.trans ((Set.add_subset_add_left happend).trans ?_))
      rw [add_zero]
      refine subset_only ⟨rfl, rfl⟩
        (subset_only { hsame with title := rfl, allocs := rfl } (Eq.subset ?_))
      abel

theorem completeMetadata_rest (env : Env) (ctx : GamePatch.ParseContext σ)
    (appVer : Option CString) (i : ℕ) :
    (let ctx :=
      if ctx.metadataArray.isFull then
        { ctx with metadataArray := ctx.metadataArray.grow true, allocs := ctx.allocs + 1 }
      else ctx
    (do
      let metadata ← GamePatch.processPatchMetadataForAppVer env ctx appVer i
      let metadataArray ← ctx.metadataArray.push metadata
      return .next { ctx with metadataArray := metadataArray } : Option (GamePatch.Flow σ))) =
    GamePatch.processPatchMetadataForAppVer env ctx appVer i >>= fun metadata =>
    (roomy ctx.metadataArray).push metadata >>= fun metadataArray =>
    some (.next { ctx with
      metadataArray := metadataArray
      allocs := roomyAllocs ctx.metadataArray ctx.allocs }) := by
  rw [roomy, roomyAllocs]
  by_cases hfull : ctx.metadataArray.isFull = true
  · simp only [if_pos hfull]
    rfl
  · simp only [if_neg hfull]
    rfl

theorem follows_completeMetadata (env : Env) {appVer : Option ℕ} {appVer' : Option CString}
    (i : ℕ) (hversion : VersionOf ctx.currentPatch ctx'.currentPatch appVer appVer') :
    Follows (ctx.holds ctx') (completeMetadata env ctx appVer i)
      (GamePatch.completeMetadata env ctx' appVer' i)
      (Flow.holds ctx.currentPatch ctx'.currentPatch) := by
  refine .of_mem (fun m => same_of_holds) fun hsame => ?_
  refine .of_mem ((has_metadata ctx ctx').show_of fun m => isFull_eq) fun hfull => ?_
  rw [completeMetadata, GamePatch.completeMetadata, hfull, hsame.allocs]
  by_cases hfails : ctx'.metadataArray.isFull = true ∧ env.alloc ctx'.allocs = false
  · rw [if_pos hfails, if_pos hfails]
    refine .of_only fun _ => ?_
    refine .silent (R := titleidsAt ctx ctx' + patchAt ctx ctx' + allPatchesAt ctx ctx' +
        entriesAt ctx ctx' + currentMetaAt ctx ctx')
      (Eq.subset (by abel)) (follows_grow _ _ false) fun metadataArray => ?_
    refine .pure (subset_only ⟨rfl, rfl⟩
      (subset_only { hsame with allocs := rfl } (Eq.subset ?_)))
    abel
  · rw [if_neg hfails, if_neg hfails]
    refine .of_eq (completeMetadata_rest env ctx' appVer' i) ?_
    refine .of_only fun _ => ?_
    refine .silent (R := titleidsAt ctx ctx' + patchAt ctx ctx' + allPatchesAt ctx ctx' +
        entriesAt ctx ctx' + currentMetaAt ctx ctx')
      (Eq.subset (by abel)) (follows_makeRoom _ _) fun metadataArray => ?_
    have hprocess := follows_processForAppVer env ctx'.gameInfo ctx'.currentPatchNumber hversion i
    rw [processPatchMetadataForAppVer, GamePatch.processPatchMetadataForAppVer, hsame.gameInfo,
      hsame.currentPatchNumber]
    refine .step (R := metadataArray.holds PatchMetadata.holds (roomy ctx'.metadataArray) +
        (titleidsAt ctx ctx' + allPatchesAt ctx ctx' + entriesAt ctx ctx' + currentMetaAt ctx ctx'))
      (Eq.subset (by abel)) hprocess fun metadata metadata' => ?_
    refine .step (R := titleidsAt ctx ctx' + patchAt ctx ctx' + allPatchesAt ctx ctx' +
        entriesAt ctx ctx' + currentMetaAt ctx ctx')
      (Eq.subset (by abel)) (follows_push metadataArray _ metadata metadata') fun array array' => ?_
    refine .pure (subset_only ⟨rfl, rfl⟩ (subset_only { hsame with
      gameInfo := rfl, currentPatchNumber := rfl, allocs := rfl } (Eq.subset ?_)))
    abel

/-- The strings of a version's metadata that nothing points to any more. -/
def lostVersion (env : Env) (ctx : GamePatch.ParseContext σ) (appVer : Option CString) : ℕ :=
  if env.prx = false ∧ ctx.mode = .all ∧ appVer = some ctx.gameInfo.appVer ∧
      (ctx.title = none ∨ ctx.title ≠ ctx.currentPatch.title) then
    stringCount (sourceTexts ctx.currentPatch appVer)
  else 0

theorem has_version {appVer : Option ℕ} {appVer' : Option CString}
    (hversion : VersionOf ctx.currentPatch ctx'.currentPatch appVer appVer') :
    Has (ctx.holds ctx') (pointsTo appVer appVer') := by
  rcases sources_of_holds hversion with ⟨R, hR⟩
  have hsources : Has (eachOptional (sources ctx.currentPatch appVer)
      (sourceTexts ctx'.currentPatch appVer')) (pointsTo appVer appVer') :=
    .right (.right (.right (.right (.right (.left (.refl _) _) _) _) _) _) _
  have hpatch : Has (patchAt ctx ctx') (pointsTo appVer appVer') := by
    rw [patchAt, hR]
    exact hsources.left R
  exact (has_patch ctx ctx').trans hpatch

theorem next_holds (ctx : ParseContext σ) (ctx' : GamePatch.ParseContext σ) (n : ℕ) (hn : n = 0) :
    ctx.holds ctx' ⊆ Flow.holds ctx.currentPatch ctx'.currentPatch (.next ctx) (.next ctx') +
      live Block n := by
  rw [hn, live_zero, add_zero]
  exact subset_only ⟨rfl, rfl⟩ subset_rfl

theorem follows_completeVersion (env : Env) {appVer : Option ℕ} {appVer' : Option CString}
    (i : ℕ) (hversion : VersionOf ctx.currentPatch ctx'.currentPatch appVer appVer') :
    Follows (ctx.holds ctx') (completeVersion env ctx appVer i)
      (GamePatch.completeVersion env ctx' appVer' i) fun flow flow' =>
        flow.holds ctx.currentPatch ctx'.currentPatch flow' +
          live Block (lostVersion env ctx' appVer') := by
  refine .of_mem (fun m => same_of_holds) fun hsame => ?_
  unfold completeVersion GamePatch.completeVersion lostVersion
  rw [hsame.mode]
  cases hprx : env.prx with
  | true => exact .pure (next_holds ctx ctx' _ (if_neg (by simp)))
  | false =>
      simp only [Bool.false_eq_true, if_false]
      cases hmode : ctx'.mode with
      | lowMem => exact .pure (next_holds ctx ctx' _ (if_neg (by simp)))
      | metadata =>
          refine (follows_completeMetadata env i hversion).mono subset_rfl fun flow flow' => ?_
          rw [if_neg (by simp)]
          exact (add_zero _).ge.trans (Set.add_subset_add_left live_zero.ge)
      | all =>
          cases hversion with
          | null => exact .failure
          | @listed strs p v hstrs hmem =>
              refine .read (has_version (.listed hstrs hmem)) (reads_loadString p v) ?_
              rw [hsame.gameInfo]
              by_cases hgame : v = ctx'.gameInfo.appVer
              · simp only [if_pos hgame]
                refine (follows_completeAll env i (.listed hstrs hmem)).mono subset_rfl
                  fun flow flow' => Eq.subset ?_
                simp [hgame]
              · simp only [if_neg hgame]
                refine .pure (next_holds ctx ctx' _ (if_neg fun h => hgame ?_))
                exact Option.some.inj h.2.2.1

/-- The strings that are lost while the versions of a block are completed. -/
def lostVersions (env : Env) :
    List (Option CString × ℕ) → GamePatch.ParseContext σ → ℕ
  | [], _ => 0
  | (appVer, i) :: rest, ctx =>
      lostVersion env ctx appVer +
        match GamePatch.completeVersion env ctx appVer i with
        | some (.next ctx) => lostVersions env rest ctx
        | _ => 0

theorem follows_completeVersions (env : Env) {patch : Patch} {patch' : GamePatch.Patch}
    {vs : List (Option ℕ × ℕ)} {vs' : List (Option CString × ℕ)}
    (hversions : Versions patch patch' vs vs') (hpatch : ctx.currentPatch = patch)
    (hpatch' : ctx'.currentPatch = patch') :
    Follows (ctx.holds ctx') (completeVersions env vs ctx)
      (GamePatch.completeVersions env vs' ctx') fun flow flow' =>
        flow.holds patch patch' flow' + live Block (lostVersions env vs' ctx') := by
  induction hversions generalizing ctx ctx' with
  | nil =>
      refine .pure ?_
      rw [lostVersions, live_zero, add_zero]
      exact subset_only ⟨hpatch, hpatch'⟩ subset_rfl
  | @cons v v' vs vs' hversion _ ih =>
      obtain ⟨appVer, i⟩ := v
      obtain ⟨appVer', i'⟩ := v'
      obtain ⟨rfl, hversion⟩ := hversion
      rw [← hpatch, ← hpatch'] at hversion
      refine .bind (follows_completeVersion env i hversion).known fun flow flow' => ?_
      refine .of_only fun hflow => ?_
      rw [lostVersions, hflow]
      cases flow with
      | next ctx₁ =>
          cases flow' with
          | next ctx₁' =>
              rw [Flow.holds, only_add]
              refine .of_only fun hpatches => ?_
              obtain ⟨hpatch₁, hpatch₁'⟩ := hpatches
              have hrest := (ih (hpatch₁.trans hpatch) (hpatch₁'.trans hpatch')).frame
                (live Block (lostVersion env ctx' appVer'))
              refine hrest.mono subset_rfl fun flow flow' => ?_
              rw [add_assoc, add_comm (live Block _)]
              exact Set.add_subset_add_left (live_add _ _)
          | done ctx₁' => exact .empty_add _
      | done ctx₁ =>
          cases flow' with
          | next ctx₁' => exact .empty_add _
          | done ctx₁' =>
              rw [hpatch, hpatch', add_zero]
              exact .pure subset_rfl

end GamePatch.Pointers
