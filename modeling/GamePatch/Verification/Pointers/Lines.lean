import GamePatch.Verification.Parser.Missing
import GamePatch.Verification.Pointers.Context

/-! # Lines and runs behind pointers

Each line does on pointers what it does on values. The blocks that a line leaves behind are
counted, and they are all that is left once the context has been freed. -/

namespace GamePatch.Pointers

open Heap
open scoped Pointwise

variable {σ : Type} {ctx : ParseContext σ} {ctx' : GamePatch.ParseContext σ}

/-! ## The next block -/

theorem follows_freePatchStrings (patch : Patch) (strs : List (Option CString)) :
    Follows (eachOptional patch.pointers strs) (freePatchStrings patch) (some ())
      fun _ _ => 0 := by
  have hprog : freePatchStrings patch = patch.pointers.forM freeOptional := by
    simp [freePatchStrings, Patch.pointers]
  rw [hprog]
  exact follows_freeOptionals _ _

theorem follows_freeString (p : ℕ) (str : CString) :
    Follows (stringAt p str) (Heap.free p) (some ()) fun _ _ => 0 := follows_free p _

/-- The version array of a patch, which is lost when the next block begins. -/
def lostTable (patch : GamePatch.Patch) : ℕ := patch.appVer.toList.length

theorem bufferAt_live (buffer : Option ℕ) (size : ℕ) :
    bufferAt buffer (size + 1) ⊆ live Block 1 := by
  cases buffer with
  | some p => exact cell_live p _
  | none => exact Set.empty_subset _

theorem follows_freeVersions (table : Table ℕ) (patch : GamePatch.Patch) :
    Follows (versionsAt table patch.appVer) (table.freeElems Heap.free) (some ())
      fun _ _ => live Block (lostTable patch) := by
  rw [lostTable]
  cases patch.appVer with
  | none =>
      refine .of_only fun htable => ?_
      rw [htable]
      exact .pure live_zero.ge
  | some strs =>
      refine (follows_freeElems follows_freeString table maxArrayLength strs).mono subset_rfl ?_
      exact fun _ _ => bufferAt_live table.buffer 15

theorem blank_holds (buffer : Option ℕ) :
    bufferAt buffer (if buffer.isSome then maxArrayLength else 0) ⊆
      (Patch.blank buffer).holds (GamePatch.Patch.blank buffer.isSome) := by
  have hpointers : eachOptional (Patch.blank buffer).pointers
      (patchTexts (GamePatch.Patch.blank buffer.isSome)) = 0 := by
    simp [Patch.pointers, patchTexts, Patch.blank, GamePatch.Patch.blank]
  rw [Patch.holds, hpointers, zero_add]
  refine subset_only rfl ?_
  cases buffer with
  | none => exact subset_only rfl subset_rfl
  | some p => exact subset_only (Nat.zero_le _) (add_zero _).ge

theorem follows_resetCurrentPatch (env : Env) :
    Follows (ctx.holds ctx') (resetCurrentPatch env ctx)
      (some (GamePatch.resetCurrentPatch env ctx')) fun reset reset' =>
        reset.holds reset' + live Block (lostTable ctx'.currentPatch) := by
  refine .of_only fun hsame => ?_
  unfold resetCurrentPatch GamePatch.resetCurrentPatch
  rw [hsame.allocs]
  have hpatch : patchAt ctx ctx' ⊆
      eachOptional ctx.currentPatch.pointers (patchTexts ctx'.currentPatch) +
        versionsAt ctx.currentPatch.appVer ctx'.currentPatch.appVer := fun _ hm => hm.2
  refine .silent (R := versionsAt ctx.currentPatch.appVer ctx'.currentPatch.appVer +
      (titleidsAt ctx ctx' + allPatchesAt ctx ctx' + entriesAt ctx ctx' + metadataAt ctx ctx' +
        currentMetaAt ctx ctx')) ?_
    (follows_freePatchStrings ctx.currentPatch (patchTexts ctx'.currentPatch)) fun _ => ?_
  · have hsum : titleidsAt ctx ctx' + patchAt ctx ctx' + allPatchesAt ctx ctx' +
          entriesAt ctx ctx' + metadataAt ctx ctx' + currentMetaAt ctx ctx' =
        patchAt ctx ctx' + (titleidsAt ctx ctx' + allPatchesAt ctx ctx' + entriesAt ctx ctx' +
          metadataAt ctx ctx' + currentMetaAt ctx ctx') := by
      abel
    exact hsum.subset.trans ((Set.add_subset_add_right hpatch).trans (add_assoc _ _ _).subset)
  rw [zero_add]
  refine .silent subset_rfl (follows_freeVersions ctx.currentPatch.appVer ctx'.currentPatch)
    fun _ => ?_
  refine .silent (zero_add _).ge (follows_mallocArray (env.alloc ctx'.allocs) maxArrayLength)
    fun buffer => ?_
  rw [only_add]
  refine .of_only fun halloc => ?_
  have hblank := blank_holds buffer
  rw [halloc] at hblank
  refine .pure ((Set.add_subset_add_right hblank).trans ?_)
  rw [ParseContext.holds, only_add]
  refine subset_only { hsame with inPatchesSection := rfl, allocs := rfl } (Eq.subset ?_)
  abel

theorem follows_clearEntries (ctx : ParseContext σ) (ctx' : GamePatch.ParseContext σ) :
    Follows (ctx.holds ctx') (ctx.currentEntries.freeElems freePatchEntry) (some ()) fun _ _ =>
      ParseContext.holds { ctx with currentEntries := { ctx.currentEntries with elems := [] } }
        { ctx' with currentEntries := { ctx'.currentEntries with elems := [] } } := by
  refine .of_only fun hsame => ?_
  have hfree := follows_freeElems follows_freePatchEntry ctx.currentEntries.toTable
    ctx'.currentEntries.allocated ctx'.currentEntries.elems
  have hentries : Follows (entriesAt ctx ctx') (ctx.currentEntries.freeElems freePatchEntry)
      (some ()) fun _ _ => GrowArray.holds PatchEntry.holds { ctx.currentEntries with elems := [] }
        { ctx'.currentEntries with elems := [] } :=
    .of_only fun hcapacity => hfree.mono subset_rfl fun _ _ =>
      subset_only hcapacity (subset_only (Nat.zero_le _) (add_zero _).ge)
  refine (hentries.frame (titleidsAt ctx ctx' + patchAt ctx ctx' + allPatchesAt ctx ctx' +
    metadataAt ctx ctx' + currentMetaAt ctx ctx')).mono (Eq.subset (by abel)) fun _ _ => ?_
  refine subset_only { hsame with } (Eq.subset ?_)
  abel

theorem numbered_holds {n n' : ℕ} (hn : n = n') : ctx.holds ctx' ⊆
    ParseContext.holds { ctx with currentPatchNumber := n }
      { ctx' with currentPatchNumber := n' } :=
  fun _ hm => ⟨{ hm.1 with currentPatchNumber := hn }, hm.2⟩

/-- What is lost when a block is completed. -/
def lostBlock (env : Env) (ctx : GamePatch.ParseContext σ) : ℕ :=
  if ctx.currentPatch.title = none then 0
  else
    lostVersions env ctx.currentPatch.versions ctx +
      match GamePatch.completeVersions env ctx.currentPatch.versions ctx with
      | some (.next _) => lostTable ctx.currentPatch
      | _ => 0

theorem title_eq_none {m : Multiset (ℕ × Block)} (hm : m ∈ ctx.holds ctx') :
    ctx.currentPatch.title = none ↔ ctx'.currentPatch.title = none := by
  have htitle : Has (patchAt ctx ctx') (pointsTo ctx.currentPatch.title ctx'.currentPatch.title) :=
    fun _ hm =>
      (((Has.refl (pointsTo ctx.currentPatch.title ctx'.currentPatch.title)).left _).left _) hm.2
  refine ((has_patch ctx ctx').trans htitle).show_of (fun m hm => ?_) m hm
  cases hp : ctx.currentPatch.title with
  | none =>
      cases hstr : ctx'.currentPatch.title with
      | none => exact iff_of_true rfl rfl
      | some str =>
          rw [hp, hstr] at hm
          exact hm.elim
  | some p =>
      cases hstr : ctx'.currentPatch.title with
      | none =>
          rw [hp, hstr] at hm
          exact hm.elim
      | some str => exact iff_of_false (Option.some_ne_none p) (Option.some_ne_none str)

theorem follows_handlePatchComplete (env : Env) :
    Follows (ctx.holds ctx') (handlePatchComplete env ctx)
      (GamePatch.handlePatchComplete env ctx') fun next next' =>
        next.holds next' + live Block (lostBlock env ctx') := by
  refine .of_mem (fun m => title_eq_none) fun htitle => ?_
  unfold handlePatchComplete GamePatch.handlePatchComplete lostBlock
  by_cases hnone : ctx'.currentPatch.title = none
  · rw [if_pos hnone, if_pos hnone, if_pos (htitle.mpr hnone), live_zero]
    exact .pure (add_zero _).ge
  · rw [if_neg hnone, if_neg hnone, if_neg (fun h => hnone (htitle.mp h))]
    refine .of_mem ((has_patch ctx ctx').show_of fun m => versions_of_holds) fun hversions => ?_
    refine .read (has_patch ctx ctx') (reads_versions _ _) ?_
    refine .bind (follows_completeVersions env hversions rfl rfl).known fun flow flow' => ?_
    refine .of_only fun hflow => ?_
    rw [hflow]
    cases flow with
    | done ctx₁ =>
        cases flow' with
        | next ctx₁' => exact .empty_add _
        | done ctx₁' =>
            refine .pure ?_
            rw [add_zero, Flow.holds, only_add]
            exact fun _ hm => hm.2
    | next ctx₁ =>
        cases flow' with
        | done ctx₁' => exact .empty_add _
        | next ctx₁' =>
            rw [Flow.holds, only_add]
            refine .of_only fun hpatches => ?_
            refine .silent subset_rfl (follows_clearEntries ctx₁ ctx₁') fun _ => ?_
            -- here the version array of the block is lost
            refine .silent subset_rfl (follows_resetCurrentPatch env) fun ctx₂ => ?_
            refine .of_mem (p := ctx₂.currentPatchNumber = ctx₁'.currentPatchNumber) ?_
              fun hnumber => ?_
            · rintro m ⟨_, ⟨_, hm, _⟩, _⟩
              exact hm.1.currentPatchNumber
            · rw [hnumber]
              let ctx₂' := GamePatch.resetCurrentPatch env { ctx₁' with
                currentEntries := { ctx₁'.currentEntries with elems := [] } }
              have hnext : ctx₂.holds ctx₂' ⊆ ParseContext.holds
                  { ctx₂ with
                    currentPatchNumber := env.sizeT (ctx₁'.currentPatchNumber + 1) }
                  { ctx₂' with
                    currentPatchNumber := env.sizeT (ctx₁'.currentPatchNumber + 1) } :=
                numbered_holds rfl
              refine .pure ((Set.add_subset_add_right (Set.add_subset_add_right hnext)).trans ?_)
              rw [add_assoc, add_comm (live Block _), ← hpatches.2]
              exact Set.add_subset_add_left (live_add _ _)

/-! ## Keys and versions -/

theorem eachString_live (ps : List ℕ) (strs : List CString) :
    eachString ps strs ⊆ live Block strs.length := by
  have hsize : (strs.map fun _ => 1).sum = strs.length := by simp
  rw [← hsize]
  exact each_live (fun p str => cell_live p (Block.string str)) _ _

def Patch.keyPointer (patch : Patch) : Key → Option ℕ
  | .title => patch.title
  | .name => patch.name
  | .notes => patch.notes
  | .author => patch.author
  | .version => patch.version
  | .appBin => patch.appBin

/-- What the key held before is no longer the patch's. -/
theorem setKey_pointers (patch : Patch) (patch' : GamePatch.Patch) (k : Key) (p : Option ℕ)
    (str : Option CString) :
    eachOptional patch.pointers (patchTexts patch') + pointsTo p str =
      eachOptional (patch.setKey k p).pointers (patchTexts (patch'.setKey k str)) +
        pointsTo (patch.keyPointer k) (patch'.value k) := by
  cases k with
  | _ =>
      simp only [eachOptional, Patch.pointers, patchTexts, Patch.setKey, GamePatch.Patch.setKey,
        Patch.keyPointer, GamePatch.Patch.value, each_cons, each_nil]
      abel

theorem setKey_holds (patch : Patch) (patch' : GamePatch.Patch) (k : Key) (p : Option ℕ)
    (str : Option CString) :
    patch.holds patch' + pointsTo p str ⊆
      (patch.setKey k p).holds (patch'.setKey k str) +
        live Block (patch'.value k).toList.length := by
  rw [Patch.holds, Patch.holds, only_add, only_add]
  rintro m ⟨hlist, hm⟩
  have hlost : pointsTo (patch.keyPointer k) (patch'.value k) ⊆
      live Block (patch'.value k).toList.length :=
    optional_live (fun p str => cell_live p (Block.string str)) _ _
  have hkept : (patch.setKey k p).isAppVerList = (patch'.setKey k str).isAppVerList := by
    cases k with
    | _ => exact hlist
  have htable : versionsAt (patch.setKey k p).appVer (patch'.setKey k str).appVer =
      versionsAt patch.appVer patch'.appVer := by
    cases k with
    | _ => rfl
  refine ⟨hkept, Set.add_subset_add_left hlost ?_⟩
  rw [htable, add_right_comm, ← setKey_pointers, add_right_comm]
  exact hm

theorem follows_setKey (patch : Patch) (patch' : GamePatch.Patch) (k : Key) (trimmed : CString) :
    Follows (patch.holds patch')
      (do
        let p ← parseQuotedString trimmed
        return patch.setKey k p)
      (some (patch'.setKey k (GamePatch.parseQuotedString trimmed)))
      fun patch patch₁' => patch.holds patch₁' + live Block (patch'.value k).toList.length := by
  refine .silent (zero_add _).ge (follows_parseQuotedString trimmed) fun p => ?_
  refine .pure ((add_comm _ _).subset.trans ?_)
  exact setKey_holds patch patch' k p _

theorem length_lineVersions_le (line : CString) :
    (lineVersions line).length ≤ maxArrayLength := by
  rw [lineVersions]
  split
  · exact length_parseItems_le _ _
  · exact (Option.length_toList_le).trans (by decide)

theorem setAppVer_eq (patch' : GamePatch.Patch) (line : CString) :
    patch'.setAppVer (trim line) = { patch' with
      isAppVerList := isListValue (trim line)
      appVer := patch'.appVer.map fun _ => lineVersions line } := by
  rw [GamePatch.Patch.setAppVer, lineVersions]
  split
  case isTrue hlist => rw [hlist]
  case isFalse hlist => rw [Bool.eq_false_iff.mpr hlist]

theorem follows_parseVersions (line : CString) :
    Follows 0 (parseVersions (trim line)) (some (lineVersions line)) eachString := by
  rw [parseVersions, lineVersions]
  split
  · exact follows_parseItems _ _
  · refine .silent (zero_add _).ge (follows_parseQuotedString (trim line)) fun p => ?_
    rw [add_zero]
    cases p with
    | none =>
        cases GamePatch.parseQuotedString (trim line) with
        | none => exact .pure subset_rfl
        | some str => exact .empty
    | some p =>
        cases GamePatch.parseQuotedString (trim line) with
        | none => exact .empty
        | some str => exact .pure (add_zero _).ge

theorem follows_setAppVer (patch : Patch) (patch' : GamePatch.Patch) (line : CString) :
    Follows (patch.holds patch') (patch.setAppVer (trim line)) (some (patch'.setAppVer (trim line)))
      fun patch patch₁' => patch.holds patch₁' + live Block patch'.appVers.length := by
  rw [setAppVer_eq, Patch.holds, GamePatch.Patch.appVers]
  refine .of_only fun _ => ?_
  cases hstrs : patch'.appVer with
  | none =>
      have htable : ∀ m ∈ eachOptional patch.pointers (patchTexts patch') +
          versionsAt patch.appVer none, patch.appVer = ⟨none, []⟩ := by
        rintro _ ⟨_, _, _, hm, _⟩
        exact hm.1
      refine .of_mem htable fun htable => ?_
      have hprog : patch.setAppVer (trim line) =
          Pure.pure { patch with isAppVerList := isListValue (trim line) } := by
        rw [Patch.setAppVer, htable]
      rw [hprog]
      refine .pure ?_
      rw [Option.getD_none, List.length_nil, live_zero, add_zero]
      exact subset_only rfl subset_rfl
  | some strs =>
      cases hbuffer : patch.appVer.buffer with
      | none =>
          have hempty : versionsAt patch.appVer (some strs) = ∅ := by
            rw [versionsAt, Table.holds, hbuffer]
            refine Set.subset_empty_iff.mp ?_
            rintro _ ⟨_, _, hm, _⟩
            exact hm
          rw [hempty, Set.add_empty]
          exact .empty
      | some p =>
          have hprog : patch.setAppVer (trim line) = (do
              let ps ← parseVersions (trim line)
              let elems ← patch.appVer.access ps
              Pure.pure { patch with
                appVer := { patch.appVer with elems := elems }
                isAppVerList := isListValue (trim line) }) := by
            rw [Patch.setAppVer, hbuffer]
          rw [hprog]
          refine .silent (zero_add _).ge (follows_parseVersions line) fun ps => ?_
          have haccess := reads_access stringAt patch.appVer ps (lineVersions line)
            maxArrayLength
          rw [if_pos (length_lineVersions_le line)] at haccess
          have htable : versionsAt patch.appVer (some strs) ⊆
              bufferAt patch.appVer.buffer maxArrayLength + eachString patch.appVer.elems strs :=
            fun _ hm => hm.2
          have hsum : eachString ps (lineVersions line) +
                (eachOptional patch.pointers (patchTexts patch') +
                  versionsAt patch.appVer (some strs)) ⊆
              bufferAt patch.appVer.buffer maxArrayLength +
                eachString ps (lineVersions line) +
                (eachOptional patch.pointers (patchTexts patch') +
                  eachString patch.appVer.elems strs) :=
            (Set.add_subset_add_left (Set.add_subset_add_left htable)).trans
              (Eq.subset (by abel))
          refine .read (.of_subset hsum) haccess (.pure (hsum.trans ?_))
          rw [Patch.holds, only_add]
          refine subset_only rfl ?_
          have hregroup : bufferAt patch.appVer.buffer maxArrayLength +
                eachString ps (lineVersions line) +
                (eachOptional patch.pointers (patchTexts patch') +
                  eachString patch.appVer.elems strs) =
              eachOptional patch.pointers (patchTexts patch') +
                (bufferAt patch.appVer.buffer maxArrayLength +
                  eachString ps (lineVersions line)) +
                eachString patch.appVer.elems strs := by
            abel
          rw [hregroup]
          refine Set.add_subset_add (Set.add_subset_add_left ?_) (eachString_live _ _)
          exact subset_only (length_lineVersions_le line) subset_rfl

/-! ## The lines of a block -/

/-- A new patch in the context. -/
theorem follows_onPatch {prog : HeapM Block Patch} {patch' : GamePatch.Patch} {n : ℕ}
    (hprog : Follows (patchAt ctx ctx') prog (some patch') fun patch patch' =>
      patch.holds patch' + live Block n) :
    Follows (ctx.holds ctx')
      (do
        let patch ← prog
        return { ctx with currentPatch := patch })
      (some { ctx' with currentPatch := patch' })
      fun ctx ctx' => ctx.holds ctx' + live Block n := by
  refine .of_only fun hsame => ?_
  refine .silent (R := titleidsAt ctx ctx' + allPatchesAt ctx ctx' + entriesAt ctx ctx' +
    metadataAt ctx ctx' + currentMetaAt ctx ctx') (Eq.subset (by abel)) hprog fun patch => ?_
  refine .pure ?_
  rw [ParseContext.holds, only_add]
  refine subset_only { hsame with } (Eq.subset ?_)
  abel

theorem follows_titleids (trimmed : CString) :
    Follows (ctx.holds ctx')
      (do
        let ps ← parseItems maxArrayLength trimmed
        let elems ← ctx.globalTitleids.access ps
        return { ctx with globalTitleids := { ctx.globalTitleids with elems := elems } })
      (some { ctx' with globalTitleids := parseStringList trimmed maxArrayLength })
      fun ctx ctx₁' => ctx.holds ctx₁' + live Block ctx'.globalTitleids.length := by
  refine .of_only fun hsame => ?_
  refine .silent (zero_add _).ge (follows_parseItems maxArrayLength trimmed) fun ps => ?_
  have hlength := length_parseItems_le maxArrayLength trimmed
  have haccess := reads_access stringAt ctx.globalTitleids ps
    (GamePatch.parseItems maxArrayLength trimmed) maxArrayLength
  rw [if_pos hlength] at haccess
  have htitleids : titleidsAt ctx ctx' ⊆ bufferAt ctx.globalTitleids.buffer maxArrayLength +
      eachString ctx.globalTitleids.elems ctx'.globalTitleids := fun _ hm => hm.2
  have hsum : eachString ps (GamePatch.parseItems maxArrayLength trimmed) +
        (titleidsAt ctx ctx' + patchAt ctx ctx' + allPatchesAt ctx ctx' + entriesAt ctx ctx' +
          metadataAt ctx ctx' + currentMetaAt ctx ctx') ⊆
      bufferAt ctx.globalTitleids.buffer maxArrayLength +
        eachString ps (GamePatch.parseItems maxArrayLength trimmed) +
        (patchAt ctx ctx' + allPatchesAt ctx ctx' + entriesAt ctx ctx' + metadataAt ctx ctx' +
          currentMetaAt ctx ctx' + eachString ctx.globalTitleids.elems ctx'.globalTitleids) := by
    refine (Set.add_subset_add_left (Set.add_subset_add_right (Set.add_subset_add_right
      (Set.add_subset_add_right (Set.add_subset_add_right (Set.add_subset_add_right
        htitleids)))))).trans (Eq.subset ?_)
    abel
  -- the new ids are stored over the old ones, which nothing frees
  refine .read (.of_subset hsum) haccess (.pure (hsum.trans ?_))
  rw [ParseContext.holds, only_add]
  refine subset_only { hsame with } ?_
  rw [← add_assoc]
  refine Set.add_subset_add ?_ (eachString_live _ _)
  have hstored : bufferAt ctx.globalTitleids.buffer maxArrayLength +
        eachString ps (GamePatch.parseItems maxArrayLength trimmed) ⊆
      Table.holds stringAt { ctx.globalTitleids with elems := ps } maxArrayLength
        (GamePatch.parseItems maxArrayLength trimmed) := subset_only hlength subset_rfl
  refine (Set.add_subset_add_right hstored).trans (Eq.subset ?_)
  rw [parseStringList]
  abel

/-! ## Announcing the versions -/

/-- The metadata shown to the callback is the metadata of the plain parser. -/
theorem follows_callMeta (metadata : PatchMetadata) (metadata' : GamePatch.PatchMetadata) :
    Follows (ctx.holds ctx' + metadata.holds metadata') (callMeta ctx metadata)
      (some (match ctx'.metaCallback with
        | none => ctx'
        | some callback =>
            if metadata'.matchesGame then
              { ctx' with
                userData := callback metadata' ctx'.userData
                processingEnabledPatch := metadata'.matchesGame && metadata'.enabled }
            else ctx'))
      fun ctx₁ ctx₁' =>
        only (ctx₁.currentPatch = ctx.currentPatch ∧ ctx₁'.currentPatch = ctx'.currentPatch)
          (ctx₁.holds ctx₁' + metadata.holds metadata') := by
  have hsame : ∀ m ∈ ctx.holds ctx' + metadata.holds metadata',
      SameContext ctx ctx' ∧ SameMetadata metadata metadata' := by
    rintro _ ⟨_, hm, _, hm', _⟩
    exact ⟨hm.1, hm'.1⟩
  refine .of_mem hsame fun hboth => ?_
  obtain ⟨hctx, hmetadata⟩ := hboth
  rw [callMeta, hctx.metaCallback, hmetadata.matchesGame]
  cases ctx'.metaCallback with
  | none => exact .pure (subset_only ⟨rfl, rfl⟩ subset_rfl)
  | some callback =>
      simp only
      split
      · refine .read (.right (.refl _) _) (reads_loadMetadata metadata metadata') ?_
        refine .pure (subset_only ⟨rfl, rfl⟩ (Set.add_subset_add_right ?_))
        rintro m ⟨_, hm⟩
        refine ⟨{ hctx with
          metaCallback := rfl, userData := ?_, processingEnabledPatch := ?_ }, hm⟩
        · exact congrArg (callback metadata') hctx.userData
        · exact congrArg (_ && ·) hmetadata.enabled
      · exact .pure (subset_only ⟨rfl, rfl⟩ subset_rfl)

theorem follows_keepFirst (metadata : PatchMetadata) (metadata' : GamePatch.PatchMetadata)
    (i : ℕ) :
    Follows (ctx.holds ctx' + metadata.holds metadata') (keepFirst ctx metadata i)
      (some (if i = 0 then { ctx' with currentMeta := metadata' } else ctx')) fun ctx₁ ctx₁' =>
        only (ctx₁.currentPatch = ctx.currentPatch ∧ ctx₁'.currentPatch = ctx'.currentPatch)
          (ctx₁.holds ctx₁') := by
  rw [keepFirst]
  split
  · rw [ParseContext.holds, only_add]
    refine .of_only fun hsame => ?_
    refine .silent (R := titleidsAt ctx ctx' + patchAt ctx ctx' + allPatchesAt ctx ctx' +
        entriesAt ctx ctx' + metadataAt ctx ctx' + metadata.holds metadata')
      (Eq.subset (by abel)) (follows_freePatchMetadata ctx.currentMeta ctx'.currentMeta)
      fun _ => ?_
    refine .pure ((zero_add _).subset.trans (subset_only ⟨rfl, rfl⟩ ?_))
    exact subset_only { hsame with } subset_rfl
  · refine .silent (add_comm _ _).subset (follows_freePatchMetadata metadata metadata')
      fun _ => ?_
    exact .pure ((zero_add _).subset.trans (subset_only ⟨rfl, rfl⟩ subset_rfl))

/-- Every version's metadata is freed, but for the one kept in the context. -/
theorem follows_announceVersions (env : Env) {patch : Patch} {patch' : GamePatch.Patch}
    {vs : List (Option ℕ × ℕ)} {vs' : List (Option CString × ℕ)}
    (hversions : Versions patch patch' vs vs') (hpatch : ctx.currentPatch = patch)
    (hpatch' : ctx'.currentPatch = patch') :
    Follows (ctx.holds ctx') (announceVersions env vs ctx)
      (GamePatch.announceVersions env vs' ctx') ParseContext.holds := by
  induction hversions generalizing ctx ctx' with
  | nil => exact .pure subset_rfl
  | @cons v v' vs vs' hversion _ ih =>
      obtain ⟨appVer, i⟩ := v
      obtain ⟨appVer', i'⟩ := v'
      obtain ⟨rfl, hversion⟩ := hversion
      rw [← hpatch, ← hpatch'] at hversion
      refine .bind (follows_process env i hversion) fun metadata metadata' => ?_
      refine .of_only fun _ => ?_
      refine .silent (add_zero _).ge (follows_callMeta metadata metadata') fun ctx₁ => ?_
      rw [add_zero]
      refine .of_only fun hcalled => ?_
      obtain ⟨hpatch₁, hpatch₁'⟩ := hcalled
      refine .silent (add_zero _).ge (follows_keepFirst metadata metadata' i) fun ctx₂ => ?_
      rw [add_zero]
      refine .of_only fun hkept => ?_
      obtain ⟨hpatch₂, hpatch₂'⟩ := hkept
      exact ih ((hpatch₂.trans hpatch₁).trans hpatch) ((hpatch₂'.trans hpatch₁').trans hpatch')

/-! ## Entries -/

theorem has_currentMeta (ctx : ParseContext σ) (ctx' : GamePatch.ParseContext σ) :
    Has (ctx.holds ctx') (currentMetaAt ctx ctx') :=
  .under _ ((Has.refl (currentMetaAt ctx ctx')).right _)

theorem follows_callEntry (entry : PatchEntry) (entry' : GamePatch.PatchEntry) :
    Follows (ctx.holds ctx' + entry.holds entry') (callEntry ctx entry)
      (match ctx'.entryCallback with
        | none => some ctx'
        | some callback =>
            if ctx'.processingEnabledPatch then
              some { ctx' with userData := callback ctx'.currentMeta entry' ctx'.userData }
            else some ctx')
      fun ctx ctx' => ctx.holds ctx' + entry.holds entry' := by
  have hsame : ∀ m ∈ ctx.holds ctx' + entry.holds entry', SameContext ctx ctx' := by
    rintro _ ⟨_, hm, _⟩
    exact hm.1
  refine .of_mem hsame fun hctx => ?_
  rw [callEntry, hctx.entryCallback, hctx.processingEnabledPatch]
  cases ctx'.entryCallback with
  | none => exact .pure subset_rfl
  | some callback =>
      simp only
      split
      · refine .read (.left (has_currentMeta ctx ctx') _) (reads_loadMetadata _ _) ?_
        refine .read (.right (.refl _) _) (reads_loadEntry entry entry') ?_
        refine .pure (Set.add_subset_add_right ?_)
        rintro m ⟨_, hm⟩
        refine ⟨{ hctx with
          entryCallback := rfl, userData := ?_, processingEnabledPatch := rfl }, hm⟩
        exact congrArg (callback ctx'.currentMeta entry') hctx.userData
      · exact .pure subset_rfl

/-- The parameters of an entry that is neither stored nor freed. -/
def lostEntry (env : Env) (ctx : GamePatch.ParseContext σ) (entry : GamePatch.PatchEntry) : ℕ :=
  if entry.params.length < minPatchParams ∨ ctx.mode = .all ∧ env.prx = true then
    entry.params.length
  else 0

theorem processEntry_rest (ctx : GamePatch.ParseContext σ) (entry : GamePatch.PatchEntry) :
    (let ctx :=
      if ctx.currentEntries.isFull then
        { ctx with
          currentEntries := ctx.currentEntries.grow true
          allocs := ctx.allocs + 1 }
      else ctx
    (do
      let currentEntries ← ctx.currentEntries.push entry
      return { ctx with currentEntries := currentEntries } : Option (GamePatch.ParseContext σ))) =
    (roomy ctx.currentEntries).push entry >>= fun currentEntries =>
    some { ctx with
      currentEntries := currentEntries
      allocs := roomyAllocs ctx.currentEntries ctx.allocs } := by
  rw [roomy, roomyAllocs]
  by_cases hfull : ctx.currentEntries.isFull = true
  · simp only [if_pos hfull]
    rfl
  · simp only [if_neg hfull]
    rfl

theorem follows_entry_lowMem (env : Env) (entry : PatchEntry) (entry' : GamePatch.PatchEntry)
    (hmode : ctx.mode = .lowMem) (hmode' : ctx'.mode = .lowMem)
    (hlong : ¬ entry.params.length < minPatchParams)
    (hlong' : ¬ entry'.params.length < minPatchParams) :
    Follows (ctx.holds ctx' + entry.holds entry') (processEntry env ctx entry)
      (GamePatch.processEntry env ctx' entry') ParseContext.holds := by
  have hprog : processEntry env ctx entry = (do
      let ctx ← callEntry ctx entry
      freePatchEntry entry
      Pure.pure ctx) := by
    cases ctx
    cases hmode
    exact if_neg hlong
  have hspec : GamePatch.processEntry env ctx' entry' = match ctx'.entryCallback with
      | none => some ctx'
      | some callback =>
          if ctx'.processingEnabledPatch then
            some { ctx' with userData := callback ctx'.currentMeta entry' ctx'.userData }
          else some ctx' := by
    cases ctx'
    cases hmode'
    exact if_neg hlong'
  rw [hprog]
  refine .of_eq (hspec.trans (bind_pure _).symm) (.bind (follows_callEntry entry entry') ?_)
  intro ctx₁ ctx₁'
  refine .silent (add_comm _ _).subset (follows_freePatchEntry entry entry') fun _ => ?_
  exact .pure (zero_add _).subset

theorem follows_entry_metadata (env : Env) (entry : PatchEntry) (entry' : GamePatch.PatchEntry)
    (hmode : ctx.mode = .metadata) (hmode' : ctx'.mode = .metadata)
    (hlong : ¬ entry.params.length < minPatchParams)
    (hlong' : ¬ entry'.params.length < minPatchParams) :
    Follows (ctx.holds ctx' + entry.holds entry') (processEntry env ctx entry)
      (GamePatch.processEntry env ctx' entry') ParseContext.holds := by
  have hprog : processEntry env ctx entry = (do
      freePatchEntry entry
      Pure.pure ctx) := by
    cases ctx
    cases hmode
    exact if_neg hlong
  have hspec : GamePatch.processEntry env ctx' entry' = some ctx' := by
    cases ctx'
    cases hmode'
    exact if_neg hlong'
  rw [hprog, hspec]
  refine .silent (add_comm _ _).subset (follows_freePatchEntry entry entry') fun _ => ?_
  exact .pure (zero_add _).subset

theorem follows_storeEntry (env : Env) (entry : PatchEntry) (entry' : GamePatch.PatchEntry)
    (hmode : ctx'.mode = .all) (hprx : ¬ env.prx = true)
    (hlong : ¬ entry'.params.length < minPatchParams) :
    Follows (ctx.holds ctx' + entry.holds entry') (storeEntry env ctx entry)
      (GamePatch.processEntry env ctx' entry') ParseContext.holds := by
  have hspec : GamePatch.processEntry env ctx' entry' =
      if ctx'.currentEntries.isFull ∧ env.alloc ctx'.allocs = false then
        some { ctx' with
          currentEntries := ctx'.currentEntries.grow false
          allocs := ctx'.allocs + 1 }
      else
        (roomy ctx'.currentEntries).push entry' >>= fun currentEntries =>
        some { ctx' with
          currentEntries := currentEntries
          allocs := roomyAllocs ctx'.currentEntries ctx'.allocs } := by
    rw [← processEntry_rest]
    cases ctx'
    cases hmode
    exact (if_neg hlong).trans (if_neg hprx)
  rw [hspec, storeEntry]
  refine .of_mem (((has_entries ctx ctx').left _).show_of fun m => isFull_eq) fun hfull => ?_
  rw [ParseContext.holds, only_add]
  refine .of_only fun hsame => ?_
  rw [hfull, hsame.allocs]
  by_cases hfails : ctx'.currentEntries.isFull = true ∧ env.alloc ctx'.allocs = false
  · rw [if_pos hfails, if_pos hfails]
    refine .silent (R := titleidsAt ctx ctx' + patchAt ctx ctx' + allPatchesAt ctx ctx' +
        metadataAt ctx ctx' + currentMetaAt ctx ctx' + entry.holds entry')
      (Eq.subset (by abel)) (follows_grow _ _ false) fun currentEntries => ?_
    refine .silent (R := currentEntries.holds PatchEntry.holds (ctx'.currentEntries.grow false) +
        (titleidsAt ctx ctx' + patchAt ctx ctx' + allPatchesAt ctx ctx' + metadataAt ctx ctx' +
          currentMetaAt ctx ctx'))
      (Eq.subset (by abel)) (follows_freePatchEntry entry entry') fun _ => ?_
    refine .pure (subset_only { hsame with allocs := rfl } (Eq.subset ?_))
    rw [zero_add]
    abel
  · rw [if_neg hfails, if_neg hfails]
    refine .silent (R := titleidsAt ctx ctx' + patchAt ctx ctx' + allPatchesAt ctx ctx' +
        metadataAt ctx ctx' + currentMetaAt ctx ctx' + entry.holds entry')
      (Eq.subset (by abel)) (follows_makeRoom _ _) fun currentEntries => ?_
    refine .step (R := titleidsAt ctx ctx' + patchAt ctx ctx' + allPatchesAt ctx ctx' +
        metadataAt ctx ctx' + currentMetaAt ctx ctx')
      (Eq.subset (by abel)) (follows_push currentEntries _ entry entry') fun array array' => ?_
    refine .pure (subset_only { hsame with allocs := rfl } (Eq.subset ?_))
    abel

theorem follows_entry_all (env : Env) (entry : PatchEntry) (entry' : GamePatch.PatchEntry)
    (hmode : ctx.mode = .all) (hmode' : ctx'.mode = .all)
    (hlong : ¬ entry.params.length < minPatchParams)
    (hlong' : ¬ entry'.params.length < minPatchParams) :
    Follows (ctx.holds ctx' + entry.holds entry') (processEntry env ctx entry)
      (GamePatch.processEntry env ctx' entry') fun ctx ctx' =>
        ctx.holds ctx' + live Block (if env.prx then entry'.params.length else 0) := by
  by_cases hprx : env.prx = true
  · have hprog : processEntry env ctx entry = Pure.pure ctx := by
      cases ctx
      cases hmode
      exact (if_neg hlong).trans (if_pos hprx)
    have hspec : GamePatch.processEntry env ctx' entry' = some ctx' := by
      cases ctx'
      cases hmode'
      exact (if_neg hlong').trans (if_pos hprx)
    rw [hprog, hspec, if_pos hprx]
    exact .pure (Set.add_subset_add_left (eachString_live _ _))
  · have hprog : processEntry env ctx entry = storeEntry env ctx entry := by
      cases ctx
      cases hmode
      exact (if_neg hlong).trans (if_neg hprx)
    rw [hprog, if_neg hprx, live_zero]
    simp only [add_zero]
    exact follows_storeEntry env entry entry' hmode' hprx hlong'

theorem follows_processEntry (env : Env) (entry : PatchEntry) (entry' : GamePatch.PatchEntry) :
    Follows (ctx.holds ctx' + entry.holds entry') (processEntry env ctx entry)
      (GamePatch.processEntry env ctx' entry') fun ctx ctx₁' =>
        ctx.holds ctx₁' + live Block (lostEntry env ctx' entry') := by
  have hshown : ∀ m ∈ ctx.holds ctx' + entry.holds entry',
      SameContext ctx ctx' ∧ entry.params.length = entry'.params.length := by
    rintro _ ⟨_, hm, _, hm', _⟩
    exact ⟨hm.1, length_of_each hm'⟩
  refine .of_mem hshown fun hboth => ?_
  obtain ⟨hsame, hlength⟩ := hboth
  rw [lostEntry]
  by_cases hshort : entry'.params.length < minPatchParams
  · rw [if_pos (Or.inl hshort), processEntry, GamePatch.processEntry, hlength, if_pos hshort,
      if_pos hshort]
    exact .pure (Set.add_subset_add_left (eachString_live _ _))
  · have hlong : ¬ entry.params.length < minPatchParams := by rwa [hlength]
    cases hmode : ctx'.mode with
    | metadata =>
        rw [if_neg (by simp [hshort]), live_zero]
        simp only [add_zero]
        exact follows_entry_metadata env entry entry' (hsame.mode.trans hmode) hmode hlong hshort
    | lowMem =>
        rw [if_neg (by simp [hshort]), live_zero]
        simp only [add_zero]
        exact follows_entry_lowMem env entry entry' (hsame.mode.trans hmode) hmode hlong hshort
    | all =>
        refine (follows_entry_all env entry entry' (hsame.mode.trans hmode) hmode hlong
          hshort).mono subset_rfl fun ctx ctx' => Eq.subset ?_
        simp [hshort]

/-! ## Lines -/

theorem follows_parsePatchEntry (str : CString) :
    Follows 0 (parsePatchEntry str) (some (GamePatch.parsePatchEntry str)) PatchEntry.holds := by
  refine .silent (zero_add _).ge (follows_parseItems maxPatchParams str) fun params => ?_
  exact .pure (add_zero _).subset

/-- The blocks that are lost when a line is processed. -/
def lostBy (env : Env) (ctx : GamePatch.ParseContext σ) (line : CString) : ℕ :=
  match lineKind ctx.inPatchesSection line with
  | .titleid => if isListValue (trim line) then ctx.globalTitleids.length else 0
  | .patch => lostBlock env ctx
  | .key k => (ctx.currentPatch.value k).toList.length
  | .appVer => ctx.currentPatch.appVers.length
  | .entry => lostEntry env ctx (GamePatch.parsePatchEntry ((trim line).drop 2))
  | .ignored | .patches | .other => 0

theorem pure_holds (ctx : ParseContext σ) (ctx' : GamePatch.ParseContext σ) :
    Follows (ctx.holds ctx') (Pure.pure ctx) (some ctx') fun ctx ctx' =>
      ctx.holds ctx' + live Block 0 := by
  refine .pure ?_
  rw [live_zero, add_zero]

theorem follows_patches (env : Env) :
    Follows (ctx.holds ctx')
      (if ctx.mode = .lowMem then do
        let versions ← ctx.currentPatch.versions
        announceVersions env versions { ctx with inPatchesSection := true }
      else Pure.pure { ctx with inPatchesSection := true })
      (if ctx'.mode = .lowMem then
        GamePatch.announceVersions env ctx'.currentPatch.versions
          { ctx' with inPatchesSection := true }
      else some { ctx' with inPatchesSection := true })
      fun ctx ctx' => ctx.holds ctx' + live Block 0 := by
  have hinside : ctx.holds ctx' ⊆ ParseContext.holds { ctx with inPatchesSection := true }
      { ctx' with inPatchesSection := true } :=
    fun _ hm => ⟨{ hm.1 with inPatchesSection := rfl }, hm.2⟩
  rw [live_zero]
  simp only [add_zero]
  refine .of_mem (fun m => same_of_holds) fun hsame => ?_
  by_cases hmode : ctx'.mode = .lowMem
  · rw [if_pos (hsame.mode.trans hmode), if_pos hmode]
    refine .of_mem ((has_patch ctx ctx').show_of fun m => versions_of_holds) fun hversions => ?_
    refine .read (has_patch ctx ctx') (reads_versions _ _) ?_
    have hannounce : Follows (ParseContext.holds { ctx with inPatchesSection := true }
          { ctx' with inPatchesSection := true })
        (announceVersions env ctx.currentPatch.versionList { ctx with inPatchesSection := true })
        (GamePatch.announceVersions env ctx'.currentPatch.versions
          { ctx' with inPatchesSection := true }) ParseContext.holds :=
      follows_announceVersions env hversions rfl rfl
    exact hannounce.mono hinside fun _ _ => subset_rfl
  · rw [if_neg fun h => hmode (hsame.mode.symm.trans h), if_neg hmode]
    exact .pure hinside

theorem follows_processLine (env : Env) (line : CString) :
    Follows (ctx.holds ctx') (processLine env ctx line) (GamePatch.processLine env ctx' line)
      fun ctx ctx₁' => ctx.holds ctx₁' + live Block (lostBy env ctx' line) := by
  refine .of_mem (fun m => same_of_holds) fun hsame => ?_
  have hkind : lineKind ctx.inPatchesSection line = lineKind ctx'.inPatchesSection line := by
    rw [hsame.inPatchesSection]
  unfold processLine GamePatch.processLine lostBy
  rw [hkind]
  cases lineKind ctx'.inPatchesSection line with
  | ignored => exact pure_holds ctx ctx'
  | other => exact pure_holds ctx ctx'
  | titleid =>
      by_cases hlist : isListValue (trim line) = true
      · simp only [if_pos hlist]
        exact follows_titleids (trim line)
      · simp only [if_neg hlist]
        exact pure_holds ctx ctx'
  | patch => exact follows_handlePatchComplete env
  | key k =>
      have hkey := follows_onPatch (follows_setKey ctx.currentPatch ctx'.currentPatch k (trim line))
      simp only [bind_assoc, pure_bind] at hkey
      exact hkey
  | appVer => exact follows_onPatch (follows_setAppVer _ _ _)
  | patches => exact follows_patches env
  | entry =>
      refine .silent (zero_add _).ge (follows_parsePatchEntry ((trim line).drop 2)) fun entry => ?_
      rw [add_comm]
      exact follows_processEntry env entry _

end GamePatch.Pointers
