import GamePatch.Verification.Pointers.Strings

/-! # Patches, metadata and entries behind pointers

The structures of the parser as the cells they own, and the functions that build, read and
free them. -/

namespace GamePatch.Pointers

open Heap
open scoped Pointwise

abbrev eachOptional : List (Option ℕ) → List (Option CString) → Assertion Block := each pointsTo

/-- What `free_patch_metadata` frees. -/
def PatchMetadata.pointers (metadata : PatchMetadata) : List (Option ℕ) :=
  [metadata.title, metadata.name, metadata.author, metadata.version, metadata.appBin,
    metadata.appVer]

def metadataTexts (metadata : GamePatch.PatchMetadata) : List (Option CString) :=
  [metadata.title, metadata.name, metadata.author, metadata.version, metadata.appBin,
    metadata.appVer]

structure SameMetadata (metadata : PatchMetadata) (metadata' : GamePatch.PatchMetadata) :
    Prop where
  hash : metadata.hash = metadata'.hash
  patchNumber : metadata.patchNumber = metadata'.patchNumber
  matchesGame : metadata.matchesGame = metadata'.matchesGame
  enabled : metadata.enabled = metadata'.enabled
  isPrx : metadata.isPrx = metadata'.isPrx

def PatchMetadata.holds (metadata : PatchMetadata) (metadata' : GamePatch.PatchMetadata) :
    Assertion Block :=
  only (SameMetadata metadata metadata') (eachOptional metadata.pointers (metadataTexts metadata'))

def PatchEntry.holds (entry : PatchEntry) (entry' : GamePatch.PatchEntry) : Assertion Block :=
  eachString entry.params entry'.params

def PatchData.holds (data : PatchData) (data' : GamePatch.PatchData) : Assertion Block :=
  data.metadata.holds data'.metadata +
    data.entries.holds PatchEntry.holds data'.entries.length data'.entries

/-- The strings of a patch outside of its version array. -/
def Patch.pointers (patch : Patch) : List (Option ℕ) :=
  [patch.title, patch.name, patch.notes, patch.author, patch.version, patch.appBin]

def patchTexts (patch : GamePatch.Patch) : List (Option CString) :=
  [patch.title, patch.name, patch.notes, patch.author, patch.version, patch.appBin]

/-- The version array, or none. -/
def versionsAt (table : Table ℕ) : Option (List CString) → Assertion Block
  | none => only (table = ⟨none, []⟩) 0
  | some strs => table.holds stringAt maxArrayLength strs

def Patch.holds (patch : Patch) (patch' : GamePatch.Patch) : Assertion Block :=
  only (patch.isAppVerList = patch'.isAppVerList)
    (eachOptional patch.pointers (patchTexts patch') + versionsAt patch.appVer patch'.appVer)

/-! ## Freeing -/

theorem follows_freeOptionals (ps : List (Option ℕ)) (strs : List (Option CString)) :
    Follows (eachOptional ps strs) (ps.forM freeOptional) (some ()) fun _ _ => 0 :=
  .forM_each follows_freeOptional ps strs

theorem follows_freePatchMetadata (metadata : PatchMetadata)
    (metadata' : GamePatch.PatchMetadata) :
    Follows (metadata.holds metadata') (freePatchMetadata metadata) (some ()) fun _ _ => 0 := by
  have hprog : freePatchMetadata metadata = metadata.pointers.forM freeOptional := by
    simp [freePatchMetadata, PatchMetadata.pointers]
  rw [hprog]
  exact .of_only fun _ => follows_freeOptionals _ _

theorem follows_freePatchEntry (entry : PatchEntry) (entry' : GamePatch.PatchEntry) :
    Follows (entry.holds entry') (freePatchEntry entry) (some ()) fun _ _ => 0 :=
  .forM_each (fun p str => follows_free p (Block.string str)) _ _

theorem follows_freeStored (data : PatchData) (data' : GamePatch.PatchData) :
    Follows (data.holds data') (freeStored data) (some ()) fun _ _ => 0 := by
  refine .silent subset_rfl (follows_freePatchMetadata data.metadata data'.metadata) fun _ => ?_
  rw [zero_add]
  exact follows_free_table follows_freePatchEntry _ _ _

/-! ## Looking -/

theorem reads_loadMetadata (metadata : PatchMetadata) (metadata' : GamePatch.PatchMetadata) :
    Reads (metadata.holds metadata') (loadMetadata metadata) (some metadata') := by
  refine .of_only fun hsame => ?_
  simp only [eachOptional, PatchMetadata.pointers, metadataTexts, each_cons, each_nil]
  refine .step (.left (.refl _) _) (reads_loadOptional _ _) ?_
  refine .step (.right (.left (.refl _) _) _) (reads_loadOptional _ _) ?_
  refine .step (.right (.right (.left (.refl _) _) _) _) (reads_loadOptional _ _) ?_
  refine .step (.right (.right (.right (.left (.refl _) _) _) _) _) (reads_loadOptional _ _) ?_
  refine .step (.right (.right (.right (.right (.left (.refl _) _) _) _) _) _)
    (reads_loadOptional _ _) ?_
  refine .step (.right (.right (.right (.right (.right (.left (.refl _) _) _) _) _) _) _)
    (reads_loadOptional _ _) ?_
  rw [hsame.hash, hsame.patchNumber, hsame.matchesGame, hsame.enabled, hsame.isPrx]
  exact .pure _ _

theorem reads_loadEntry (entry : PatchEntry) (entry' : GamePatch.PatchEntry) :
    Reads (entry.holds entry') (loadEntry entry) (some entry') :=
  .step (.refl _) (.mapM reads_loadString _ _) (.pure _ _)

/-! ## The metadata of a version -/

theorem reads_calculatePatchHash (env : Env) (n : ℕ) (titleid : CString) (patch : Patch)
    (patch' : GamePatch.Patch) (appVer : Option ℕ) (appVer' : Option CString) :
    Reads (eachOptional [patch.title, patch.name, patch.author, patch.version, patch.appBin, appVer]
        [patch'.title, patch'.name, patch'.author, patch'.version, patch'.appBin, appVer'])
      (calculatePatchHash env n titleid patch appVer)
      (some (GamePatch.calculatePatchHash env n titleid patch' appVer')) :=
  .step (.refl _) (.mapM reads_loadOptional _ _) (.pure _ _)

/-- The strings that the metadata of a version is made of. -/
def sources (patch : Patch) (appVer : Option ℕ) : List (Option ℕ) :=
  [patch.title, patch.name, patch.author, patch.version, patch.appBin, appVer]

def sourceTexts (patch : GamePatch.Patch) (appVer : Option CString) : List (Option CString) :=
  [patch.title, patch.name, patch.author, patch.version, patch.appBin, appVer]

theorem follows_processPatchMetadata (env : Env) (game : GamePatchInfo) (n : ℕ) (patch : Patch)
    (patch' : GamePatch.Patch) (appVer : Option ℕ) (appVer' : Option CString) (i : ℕ) :
    Follows (eachOptional (sources patch appVer) (sourceTexts patch' appVer'))
      (processPatchMetadata env game n patch appVer i)
      (GamePatch.processPatchMetadata env game n patch' appVer' i) fun metadata metadata' =>
        eachOptional (sources patch appVer) (sourceTexts patch' appVer') +
          metadata.holds metadata' := by
  refine .read (.refl _) (reads_calculatePatchHash _ _ _ _ _ _ _) ?_
  simp only [eachOptional, sources, sourceTexts, each_cons, each_nil]
  refine .turn (follows_strDup env _ _) fun title title' => ?_
  rw [add_assoc]
  refine .turn (follows_strDup env _ _) fun name name' => ?_
  rw [add_assoc, add_assoc]
  refine .turn (follows_strDup env _ _) fun author author' => ?_
  rw [add_assoc, add_assoc]
  refine .turn (follows_strDup env _ _) fun version version' => ?_
  rw [add_assoc, add_assoc]
  refine .turn (follows_strDup env _ _) fun appBin appBin' => ?_
  rw [add_assoc, add_assoc]
  refine .turn (follows_strDup env _ _) fun appVer₁ appVer₁' => ?_
  refine .read (.right (.left (.refl _) _) _) (reads_loadOptional _ _) ?_
  refine .look (.left (.right (.right (.right (.refl _) _) _) _) _)
    (reads_loadUnchecked appBin appBin') fun bin _ => ?_
  refine .look (.refl _) (.lift _ _) fun state _ => ?_
  refine .pure ((Eq.subset ?_).trans (Set.add_subset_add_left
    (subset_only ⟨rfl, rfl, rfl, rfl, rfl⟩ subset_rfl)))
  simp only [PatchMetadata.pointers, metadataTexts, each_cons, each_nil]
  abel

/-! ## The versions of a patch -/

/-- A version of the patch with its pointer, or the null pointer of a patch without any. -/
inductive VersionOf (patch : Patch) (patch' : GamePatch.Patch) :
    Option ℕ → Option CString → Prop where
  | null : VersionOf patch patch' none none
  | listed {strs : List CString} {p : ℕ} {str : CString} : patch'.appVer = some strs →
      (p, str) ∈ patch.appVer.elems.zip strs → VersionOf patch patch' (some p) (some str)

/-- The cells of a patch hold those that the metadata of a version is made of. -/
theorem sources_of_holds {patch : Patch} {patch' : GamePatch.Patch} {appVer : Option ℕ}
    {appVer' : Option CString} (hversion : VersionOf patch patch' appVer appVer') :
    ∃ R, patch.holds patch' =
      eachOptional (sources patch appVer) (sourceTexts patch' appVer') + R := by
  have hversions : ∃ R, versionsAt patch.appVer patch'.appVer = pointsTo appVer appVer' + R := by
    cases hversion with
    | null => exact ⟨_, (zero_add _).symm⟩
    | @listed strs p str hstrs hmem =>
        rcases each_of_mem_zip stringAt hmem with ⟨R, hR⟩
        refine ⟨only (strs.length ≤ maxArrayLength)
          (bufferAt patch.appVer.buffer maxArrayLength + R), ?_⟩
        rw [hstrs, versionsAt, Table.holds, hR, add_left_comm, add_comm (pointsTo _ _), only_add,
          add_comm]
        rfl
  rcases hversions with ⟨R, hR⟩
  refine ⟨only (patch.isAppVerList = patch'.isAppVerList)
    (pointsTo patch.notes patch'.notes + R), ?_⟩
  rw [Patch.holds, hR, add_comm (eachOptional (sources _ _) _), only_add]
  simp only [eachOptional, sources, sourceTexts, Patch.pointers, patchTexts, each_cons, each_nil]
  congr 1
  abel

theorem follows_processForAppVer (env : Env) (game : GamePatchInfo) (n : ℕ) {patch : Patch}
    {patch' : GamePatch.Patch} {appVer : Option ℕ} {appVer' : Option CString}
    (hversion : VersionOf patch patch' appVer appVer') (i : ℕ) :
    Follows (patch.holds patch') (processPatchMetadata env game n patch appVer i)
      (GamePatch.processPatchMetadata env game n patch' appVer' i) fun metadata metadata' =>
        patch.holds patch' + metadata.holds metadata' := by
  rcases sources_of_holds hversion with ⟨R, hR⟩
  have hprocess := (follows_processPatchMetadata env game n patch patch' appVer appVer' i).frame R
  rw [hR]
  refine hprocess.mono subset_rfl fun metadata metadata' => Eq.subset ?_
  abel

def Patch.versionList (patch : Patch) : List (Option ℕ × ℕ) :=
  match patch.appVer.elems with
  | [] => [(none, 0)]
  | ps => (ps.map some).zipIdx

/-- The versions visited with their pointers. -/
abbrev Versions (patch : Patch) (patch' : GamePatch.Patch) :
    List (Option ℕ × ℕ) → List (Option CString × ℕ) → Prop :=
  List.Forall₂ fun v v' => v.2 = v'.2 ∧ VersionOf patch patch' v.1 v'.1

theorem versions_zipIdx {patch : Patch} {patch' : GamePatch.Patch} {ps : List ℕ}
    {strs : List CString} (hlength : ps.length = strs.length)
    (hversion : ∀ p str, (p, str) ∈ ps.zip strs → VersionOf patch patch' (some p) (some str))
    (i : ℕ) : Versions patch patch' ((ps.map some).zipIdx i) ((strs.map some).zipIdx i) := by
  induction ps generalizing strs i with
  | nil =>
      rw [List.length_eq_zero_iff.mp hlength.symm]
      exact .nil
  | cons p ps ih =>
      cases strs with
      | nil => cases hlength
      | cons str strs =>
          refine .cons ⟨rfl, hversion p str (List.mem_cons_self ..)⟩ ?_
          exact ih (Nat.succ.inj hlength) (fun p str hmem =>
            hversion p str (List.mem_cons_of_mem _ hmem)) (i + 1)

theorem versions_of_length {patch : Patch} {patch' : GamePatch.Patch} {strs : List CString}
    (hstrs : patch'.appVer = some strs) (hlength : patch.appVer.elems.length = strs.length) :
    Versions patch patch' patch.versionList patch'.versions := by
  have hversion : ∀ p str, (p, str) ∈ patch.appVer.elems.zip strs →
      VersionOf patch patch' (some p) (some str) := fun _ _ => .listed hstrs
  rw [Patch.versionList, GamePatch.Patch.versions, GamePatch.Patch.appVers, hstrs,
    Option.getD_some]
  cases helems : patch.appVer.elems with
  | nil =>
      rw [helems] at hlength
      rw [List.length_eq_zero_iff.mp hlength.symm]
      exact .cons ⟨rfl, .null⟩ .nil
  | cons p ps =>
      rw [helems] at hlength hversion
      cases strs with
      | nil => cases hlength
      | cons str strs => exact versions_zipIdx hlength hversion 0

theorem versions_of_holds {patch : Patch} {patch' : GamePatch.Patch} {m : Multiset (ℕ × Block)}
    (hm : m ∈ patch.holds patch') : Versions patch patch' patch.versionList patch'.versions := by
  rcases hm with ⟨_, _, _, m', hm', _⟩
  cases hstrs : patch'.appVer with
  | none =>
      rw [hstrs] at hm'
      rw [Patch.versionList, hm'.1, GamePatch.Patch.versions, GamePatch.Patch.appVers, hstrs]
      exact .cons ⟨rfl, .null⟩ .nil
  | some strs =>
      rw [hstrs] at hm'
      rcases hm' with ⟨_, _, _, m'', hm'', _⟩
      exact versions_of_length hstrs (length_of_each hm'')

theorem reads_versions (patch : Patch) (patch' : GamePatch.Patch) :
    Reads (patch.holds patch') patch.versions (some patch.versionList) := by
  have haccess : Reads (patch.holds patch') (patch.appVer.access patch.appVer.elems)
      (some patch.appVer.elems) := by
    refine .of_only fun _ => .of_has ?_ (.right (.refl _) _)
    cases patch'.appVer with
    | none =>
        refine .of_only fun htable => ?_
        rw [htable]
        exact .pure _ _
    | some strs =>
        refine .of_only fun hlength => ?_
        have hread := reads_access stringAt patch.appVer patch.appVer.elems strs maxArrayLength
        rw [if_pos hlength] at hread
        exact hread
  refine .step (.refl _) haccess ?_
  rw [Patch.versionList]
  cases patch.appVer.elems with
  | nil => exact .pure _ _
  | cons p ps => exact .pure _ _

end GamePatch.Pointers
