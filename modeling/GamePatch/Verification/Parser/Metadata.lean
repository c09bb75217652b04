import GamePatch.Verification.Parser.Lines
import GamePatch.Verification.Settings.Codec

/-! # The metadata of a block's versions

The metadata of a version depends on the block, its number and the environment.
The loop at the `patches:` line announces those that match the game, takes the
flag from the last of them and keeps the metadata of index 0. -/

namespace GamePatch

/-- The hash under which version `v` of a block is switched. -/
def versionHash (env : Env) (game : GamePatchInfo) (number : ℕ) (patch : Patch)
    (v : Option CString × ℕ) : UInt32 :=
  calculatePatchHash env (env.sizeT (number * 100 + v.2)) game.titleid patch v.1

/-- The metadata of a version, where it is defined. -/
def versionMetadata (env : Env) (game : GamePatchInfo) (number : ℕ) (patch : Patch)
    (v : Option CString × ℕ) : PatchMetadata where
  hash := versionHash env game number patch v
  patchNumber := env.sizeT (number * 100 + v.2)
  title := patch.title
  name := patch.name
  author := patch.author
  version := patch.version
  appBin := patch.appBin
  appVer := v.1
  matchesGame := patchMatchesGame game v.1
  enabled :=
    decide (env.readPatchState (settingsPath game.titleid)
      (versionHash env game number patch v) = some 1) &&
      env.argv0.any fun exe => env.strstr exe (patch.appBin.getD [])
  isPrx := prxList.any (env.strstr (patch.appBin.getD []))

/-- No null pointer is followed and the settings lookup stays inside its buffer. -/
structure MetadataDefined (env : Env) (game : GamePatchInfo) (number : ℕ) (patch : Patch)
    (v : Option CString × ℕ) : Prop where
  copies : ∀ str ∈ [patch.title, patch.name, patch.author, patch.version, patch.appBin, v.1],
    env.strDup str = some str
  appBin : patch.appBin ≠ none
  lookup : env.readPatchState (settingsPath game.titleid)
    (versionHash env game number patch v) ≠ none

variable {env : Env} {game : GamePatchInfo} {number : ℕ} {patch : Patch} {v : Option CString × ℕ}

theorem Env.strDup_eq (env : Env) (str : Option CString) :
    env.strDup str = none ∨ env.strDup str = some str := by
  unfold Env.strDup
  split
  · exact Or.inl rfl
  · exact Or.inr rfl

theorem Env.strDup_of_prx (hprx : env.prx = true) (str : Option CString) :
    env.strDup str = some str := by
  simp [Env.strDup, hprx]

theorem processPatchMetadata_of_defined (h : MetadataDefined env game number patch v) :
    processPatchMetadata env game number patch v.1 v.2 =
      some (versionMetadata env game number patch v) := by
  rcases h with ⟨hcopies, hbin, hlookup⟩
  obtain ⟨bin, hbin⟩ := Option.ne_none_iff_exists'.mp hbin
  obtain ⟨state, hstate⟩ := Option.ne_none_iff_exists'.mp hlookup
  have hcopy : env.strDup patch.title = some patch.title ∧ env.strDup patch.name = some patch.name ∧
      env.strDup patch.author = some patch.author ∧
      env.strDup patch.version = some patch.version ∧
      env.strDup (some bin) = some (some bin) ∧ env.strDup v.1 = some v.1 := by
    simpa [hbin] using hcopies
  rcases hcopy with ⟨htitle, hname, hauthor, hversion, happBin, hver⟩
  unfold versionHash at hstate
  simp only [processPatchMetadata, htitle, hname, hauthor, hversion, hbin, happBin, hver, hstate,
    Option.bind_eq_bind, Option.bind_some, versionMetadata, versionHash, Option.getD_some]
  cases env.argv0 <;> simp

theorem processPatchMetadata_eq_some {metadata : PatchMetadata} :
    processPatchMetadata env game number patch v.1 v.2 = some metadata ↔
      MetadataDefined env game number patch v ∧
        metadata = versionMetadata env game number patch v := by
  constructor
  · intro h
    suffices hdefined : MetadataDefined env game number patch v by
      rw [processPatchMetadata_of_defined hdefined] at h
      exact ⟨hdefined, (Option.some.inj h).symm⟩
    obtain ⟨title, htitle, h⟩ := Option.bind_eq_some_iff.mp h
    obtain ⟨name, hname, h⟩ := Option.bind_eq_some_iff.mp h
    obtain ⟨author, hauthor, h⟩ := Option.bind_eq_some_iff.mp h
    obtain ⟨version, hversion, h⟩ := Option.bind_eq_some_iff.mp h
    obtain ⟨appBin, happBin, h⟩ := Option.bind_eq_some_iff.mp h
    obtain ⟨ver, hver, h⟩ := Option.bind_eq_some_iff.mp h
    obtain ⟨bin, hbin, h⟩ := Option.bind_eq_some_iff.mp h
    obtain ⟨state, hstate, -⟩ := Option.bind_eq_some_iff.mp h
    have hcopy : ∀ {str str'}, env.strDup str = some str' → env.strDup str = some str := by
      intro str str' hsome
      rcases env.strDup_eq str with hnone | hself
      · rw [hnone] at hsome
        cases hsome
      · exact hself
    constructor
    · intro str hstr
      simp only [List.mem_cons, List.not_mem_nil, or_false] at hstr
      rcases hstr with rfl | rfl | rfl | rfl | rfl | rfl
      · exact hcopy htitle
      · exact hcopy hname
      · exact hcopy hauthor
      · exact hcopy hversion
      · exact hcopy happBin
      · exact hcopy hver
    · have hsame := Option.some.inj ((hcopy happBin).symm.trans happBin)
      rw [hsame, hbin]
      simp
    · rw [versionHash, hstate]
      simp
  · rintro ⟨hdefined, rfl⟩
    exact processPatchMetadata_of_defined hdefined

theorem processPatchMetadata_of_not_defined (h : ¬ MetadataDefined env game number patch v) :
    processPatchMetadata env game number patch v.1 v.2 = none := by
  cases hmeta : processPatchMetadata env game number patch v.1 v.2 with
  | none => rfl
  | some metadata => exact absurd (processPatchMetadata_eq_some.mp hmeta).1 h

/-- On the console only the lookup can go wrong for a block with an `app_bin`. -/
theorem metadataDefined_iff_of_prx (hprx : env.prx = true) (hbin : patch.appBin ≠ none) :
    MetadataDefined env game number patch v ↔
      env.readPatchState (settingsPath game.titleid)
        (versionHash env game number patch v) ≠ none :=
  ⟨fun h => h.lookup, fun h => ⟨fun str _ => Env.strDup_of_prx hprx str, hbin, h⟩⟩

/-- On the host only a null pointer can go wrong. -/
theorem metadataDefined_of_host (hprx : env.prx = false) (hbin : patch.appBin ≠ none)
    (hcopies : ∀ str ∈ [patch.title, patch.name, patch.author, patch.version, patch.appBin, v.1],
      env.strDup str = some str) :
    MetadataDefined env game number patch v := by
  refine ⟨hcopies, hbin, ?_⟩
  rw [Env.readPatchState, hprx]
  exact Settings.readPatchState_ne_none _ _ _ _

/-! ## Matching and enabled versions -/

/-- Version `v` of the block is switched on and the running executable is one
that the block is for. -/
structure EnabledVersion (env : Env) (game : GamePatchInfo) (number : ℕ) (patch : Patch)
    (v : Option CString × ℕ) : Prop where
  state : env.readPatchState (settingsPath game.titleid)
    (versionHash env game number patch v) = some 1
  exe : ∃ exe bin, env.argv0 = some exe ∧ patch.appBin = some bin ∧ env.strstr exe bin = true

theorem enabledVersion_iff : EnabledVersion env game number patch v ↔
    env.readPatchState (settingsPath game.titleid) (versionHash env game number patch v) = some 1 ∧
      env.argv0.any (fun exe => patch.appBin.any (env.strstr exe)) = true := by
  simp only [Option.any_eq_true]
  constructor
  · rintro ⟨hstate, exe, bin, hexe, hbin, hfound⟩
    exact ⟨hstate, exe, hexe, bin, hbin, hfound⟩
  · rintro ⟨hstate, exe, hexe, bin, hbin, hfound⟩
    exact ⟨hstate, exe, bin, hexe, hbin, hfound⟩

instance : Decidable (EnabledVersion env game number patch v) :=
  decidable_of_iff _ enabledVersion_iff.symm

theorem versionMetadata_enabled_iff (hbin : patch.appBin ≠ none) :
    (versionMetadata env game number patch v).enabled = true ↔
      EnabledVersion env game number patch v := by
  obtain ⟨bin, hbin⟩ := Option.ne_none_iff_exists'.mp hbin
  rw [enabledVersion_iff]
  simp [versionMetadata, hbin]

theorem patchMatchesGame_iff {appVer : Option CString} :
    patchMatchesGame game appVer = true ↔ game.appVer ≠ [] ∧ appVer = some game.appVer := by
  cases appVer with
  | none => simp [patchMatchesGame]
  | some w =>
      by_cases hempty : game.appVer = []
      · simp [patchMatchesGame, hempty]
      · simp [patchMatchesGame, hempty, eq_comm]

theorem Patch.mem_versions {patch : Patch} {w : CString} {k : ℕ} :
    (some w, k) ∈ patch.versions ↔ patch.appVers[k]? = some w := by
  unfold Patch.versions
  cases happ : patch.appVers with
  | nil => simp
  | cons u us =>
      simp only [List.mk_mem_zipIdx_iff_getElem?, List.getElem?_map, Option.map_eq_some_iff,
        Option.some.injEq, exists_eq_right]

/-! ## The loop at the `patches:` line -/

variable {σ : Type} {ctx ctx' : ParseContext σ}

/-- One round of the loop, for metadata of index `k`. -/
def ParseContext.announce (ctx : ParseContext σ) (callback : PatchMetadata → σ → σ)
    (metadata : PatchMetadata) (k : ℕ) : ParseContext σ :=
  { ctx with
    userData := if metadata.matchesGame then callback metadata ctx.userData else ctx.userData
    processingEnabledPatch :=
      if metadata.matchesGame then metadata.enabled else ctx.processingEnabledPatch
    currentMeta := if k = 0 then metadata else ctx.currentMeta }

/-- The metadata of version `v` of the block being read. -/
def ParseContext.metaOf (env : Env) (ctx : ParseContext σ) (v : Option CString × ℕ) :
    PatchMetadata :=
  versionMetadata env ctx.gameInfo ctx.currentPatchNumber ctx.currentPatch v

/-- No round of the loop over the versions goes wrong. -/
def ParseContext.VersionsDefined (env : Env) (ctx : ParseContext σ) : Prop :=
  ∀ v ∈ ctx.currentPatch.versions,
    MetadataDefined env ctx.gameInfo ctx.currentPatchNumber ctx.currentPatch v

theorem announceVersions_cons {callback : PatchMetadata → σ → σ}
    (hcb : ctx.metaCallback = some callback) (vs : List (Option CString × ℕ)) :
    announceVersions env (v :: vs) ctx =
      (processPatchMetadataForAppVer env ctx v.1 v.2).bind fun metadata =>
        announceVersions env vs (ctx.announce callback metadata v.2) := by
  simp only [announceVersions, Option.bind_eq_bind]
  apply Option.bind_congr
  intro metadata _
  congr 1
  cases ctx
  dsimp only at hcb
  subst hcb
  simp only [ParseContext.announce]
  by_cases hmatch : metadata.matchesGame = true
  · simp only [hmatch, if_true, Bool.true_and]
    split <;> rfl
  · simp only [hmatch]
    split <;> rfl

/-- The loop is a fold over the metadata of the versions. -/
theorem announceVersions_eq_some {callback : PatchMetadata → σ → σ}
    (vs : List (Option CString × ℕ)) :
    ∀ {ctx ctx' : ParseContext σ}, ctx.metaCallback = some callback →
      (announceVersions env vs ctx = some ctx' ↔
        (∀ v ∈ vs,
          MetadataDefined env ctx.gameInfo ctx.currentPatchNumber ctx.currentPatch v) ∧
        ctx' = vs.foldl (fun c v => c.announce callback (ctx.metaOf env v) v.2) ctx) := by
  induction vs with
  | nil =>
      intro ctx ctx' _
      simp [announceVersions, eq_comm]
  | cons v vs ih =>
      intro ctx ctx' hcb
      rw [announceVersions_cons hcb, Option.bind_eq_some_iff]
      simp only [processPatchMetadataForAppVer, processPatchMetadata_eq_some, List.forall_mem_cons,
        List.foldl_cons]
      -- A round leaves the callback and the block as they are.
      have hround : ∀ metadata, (ctx.announce callback metadata v.2).metaCallback = some callback :=
        fun _ => hcb
      constructor
      · rintro ⟨metadata, ⟨hdefined, rfl⟩, hrest⟩
        obtain ⟨hdefined', hfold⟩ := (ih (hround _)).mp hrest
        exact ⟨⟨hdefined, hdefined'⟩, hfold⟩
      · rintro ⟨⟨hdefined, hdefined'⟩, hfold⟩
        exact ⟨_, ⟨hdefined, rfl⟩, (ih (hround _)).mpr ⟨hdefined', hfold⟩⟩

section Fold

variable (callback : PatchMetadata → σ → σ) (f : Option CString × ℕ → PatchMetadata)

theorem announce_fold_frame (vs : List (Option CString × ℕ)) (ctx : ParseContext σ) :
    ∃ data kept enabled, vs.foldl (fun c v => c.announce callback (f v) v.2) ctx =
      { ctx with
        userData := data
        currentMeta := kept
        processingEnabledPatch := enabled } := by
  induction vs generalizing ctx with
  | nil => exact ⟨_, _, _, rfl⟩
  | cons v vs ih =>
      rcases ih (ctx.announce callback (f v) v.2) with ⟨data, kept, enabled, h⟩
      exact ⟨data, kept, enabled, h⟩

/-- The matching metadata are announced in order. -/
theorem announce_fold_userData (vs : List (Option CString × ℕ)) (ctx : ParseContext σ) :
    (vs.foldl (fun c v => c.announce callback (f v) v.2) ctx).userData =
      ((vs.map f).filter (·.matchesGame)).foldl (fun data metadata => callback metadata data)
        ctx.userData := by
  induction vs generalizing ctx with
  | nil => rfl
  | cons v vs ih =>
      rw [List.foldl_cons, ih, List.map_cons]
      by_cases hmatch : (f v).matchesGame = true
      · rw [List.filter_cons_of_pos hmatch]
        simp [ParseContext.announce, hmatch]
      · rw [List.filter_cons_of_neg hmatch]
        simp [ParseContext.announce, hmatch]

/-- The flag is that of the last matching metadata, if there is one. -/
theorem announce_fold_flag (vs : List (Option CString × ℕ)) (ctx : ParseContext σ) :
    (vs.foldl (fun c v => c.announce callback (f v) v.2) ctx).processingEnabledPatch =
      (((vs.map f).filter (·.matchesGame)).getLast?.map (·.enabled)).getD
        ctx.processingEnabledPatch := by
  induction vs generalizing ctx with
  | nil => rfl
  | cons v vs ih =>
      rw [List.foldl_cons, ih, List.map_cons]
      by_cases hmatch : (f v).matchesGame = true
      · rw [List.filter_cons_of_pos hmatch, List.getLast?_cons]
        cases ((vs.map f).filter (·.matchesGame)).getLast? <;>
          simp [ParseContext.announce, hmatch]
      · rw [List.filter_cons_of_neg hmatch]
        simp [ParseContext.announce, hmatch]

theorem announce_fold_meta_of_ne_zero {vs : List (Option CString × ℕ)}
    (hvs : ∀ v ∈ vs, v.2 ≠ 0) (ctx : ParseContext σ) :
    (vs.foldl (fun c v => c.announce callback (f v) v.2) ctx).currentMeta = ctx.currentMeta := by
  induction vs generalizing ctx with
  | nil => rfl
  | cons v vs ih =>
      rw [List.foldl_cons, ih fun w hw => hvs w (List.mem_cons_of_mem v hw)]
      simp [ParseContext.announce, hvs v (by simp)]

end Fold

/-- The loop always visits index 0, and visits it first. -/
theorem Patch.versions_eq_cons (patch : Patch) :
    ∃ rest, patch.versions = (patch.appVers.head?, 0) :: rest ∧ ∀ v ∈ rest, v.2 ≠ 0 := by
  unfold Patch.versions
  cases patch.appVers with
  | nil => exact ⟨[], rfl, by simp⟩
  | cons u us =>
      refine ⟨(us.map some).zipIdx 1, by simp, ?_⟩
      intro v hv
      have hle := List.le_snd_of_mem_zipIdx hv
      omega

/-- The metadata of index 0 is kept. -/
theorem announce_fold_meta (callback : PatchMetadata → σ → σ)
    (f : Option CString × ℕ → PatchMetadata) (patch : Patch) (ctx : ParseContext σ) :
    (patch.versions.foldl (fun c v => c.announce callback (f v) v.2) ctx).currentMeta =
      f (patch.appVers.head?, 0) := by
  obtain ⟨rest, hversions, hrest⟩ := patch.versions_eq_cons
  rw [hversions, List.foldl_cons, announce_fold_meta_of_ne_zero callback f hrest]
  simp [ParseContext.announce]

/-! ## A console, a host, a game and an entry -/

/-- A console on which the patches with the hashes `on` are switched on while the
executable `exe` runs. -/
def consoleWith (on : List UInt32) (exe : CString) : Env where
  prx := true
  sizeBits := 32
  charSigned := true
  strdupNull := false
  alloc := fun _ => true
  malloc := fun _ => true
  order := .big
  staleHeader := List.replicate 12 0
  files := fun _ => some (Settings.contents .big (on.map fun hash => ⟨hash, 1⟩))
  argv0 := some exe

/-- A host on which the patches with the hashes `on` are switched on, and where a
copy of null is null. -/
def hostWith (on : List UInt32) : Env :=
  { consoleWith on [] with prx := false, strdupNull := true, argv0 := none }

def runningGame : GamePatchInfo := ⟨['T'], ['1']⟩

def entryLine : CString := "    - [ \"be32\", \"0x10\", \"0x20\" ]".toList

end GamePatch
