import GamePatch.Shared.Parts
import GamePatch.Verification.Parser.Applied
import GamePatch.Verification.Parser.Blocks

/-! # Which wanted blocks are applied completely

A block is wanted when one of its versions is the game's and is switched on. Its
entries get through when the flag taken from the last matching version and the
metadata kept of index 0 are both enabled. -/

namespace GamePatch

open Parts

section

variable (env : Env) (info : GamePatchInfo) (i : ℕ) (b : Block)

/-- A version of the block is the game's and is switched on. -/
def Block.Wanted : Prop :=
  ∃ v ∈ (b.patch env i).versions, v.1 = some info.appVer ∧
    EnabledVersion env info (env.sizeT i) (b.patch env i) v

instance : Decidable (b.Wanted env info i) :=
  inferInstanceAs (Decidable (∃ v ∈ (b.patch env i).versions, v.1 = some info.appVer ∧
    EnabledVersion env info (env.sizeT i) (b.patch env i) v))

/-- The last version of the block that matches the game. -/
def Block.lastMatch : Option (Option CString × ℕ) :=
  ((b.patch env i).versions.filter fun v => patchMatchesGame info v.1).getLast?

/-- The two versions that decide about the entries are switched on: the one of
index 0 and the last one that matches. -/
structure Block.DecidersEnabled : Prop where
  versioned : info.appVer ≠ []
  first : EnabledVersion env info (env.sizeT i) (b.patch env i) ((b.patch env i).appVers.head?, 0)
  last : ∀ v, b.lastMatch env info i = some v →
    EnabledVersion env info (env.sizeT i) (b.patch env i) v

/-- The settings lookups for the versions of the block stay inside their buffer. -/
def Block.LookupsDefined : Prop :=
  ∀ v ∈ (b.patch env i).versions, env.readPatchState (settingsPath info.titleid)
    (versionHash env info (env.sizeT i) (b.patch env i) v) ≠ none

end

/-- The lines before the `i`-th block. -/
def PatchFile.before (file : PatchFile) (i : ℕ) : List CString :=
  file.preamble ++ (file.blocks.take i).flatMap (·.lines)

/-- While the lines of the block are read, exactly its entries are applied, in
file order. -/
def PatchFile.AppliesCompletely (env : Env) (info : GamePatchInfo) (file : PatchFile) (i : ℕ)
    (b : Block) : Prop :=
  ∃ ctx ctx', runLines env (runContext noteEntry info []) (file.before i) = some ctx ∧
    runLines env ctx b.lines = some ctx' ∧
    ctx'.userData.game = ctx.userData.game ++ b.entries

instance (env : Env) (info : GamePatchInfo) (file : PatchFile) (i : ℕ) (b : Block) :
    Decidable (file.AppliesCompletely env info i b) :=
  decidable_of_iff
    ((runLines env (runContext noteEntry info []) (file.before i)).any (fun ctx =>
      (runLines env ctx b.lines).any fun ctx' =>
        decide (ctx'.userData.game = ctx.userData.game ++ b.entries)) = true)
    (by simp [PatchFile.AppliesCompletely, Option.any_eq_true])

/-- Every wanted block of the file is applied completely. -/
def PatchFile.AppliesWanted (env : Env) (info : GamePatchInfo) (file : PatchFile) : Prop :=
  ∀ p ∈ file.blocks.zipIdx, p.1.Wanted env info p.2 →
    file.AppliesCompletely env info p.2 p.1

variable {env : Env} {info : GamePatchInfo} {i : ℕ} {b : Block} {file : PatchFile}

theorem Block.patch_appBin (b : Block) (env : Env) (i : ℕ) : (b.patch env i).appBin ≠ none := by
  rw [Block.patch, ownPatch_appBin]
  exact b.appBin

theorem Block.defined_iff (hprx : env.prx = true) :
    b.Defined env info i ↔ b.LookupsDefined env info i := by
  unfold Block.Defined Block.LookupsDefined
  simp only [metadataDefined_iff_of_prx hprx (b.patch_appBin env i)]

theorem noteEntry_foldl (entries applied : List PatchEntry) :
    entries.foldl (fun applied entry => noteEntry entry applied) applied = applied ++ entries := by
  induction entries generalizing applied with
  | nil => simp
  | cons entry entries ih =>
      rw [List.foldl_cons, ih]
      simp [noteEntry]

theorem Block.getLast?_hits (b : Block) (env : Env) (info : GamePatchInfo) (i : ℕ) :
    (b.hits env info i).getLast? =
      (b.lastMatch env info i).map
        (versionMetadata env info (env.sizeT i) (b.patch env i)) := by
  rw [hits, metas, List.filter_map, List.getLast?_map]
  rfl

/-- A wanted block has a matching version unless the game's version is empty. -/
theorem Block.Wanted.lastMatch (h : b.Wanted env info i) (hversioned : info.appVer ≠ []) :
    ∃ v, b.lastMatch env info i = some v := by
  rcases h with ⟨v, hv, hver, -⟩
  cases hlast : b.lastMatch env info i with
  | some w => exact ⟨w, rfl⟩
  | none =>
      rw [Block.lastMatch, List.getLast?_eq_none_iff, List.filter_eq_nil_iff] at hlast
      exact absurd (patchMatchesGame_iff.mpr ⟨hversioned, hver⟩) (hlast v hv)

/-- The flag and the metadata kept let the entries of a wanted block through
exactly when both deciders are enabled. -/
theorem Block.Wanted.flags_iff (h : b.Wanted env info i) {flag : Bool}
    (hflag : info.appVer = [] → flag = false) :
    (((b.hits env info i).getLast?.map (·.enabled)).getD flag = true ∧
        (b.firstMeta env info i).enabled = true) ↔
      b.DecidersEnabled env info i := by
  rw [b.getLast?_hits env info i, Block.firstMeta,
    versionMetadata_enabled_iff (b.patch_appBin env i)]
  by_cases hversioned : info.appVer = []
  · have hnone : b.lastMatch env info i = none := by
      have hhits := b.getLast?_hits env info i
      rw [b.hits_of_unversioned hversioned] at hhits
      simpa using hhits.symm
    rw [hnone, hflag hversioned]
    exact iff_of_false (by simp) fun hdeciders => hdeciders.versioned hversioned
  · rcases h.lastMatch hversioned with ⟨v, hlast⟩
    simp only [hlast, Option.map_some, Option.getD_some,
      versionMetadata_enabled_iff (b.patch_appBin env i)]
    constructor
    · rintro ⟨hlastOn, hfirst⟩
      refine ⟨hversioned, hfirst, ?_⟩
      intro w hw
      rw [hlast] at hw
      obtain rfl := Option.some.inj hw
      exact hlastOn
    · intro hdeciders
      exact ⟨hdeciders.last v hlast, hdeciders.first⟩

/-- The run up to a block is defined exactly where the blocks before it are. -/
theorem PatchFile.before_run (file : PatchFile) (env : Env) (info : GamePatchInfo) {i : ℕ}
    (hlt : i ≤ file.blocks.length) :
    ((∀ p ∈ (file.blocks.take i).zipIdx, p.1.Defined env info p.2) →
      ∃ ctx, runLines env (runContext noteEntry info []) (file.before i) = some ctx ∧
        Listening noteEntry info ctx ∧ BlocksRead env i ctx ∧
        (info.appVer = [] → ctx.processingEnabledPatch = false)) ∧
    ((∃ p ∈ (file.blocks.take i).zipIdx, ¬ p.1.Defined env info p.2) →
      runLines env (runContext noteEntry info []) (file.before i) = none) := by
  obtain ⟨start, hpreamble, hstart, hread, -, hflag⟩ :=
    file.preamble_run env noteEntry info []
  obtain ⟨hdefined, hundefined⟩ := blocks_run (file.blocks.take i) hstart hread
  rw [before, runLines_append, hpreamble, Option.bind_some]
  refine ⟨fun h => ?_, hundefined⟩
  rcases hdefined h with ⟨ctx, hrun, hctx, hread', -, hkeep⟩
  rw [List.length_take, Nat.min_eq_left hlt, Nat.zero_add] at hread'
  exact ⟨ctx, hrun, hctx, hread', fun hempty => (hkeep hempty).trans hflag⟩

/-- A wanted block is applied completely exactly when no lookup up to it goes wrong
and it has no entries or both its deciders are enabled. -/
theorem PatchFile.appliesCompletely_iff (hprx : env.prx = true)
    (hb : file.blocks[i]? = some b) (hwanted : b.Wanted env info i) :
    file.AppliesCompletely env info i b ↔
      (∀ p ∈ (file.blocks.take (i + 1)).zipIdx, p.1.LookupsDefined env info p.2) ∧
        (b.entries = [] ∨ b.DecidersEnabled env info i) := by
  have hlt : i < file.blocks.length := (List.getElem?_eq_some_iff.mp hb).1
  obtain ⟨hdefined, hundefined⟩ :=
    file.before_run env info (Nat.le_of_lt hlt)
  simp only [← Block.defined_iff hprx, zipIdx_take_succ hb, List.forall_mem_append,
    List.forall_mem_singleton]
  by_cases hbefore : ∀ p ∈ (file.blocks.take i).zipIdx, p.1.Defined env info p.2
  · rcases hdefined hbefore with ⟨ctx, hrun, hctx, hread, hflag⟩
    obtain ⟨hsome, hnone⟩ := b.lines_run hctx hread
    by_cases hthis : b.Defined env info i
    · rcases hsome hthis with ⟨ctx', hrun', -, -, heffect⟩
      have hgame := heffect.game
      rw [noteEntry_foldl] at hgame
      have happlies : file.AppliesCompletely env info i b ↔
          ctx'.userData.game = ctx.userData.game ++ b.entries := by
        constructor
        · rintro ⟨c, c', hc, hc', h⟩
          obtain rfl := Option.some.inj (hrun.symm.trans hc)
          obtain rfl := Option.some.inj (hrun'.symm.trans hc')
          exact h
        · intro h
          exact ⟨ctx, ctx', hrun, hrun', h⟩
      have hflags := hwanted.flags_iff hflag
      rw [happlies, hgame]
      by_cases hdeciders : b.DecidersEnabled env info i
      · rw [if_pos (hflags.mpr hdeciders)]
        exact iff_of_true rfl ⟨⟨hbefore, hthis⟩, Or.inr hdeciders⟩
      · rw [if_neg (mt hflags.mp hdeciders), List.self_eq_append_right]
        exact ⟨fun hempty => ⟨⟨hbefore, hthis⟩, Or.inl hempty⟩,
          fun h => h.2.resolve_right hdeciders⟩
    · refine iff_of_false ?_ fun h => hthis h.1.2
      rintro ⟨c, c', hc, hc', -⟩
      obtain rfl := Option.some.inj (hrun.symm.trans hc)
      rw [hnone hthis] at hc'
      cases hc'
  · refine iff_of_false ?_ fun h => hbefore h.1.1
    rintro ⟨c, c', hc, -⟩
    rw [hundefined (by simpa using hbefore)] at hc
    cases hc

/-- The wanted blocks of a file are applied completely exactly when that holds for
each of them. -/
theorem PatchFile.appliesWanted_iff (env : Env) (info : GamePatchInfo) (file : PatchFile)
    (hprx : env.prx = true) :
    file.AppliesWanted env info ↔
      ∀ p ∈ file.blocks.zipIdx, p.1.Wanted env info p.2 →
        (∀ q ∈ (file.blocks.take (p.2 + 1)).zipIdx, q.1.LookupsDefined env info q.2) ∧
          (p.1.entries = [] ∨ p.1.DecidersEnabled env info p.2) := by
  constructor
  · intro h p hp hwanted
    have hb := List.mem_zipIdx_iff_getElem?.mp hp
    exact (file.appliesCompletely_iff hprx hb hwanted).mp (h p hp hwanted)
  · intro h p hp hwanted
    have hb := List.mem_zipIdx_iff_getElem?.mp hp
    exact (file.appliesCompletely_iff hprx hb hwanted).mpr (h p hp hwanted)

/-! ## A version that is not the first of its list -/

/-- A block for two versions, the running one second. -/
def twoVersions : Block where
  opening := "patch:".toList
  header := ["  title: \"A\"", "  app_bin: \"EBOOT\"", "  app_ver: [ \"2\", \"1\" ]"].map
    String.toList
  patches := "  patches:".toList
  body := [entryLine]
  opens := oneVersion.opens
  plain_header := by decide +kernel
  opensEntries := oneVersion.opensEntries
  plain_body := oneVersion.plain_body
  title := by decide +kernel
  appBin := by decide +kernel
  appVers := by decide +kernel
  keepsTitle := by decide +kernel

def twoVersionsFile : PatchFile where
  preamble := []
  blocks := [twoVersions]
  filler_preamble := List.forall_mem_nil Filler

theorem PatchFile.appliesWanted_iff_twoVersions :
    let env := consoleWith [630480275, 2349341661] "/game/EBOOT.BIN".toList
    twoVersionsFile.AppliesWanted env runningGame ↔
      ∀ p ∈ twoVersionsFile.blocks.zipIdx, p.1.Wanted env runningGame p.2 →
        (∀ q ∈ (twoVersionsFile.blocks.take (p.2 + 1)).zipIdx,
          q.1.LookupsDefined env runningGame q.2) ∧
          (p.1.entries = [] ∨ p.1.DecidersEnabled env runningGame p.2) :=
  PatchFile.appliesWanted_iff _ _ _ rfl

/-- Only the second version is switched on, and its entry is not applied. -/
theorem PatchFile.not_appliesWanted :
    ¬ twoVersionsFile.AppliesWanted (consoleWith [2349341661] "/game/EBOOT.BIN".toList)
      runningGame := by
  intro h
  have hwanted : twoVersions.Wanted (consoleWith [2349341661] "/game/EBOOT.BIN".toList)
      runningGame 0 := by decide +kernel
  have happlies := h (twoVersions, 0) (by simp [twoVersionsFile]) hwanted
  revert happlies
  decide +kernel

end GamePatch
