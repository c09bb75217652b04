import GamePatch.Verification.Parser.Count

/-! # What a run applies

A run opens or closes its gate at every block that has the game's version, and
leaves it as it is at every other block. The entries of a block pass when the
gate is open and the first version of the block is switched on. -/

namespace GamePatch

open Parts

variable {ω : Type}

/-! ## The gate -/

section

variable (on : UInt32 → Bool) (env : Env) (info : GamePatchInfo) (i : ℕ) (b : Block)

/-- The version is switched on, and the game runs the binary of the block. -/
def Block.Enabled (v : Option CString × ℕ) : Prop :=
  on (versionHash env info (env.sizeT i) (b.patch env i) v) = true ∧
    env.argv0.any (fun exe => (b.patch env i).appBin.any (env.strstr exe)) = true

instance (v : Option CString × ℕ) : Decidable (b.Enabled on env info i v) :=
  inferInstanceAs (Decidable (_ = true ∧ _ = true))

/-- Whether the last version of the block that is the game's is enabled; absent
where no version is. -/
def Block.verdict : Option Bool :=
  (b.lastMatch env info i).map fun v => decide (b.Enabled on env info i v)

/-- The first version of the block is enabled. -/
def Block.FirstEnabled : Prop :=
  b.Enabled on env info i ((b.patch env i).appVers.head?, 0)

instance : Decidable (b.FirstEnabled on env info i) :=
  inferInstanceAs (Decidable (b.Enabled on env info i _))

end

namespace PatchFile

variable (file : PatchFile) (on : UInt32 → Bool) (env : Env) (info : GamePatchInfo)

/-- The last verdict among the first `n` blocks. -/
def lastVerdict (n : ℕ) : Option Bool :=
  ((file.blocks.take n).zipIdx.filterMap fun p => p.1.verdict on env info p.2).getLast?

/-- The gate is open at the block, and its first version is enabled. -/
def LetsThrough (p : Block × ℕ) : Prop :=
  file.lastVerdict on env info (p.2 + 1) = some true ∧ p.1.FirstEnabled on env info p.2

instance (p : Block × ℕ) : Decidable (file.LetsThrough on env info p) :=
  inferInstanceAs (Decidable (_ ∧ _))

/-- The entries that pass among those of the first `n` blocks, in file order. -/
def passed (n : ℕ) : List PatchEntry :=
  ((file.blocks.take n).zipIdx.filter fun p =>
    decide (file.LetsThrough on env info p)).flatMap fun p => p.1.entries

/-- How often the first `n` blocks name the version of the game. -/
def named (n : ℕ) : ℕ :=
  ((file.blocks.take n).zipIdx.map fun p => (p.1.hits env info p.2).length).sum

end PatchFile

variable {on : UInt32 → Bool} {env : Env} {info : GamePatchInfo} {i : ℕ} {b : Block}
  {file : PatchFile}

/-! ## One block -/

/-- What the settings file says of a hash. -/
def Env.settingsOn (env : Env) (info : GamePatchInfo) (hash : UInt32) : Bool :=
  decide (env.readPatchState (settingsPath info.titleid) hash = some 1)

instance (env : Env) (info : GamePatchInfo) (i : ℕ) (b : Block) :
    Decidable (b.LookupsDefined env info i) :=
  inferInstanceAs (Decidable (∀ v ∈ (b.patch env i).versions, _ ≠ none))

theorem Block.enabled_iff (b : Block) (env : Env) (info : GamePatchInfo) (i : ℕ)
    (v : Option CString × ℕ) :
    (versionMetadata env info (env.sizeT i) (b.patch env i) v).enabled = true ↔
      b.Enabled (env.settingsOn info) env info i v := by
  rw [versionMetadata_enabled_iff (b.patch_appBin env i), enabledVersion_iff, Enabled,
    Env.settingsOn, decide_eq_true_iff]

theorem Block.getLast?_hits_enabled (b : Block) (env : Env) (info : GamePatchInfo) (i : ℕ) :
    (b.hits env info i).getLast?.map (·.enabled) =
      b.verdict (env.settingsOn info) env info i := by
  rw [b.getLast?_hits env info i, verdict, Option.map_map]
  congr 1
  funext v
  rw [Function.comp_apply, Bool.eq_iff_iff, decide_eq_true_iff]
  exact b.enabled_iff env info i v

/-! ## The blocks before a position -/

namespace PatchFile

theorem lastVerdict_succ (hb : file.blocks[i]? = some b) :
    file.lastVerdict on env info (i + 1) =
      (b.verdict on env info i).or (file.lastVerdict on env info i) := by
  rw [lastVerdict, lastVerdict, zipIdx_take_succ hb, List.filterMap_append, List.getLast?_append]
  cases h : b.verdict on env info i <;> simp [h]

theorem passed_succ (hb : file.blocks[i]? = some b) :
    file.passed on env info (i + 1) =
      file.passed on env info i ++
        if file.LetsThrough on env info (b, i) then b.entries else [] := by
  rw [passed, passed, zipIdx_take_succ hb, List.filter_append, List.flatMap_append]
  by_cases h : file.LetsThrough on env info (b, i) <;> simp [h]

theorem named_succ (hb : file.blocks[i]? = some b) :
    file.named env info (i + 1) = file.named env info i + (b.hits env info i).length := by
  rw [named, named, zipIdx_take_succ hb, List.map_append, List.sum_append]
  simp

theorem before_succ (hb : file.blocks[i]? = some b) :
    file.before (i + 1) = file.before i ++ b.lines := by
  rw [before, before, List.take_add_one, hb, List.flatMap_append, List.append_assoc]
  simp

/-- The flag of the parser is the gate, and the game is what the entries that
passed have made of it. -/
structure GateInvariant (file : PatchFile) (env : Env) (applyPatch : PatchEntry → ω → ω)
    (info : GamePatchInfo) (game : ω) (i : ℕ) (ctx : ParseContext (RunData ω)) : Prop where
  listening : Listening applyPatch info ctx
  read : BlocksRead env i ctx
  count : ctx.userData.count = file.named env info i
  game : ctx.userData.game =
    (file.passed (env.settingsOn info) env info i).foldl
      (fun game entry => applyPatch entry game) game
  flag : ctx.processingEnabledPatch =
    (file.lastVerdict (env.settingsOn info) env info i).getD false

/-- What one block does to the gate and to the game. -/
theorem GateInvariant.block {applyPatch : PatchEntry → ω → ω} {game : ω}
    {ctx ctx' : ParseContext (RunData ω)}
    (h : file.GateInvariant env applyPatch info game i ctx) (hb : file.blocks[i]? = some b)
    (hlistening : Listening applyPatch info ctx') (hread : BlocksRead env (i + 1) ctx')
    (heffect : BlockEffect env applyPatch info i b ctx ctx') :
    file.GateInvariant env applyPatch info game (i + 1) ctx' := by
  have hflag : ctx'.processingEnabledPatch =
      (file.lastVerdict (env.settingsOn info) env info (i + 1)).getD false := by
    rw [heffect.flag, b.getLast?_hits_enabled env info i, h.flag, lastVerdict_succ hb]
    cases b.verdict (env.settingsOn info) env info i <;> rfl
  refine ⟨hlistening, hread, ?_, ?_, hflag⟩
  · rw [heffect.count, h.count, named_succ hb]
  · have hgate : (((b.hits env info i).getLast?.map (·.enabled)).getD ctx.processingEnabledPatch =
        true ∧ (b.firstMeta env info i).enabled = true) ↔
          file.LetsThrough (env.settingsOn info) env info (b, i) := by
      rw [← heffect.flag, hflag, Block.firstMeta, b.enabled_iff env info i, LetsThrough,
        Block.FirstEnabled]
      cases file.lastVerdict (env.settingsOn info) env info (i + 1) <;> simp
    rw [heffect.game, h.game, passed_succ hb, List.foldl_append]
    by_cases hpasses : file.LetsThrough (env.settingsOn info) env info (b, i)
    · rw [if_pos (hgate.mpr hpasses), if_pos hpasses]
    · rw [if_neg (mt hgate.mp hpasses), if_neg hpasses, List.foldl_nil]

/-- The run over the lines before a block. -/
theorem gate_run (file : PatchFile) (env : Env) (applyPatch : PatchEntry → ω → ω)
    (info : GamePatchInfo) (game : ω) {n : ℕ} (hn : n ≤ file.blocks.length)
    (hdefined : ∀ p ∈ (file.blocks.take n).zipIdx, p.1.Defined env info p.2) :
    ∃ ctx, runLines env (runContext applyPatch info game) (file.before n) = some ctx ∧
      file.GateInvariant env applyPatch info game n ctx := by
  induction n with
  | zero =>
      rcases file.preamble_run env applyPatch info game with ⟨ctx, hrun, hctx, hread, hdata, hflag⟩
      refine ⟨ctx, by simpa [before] using hrun, hctx, hread, ?_, ?_, hflag⟩
      · rw [hdata]
        rfl
      · rw [hdata]
        rfl
  | succ n ih =>
      have hb : file.blocks[n]? = some file.blocks[n] := List.getElem?_eq_getElem hn
      rw [zipIdx_take_succ hb, List.forall_mem_append, List.forall_mem_singleton] at hdefined
      rcases ih (Nat.le_of_succ_le hn) hdefined.1 with ⟨ctx, hrun, hinv⟩
      obtain ⟨ctx', hlines, hctx', hread', heffect⟩ :=
        (file.blocks[n].lines_run hinv.listening hinv.read).1 hdefined.2
      refine ⟨ctx', ?_, hinv.block hb hctx' hread' heffect⟩
      rw [before_succ hb, runLines_append, hrun, Option.bind_some, hlines]

/-- A run over a file of blocks goes wrong exactly where a lookup does; otherwise the
game is what the entries that pass make of it, and the count is how often the file
names its version. -/
theorem runPatch_gate (file : PatchFile) (env : Env) (applyPatch : PatchEntry → ω → ω)
    (info : GamePatchInfo) (game : ω) (hprx : env.prx = true) :
    runPatch env applyPatch info (some file.lines) game =
      if ∀ p ∈ file.blocks.zipIdx, p.1.LookupsDefined env info p.2 then
        some (reportOf 0 ⟨file.named env info file.blocks.length,
          (file.passed (env.settingsOn info) env info file.blocks.length).foldl
            (fun game entry => applyPatch entry game) game⟩)
      else none := by
  rcases file.runPatch_lines env applyPatch info game hprx with ⟨-, hundefined⟩
  by_cases hlookups : ∀ p ∈ file.blocks.zipIdx, p.1.LookupsDefined env info p.2
  · have hdefined : ∀ p ∈ (file.blocks.take file.blocks.length).zipIdx,
        p.1.Defined env info p.2 := by
      rw [List.take_length]
      exact fun p hp => (Block.defined_iff hprx).mpr (hlookups p hp)
    rcases file.gate_run env applyPatch info game le_rfl hdefined with ⟨ctx, hrun, hinv⟩
    have hbefore : file.before file.blocks.length = file.lines := by
      rw [before, List.take_length, lines]
    rcases completion_run hinv.listening hinv.read with ⟨last, hcomplete, -, -, hdata, -⟩
    have hparse : parseLines env (runContext applyPatch info game) file.lines = some last := by
      rw [parseLines, ← hbefore, hrun]
      exact hcomplete
    rw [if_pos hlookups, runPatch, hparse, Option.map_some, hdata, ← hinv.count, ← hinv.game]
  · rw [if_neg hlookups]
    exact hundefined (by simpa using hlookups)

end PatchFile

/-! ## A gate left open -/

/-- A block for another version than the running one. -/
def otherVersion : Block where
  opening := "patch:".toList
  header := ["  title: \"B\"", "  app_bin: \"EBOOT\"", "  app_ver: \"2\""].map String.toList
  patches := "  patches:".toList
  body := [entryLine]
  opens := oneVersion.opens
  plain_header := by decide +kernel
  opensEntries := oneVersion.opensEntries
  plain_body := oneVersion.plain_body
  title := by decide +kernel
  appBin := by decide +kernel
  appVers := by decide +kernel
  keepsTitle := by decide +kernel

def otherVersionFile : PatchFile where
  preamble := []
  blocks := [oneVersion, otherVersion]
  filler_preamble := List.forall_mem_nil Filler

/-- The first block opens the gate, and the entry of the second passes too. -/
theorem PatchFile.runPatch_gate_otherVersion :
    runPatch bothOn noteEntry runningGame (some otherVersionFile.lines) [] =
      some (reportOf 0 ⟨1, oneVersion.entries ++ otherVersion.entries⟩) := by
  rw [otherVersionFile.runPatch_gate bothOn noteEntry runningGame [] rfl]
  decide +kernel

end GamePatch
