import GamePatch.Verification.Parser.LowMem

/-! # Files made of blocks

A block opens with a `patch:` line, gives its title, its binary and its versions,
and has one `patches:` line with the entries behind it. The context between two
blocks depends on their number only, apart from the flag and the user data. -/

namespace GamePatch

/-! ## Blocks -/

/-- A line that neither opens a block nor its entries. -/
def Plain (line : CString) : Prop := ¬ OpensBlock line ∧ ¬ OpensEntries line

instance (line : CString) : Decidable (Plain line) :=
  inferInstanceAs (Decidable (¬ OpensBlock line ∧ ¬ OpensEntries line))

/-- A line that no block takes notice of. -/
def Filler (line : CString) : Prop :=
  lineKind false line = .ignored ∨ lineKind false line = .titleid ∨ lineKind false line = .other

instance (line : CString) : Decidable (Filler line) :=
  inferInstanceAs (Decidable (_ ∨ _ ∨ _))

/-- The lines of a block: the one that opens it, those before its `patches:` line,
that line, and those behind it. -/
structure BlockText where
  opening : CString
  header : List CString
  patches : CString
  body : List CString

namespace BlockText

/-- The lines behind the opening one. -/
def inner (b : BlockText) : List CString := b.header ++ b.patches :: b.body

def lines (b : BlockText) : List CString := b.opening :: b.inner

/-- The entries of the block, in file order. -/
def entries (b : BlockText) : List PatchEntry := b.body.flatMap (lineEntries true)

end BlockText

/-- A block as it stands in a file, with one `patches:` line. -/
structure Block extends BlockText where
  opens : OpensBlock opening
  plain_header : ∀ line ∈ header, Plain line
  opensEntries : OpensEntries patches
  plain_body : ∀ line ∈ body, Plain line
  title : (ownPatch true header).title ≠ none
  appBin : (ownPatch true header).appBin ≠ none
  appVers : (ownPatch true header).appVers ≠ []
  keepsTitle : (ownPatch true (header ++ body)).title ≠ none

/-- A file: lines that no block takes notice of, then blocks. -/
structure PatchFile where
  preamble : List CString
  blocks : List Block
  filler_preamble : ∀ line ∈ preamble, Filler line

def PatchFile.lines (file : PatchFile) : List CString :=
  file.preamble ++ file.blocks.flatMap (·.lines)

/-- Whether the version array of the `i`-th block is there: the first one is made
with the context, each other one when the block before is completed. -/
def Env.arrayAllocated (env : Env) : ℕ → Bool
  | 0 => true
  | i + 1 => env.alloc i

section

variable (env : Env) (info : GamePatchInfo) (i : ℕ) (b : Block)

/-- The block as the parser holds it at its `patches:` line. -/
def Block.patch : Patch := ownPatch (env.arrayAllocated i) b.header

/-- The metadata of the versions of the `i`-th block. -/
def Block.metas : List PatchMetadata :=
  (b.patch env i).versions.map (versionMetadata env info (env.sizeT i) (b.patch env i))

/-- The metadata that match the game. -/
def Block.hits : List PatchMetadata := (b.metas env info i).filter (·.matchesGame)

/-- The metadata of index 0. -/
def Block.firstMeta : PatchMetadata :=
  versionMetadata env info (env.sizeT i) (b.patch env i) ((b.patch env i).appVers.head?, 0)

/-- No round of the loop over the versions goes wrong. -/
def Block.Defined : Prop :=
  ∀ v ∈ (b.patch env i).versions, MetadataDefined env info (env.sizeT i) (b.patch env i) v

end

/-- Without a version of the game nothing matches. -/
theorem Block.hits_of_unversioned (b : Block) {env : Env} {info : GamePatchInfo} {i : ℕ}
    (hempty : info.appVer = []) : b.hits env info i = [] := by
  rw [hits, List.filter_eq_nil_iff]
  intro metadata hmem hmatch
  obtain ⟨v, -, rfl⟩ := List.mem_map.mp hmem
  exact (patchMatchesGame_iff.mp hmatch).1 hempty

/-! ## A missing version array -/

theorem Patch.readLine_without_appVer (patch : Patch) (line : CString) :
    ({ patch with appVer := none } : Patch).readLine line =
      { patch.readLine line with appVer := none } := by
  unfold readLine
  split
  · rename_i k _
    cases k <;> rfl
  · unfold setAppVer
    split <;> rfl
  · rfl

theorem ownPatch_false (lines : List CString) :
    ownPatch false lines = { ownPatch true lines with appVer := none } := by
  induction lines using List.reverseRecOn with
  | nil => rfl
  | append_singleton lines line ih =>
      rw [ownPatch_append_singleton, ownPatch_append_singleton, ih,
        Patch.readLine_without_appVer]

theorem ownPatch_title (allocated : Bool) (lines : List CString) :
    (ownPatch allocated lines).title = (ownPatch true lines).title := by
  cases allocated with
  | true => rfl
  | false => rw [ownPatch_false]

theorem ownPatch_appBin (allocated : Bool) (lines : List CString) :
    (ownPatch allocated lines).appBin = (ownPatch true lines).appBin := by
  cases allocated with
  | true => rfl
  | false => rw [ownPatch_false]

theorem Patch.readLine_of_filler {line : CString} (h : Filler line) (patch : Patch) :
    patch.readLine line = patch := by
  rcases h with h | h | h <;> simp [readLine, h]

theorem Filler.plain {line : CString} (h : Filler line) : Plain line := by
  constructor
  · intro hopens
    rcases h with h | h | h <;> cases h.symm.trans hopens
  · intro hopens
    rcases h with h | h | h <;> cases h.symm.trans hopens

/-! ## The context between blocks -/

variable {ω : Type} {env : Env} {info : GamePatchInfo} {applyPatch : PatchEntry → ω → ω}

/-- What a run of `run_patch` never changes. -/
structure Listening (applyPatch : PatchEntry → ω → ω) (info : GamePatchInfo)
    (ctx : ParseContext (RunData ω)) : Prop where
  mode : ctx.mode = .lowMem
  gameInfo : ctx.gameInfo = info
  metaCallback : ctx.metaCallback = some metadataCallback
  entryCallback : ctx.entryCallback = some (entryCallback applyPatch)

/-- The context before the lines of the `i`-th block, its opening line being read. -/
structure BlockStart (env : Env) (i : ℕ) (ctx : ParseContext (RunData ω)) : Prop where
  number : ctx.currentPatchNumber = env.sizeT i
  allocs : ctx.allocs = i
  patch : ctx.currentPatch = Patch.blank (env.arrayAllocated i)
  section_closed : ctx.inPatchesSection = false

/-- The context behind the lines of the `i`-th block. -/
structure BlockEnd (env : Env) (i : ℕ) (ctx : ParseContext (RunData ω)) : Prop where
  number : ctx.currentPatchNumber = env.sizeT i
  allocs : ctx.allocs = i
  title : ctx.currentPatch.title ≠ none

/-- The context where `i` blocks have been read. -/
def BlocksRead (env : Env) : ℕ → ParseContext (RunData ω) → Prop
  | 0, ctx => BlockStart env 0 ctx
  | i + 1, ctx => BlockEnd env i ctx

theorem Env.sizeT_succ (env : Env) (i : ℕ) : env.sizeT (env.sizeT i + 1) = env.sizeT (i + 1) := by
  simp [Env.sizeT]

/-- The completion of the block before, if there is one. -/
theorem completion_run {i : ℕ} {ctx : ParseContext (RunData ω)}
    (hctx : Listening applyPatch info ctx) (hread : BlocksRead env i ctx) :
    ∃ ctx', handlePatchComplete env ctx = some ctx' ∧ Listening applyPatch info ctx' ∧
      BlockStart env i ctx' ∧ ctx'.userData = ctx.userData ∧
      ctx'.processingEnabledPatch = ctx.processingEnabledPatch := by
  cases i with
  | zero =>
      have htitle : ctx.currentPatch.title = none := by
        rw [hread.patch]
        rfl
      exact ⟨ctx, handlePatchComplete_untitled htitle, hctx, hread, rfl, rfl⟩
  | succ i =>
      refine ⟨ctx.nextBlock env, handlePatchComplete_lowMem hctx.mode hread.title,
        ⟨hctx.mode, hctx.gameInfo, hctx.metaCallback, hctx.entryCallback⟩, ⟨?_, ?_, ?_, rfl⟩,
        rfl, rfl⟩
      · rw [ParseContext.nextBlock, hread.number, Env.sizeT_succ]
      · rw [ParseContext.nextBlock, hread.allocs]
      · rw [ParseContext.nextBlock, hread.allocs]
        rfl

/-- What the lines of the `i`-th block do to the user data. -/
structure BlockEffect (env : Env) (applyPatch : PatchEntry → ω → ω) (info : GamePatchInfo) (i : ℕ)
    (b : Block) (ctx ctx' : ParseContext (RunData ω)) : Prop where
  count : ctx'.userData.count = ctx.userData.count + (b.hits env info i).length
  game : ctx'.userData.game =
    if ((b.hits env info i).getLast?.map (·.enabled)).getD ctx.processingEnabledPatch = true ∧
        (b.firstMeta env info i).enabled = true then
      b.entries.foldl (fun game entry => applyPatch entry game) ctx.userData.game
    else ctx.userData.game
  flag : ctx'.processingEnabledPatch =
    ((b.hits env info i).getLast?.map (·.enabled)).getD ctx.processingEnabledPatch

theorem entryCallback_fold (metadata : PatchMetadata) (entries : List PatchEntry)
    (data : RunData ω) :
    entries.foldl (fun data entry => entryCallback applyPatch metadata entry data) data =
      ⟨data.count,
        if metadata.enabled then
          entries.foldl (fun game entry => applyPatch entry game) data.game
        else data.game⟩ := by
  induction entries generalizing data with
  | nil => simp
  | cons entry entries ih =>
      rw [List.foldl_cons, ih]
      by_cases henabled : metadata.enabled = true <;> simp [entryCallback, henabled]

/-- The context behind the `patches:` line of the `i`-th block. -/
def Block.announced (b : Block) (env : Env) (info : GamePatchInfo) (i : ℕ)
    (ctx : ParseContext (RunData ω)) : ParseContext (RunData ω) :=
  { ctx with
    inPatchesSection := true
    userData := ⟨ctx.userData.count + (b.hits env info i).length, ctx.userData.game⟩
    processingEnabledPatch :=
      ((b.hits env info i).getLast?.map (·.enabled)).getD ctx.processingEnabledPatch
    currentMeta := b.firstMeta env info i }

/-- The header is read into the block and changes nothing else of note. -/
theorem Block.header_run (b : Block) {i : ℕ} {ctx : ParseContext (RunData ω)}
    (hctx : Listening applyPatch info ctx) (hstart : BlockStart env i ctx) :
    ∃ titleids, runLines env ctx b.header =
      some { ctx with globalTitleids := titleids, currentPatch := b.patch env i } := by
  obtain ⟨titleids, hheader⟩ := runLines_plain env b.header b.plain_header ctx hctx.mode
    hctx.entryCallback
  have hnone : b.header.flatMap (lineEntries false) = [] := by
    simp [lineEntries_false]
  rw [hstart.section_closed, hstart.patch, hnone, ParseContext.applyEntries_nil] at hheader
  refine ⟨titleids, ?_⟩
  rw [hheader, ← hstart.section_closed]
  rfl

/-- The `patches:` line fails exactly where the metadata of a version do. -/
theorem Block.patches_run (b : Block) {i : ℕ} {ctx : ParseContext (RunData ω)}
    (hctx : Listening applyPatch info ctx) (hnumber : ctx.currentPatchNumber = env.sizeT i)
    (hpatch : ctx.currentPatch = b.patch env i) :
    (b.Defined env info i →
      processLine env ctx b.patches = some (b.announced env info i ctx)) ∧
    (¬ b.Defined env info i → processLine env ctx b.patches = none) := by
  have hpatches := fun ctx' => @processLine_patches_lowMem _ env _ ctx' _
    (b.opensEntries.lineKind_eq _) hctx.mode metadataCallback hctx.metaCallback
  have hdefined : ctx.VersionsDefined env ↔ b.Defined env info i := by
    rw [ParseContext.VersionsDefined, Block.Defined, hctx.gameInfo, hnumber, hpatch]
  have hmetaOf : ctx.metaOf env = versionMetadata env info (env.sizeT i) (b.patch env i) := by
    funext v
    rw [ParseContext.metaOf, hctx.gameInfo, hnumber, hpatch]
  have hmetas : (ctx.metas env).filter (·.matchesGame) = b.hits env info i := by
    rw [ParseContext.metas, hmetaOf, hpatch]
    rfl
  have hfirst : ctx.metaOf env (ctx.currentPatch.appVers.head?, 0) = b.firstMeta env info i := by
    rw [hmetaOf, hpatch]
    rfl
  constructor
  · intro h
    rw [(hpatches _).mpr ⟨hdefined.mpr h, rfl⟩, ParseContext.announceAll_eq,
      metadataCallback_fold, hmetas, hfirst]
    rfl
  · intro h
    cases hline : processLine env ctx b.patches with
    | none => rfl
    | some ctx' => exact absurd (hdefined.mp ((hpatches ctx').mp hline).1) h

/-- The lines behind the opening one fail exactly where the metadata of a version
do; otherwise they announce the versions and apply the entries. -/
theorem Block.inner_run (b : Block) {i : ℕ} {ctx : ParseContext (RunData ω)}
    (hctx : Listening applyPatch info ctx) (hstart : BlockStart env i ctx) :
    (b.Defined env info i → ∃ ctx', runLines env ctx b.inner = some ctx' ∧
      Listening applyPatch info ctx' ∧ BlockEnd env i ctx' ∧
      BlockEffect env applyPatch info i b ctx ctx') ∧
    (¬ b.Defined env info i → runLines env ctx b.inner = none) := by
  obtain ⟨titleids, hheader⟩ := b.header_run hctx hstart
  have hlistening : Listening applyPatch info
      { ctx with globalTitleids := titleids, currentPatch := b.patch env i } :=
    ⟨hctx.mode, hctx.gameInfo, hctx.metaCallback, hctx.entryCallback⟩
  obtain ⟨hannounced, hfailed⟩ := b.patches_run hlistening hstart.number rfl
  rw [BlockText.inner, runLines_append, hheader, Option.bind_some, runLines_cons]
  constructor
  · intro h
    rw [hannounced h, Option.bind_some]
    obtain ⟨titleids', hbody⟩ := runLines_plain env b.body b.plain_body
      (b.announced env info i
        { ctx with globalTitleids := titleids, currentPatch := b.patch env i })
      hctx.mode hctx.entryCallback
    refine ⟨_, hbody, ⟨hctx.mode, hctx.gameInfo, hctx.metaCallback, hctx.entryCallback⟩,
      ⟨hstart.number, hstart.allocs, ?_⟩, ?_, ?_, rfl⟩
    · have hpatch : b.body.foldl Patch.readLine (b.patch env i) =
          ownPatch (env.arrayAllocated i) (b.header ++ b.body) := by
        rw [Block.patch, ownPatch, ownPatch, List.foldl_append]
      simp only [Block.announced]
      rw [hpatch, ownPatch_title]
      exact b.keepsTitle
    · simp only [ParseContext.applyEntries, entryCallback_fold, Block.announced]
      split <;> rfl
    · simp only [ParseContext.applyEntries, entryCallback_fold, Block.announced]
      split_ifs <;> simp_all [BlockText.entries]
  · intro h
    rw [hfailed h]
    rfl

theorem Block.lines_run (b : Block) {i : ℕ} {ctx : ParseContext (RunData ω)}
    (hctx : Listening applyPatch info ctx) (hread : BlocksRead env i ctx) :
    (b.Defined env info i → ∃ ctx', runLines env ctx b.lines = some ctx' ∧
      Listening applyPatch info ctx' ∧ BlocksRead env (i + 1) ctx' ∧
      BlockEffect env applyPatch info i b ctx ctx') ∧
    (¬ b.Defined env info i → runLines env ctx b.lines = none) := by
  obtain ⟨mid, hcomplete, hmid, hstart, hdata, hflag⟩ := completion_run hctx hread
  obtain ⟨hdefined, hundefined⟩ := b.inner_run hmid hstart
  rw [BlockText.lines, runLines_cons, processLine_patch (b.opens.lineKind_eq _), hcomplete,
    Option.bind_some]
  constructor
  · intro h
    rcases hdefined h with ⟨ctx', hrun, hctx', hend, heffect⟩
    refine ⟨ctx', hrun, hctx', hend, ?_, ?_, ?_⟩
    · rw [heffect.count, hdata]
    · rw [heffect.game, hdata, hflag]
    · rw [heffect.flag, hflag]
  · exact hundefined

/-- A run over blocks fails exactly where one of them does, and counts what all of
them announce. -/
theorem blocks_run (bs : List Block) : ∀ {i : ℕ} {ctx : ParseContext (RunData ω)},
    Listening applyPatch info ctx → BlocksRead env i ctx →
    ((∀ p ∈ bs.zipIdx i, p.1.Defined env info p.2) →
      ∃ ctx', runLines env ctx (bs.flatMap (·.lines)) = some ctx' ∧
        Listening applyPatch info ctx' ∧ BlocksRead env (i + bs.length) ctx' ∧
        ctx'.userData.count = ctx.userData.count +
          ((bs.zipIdx i).map fun p => (p.1.hits env info p.2).length).sum ∧
        (info.appVer = [] → ctx'.processingEnabledPatch = ctx.processingEnabledPatch)) ∧
    ((∃ p ∈ bs.zipIdx i, ¬ p.1.Defined env info p.2) →
      runLines env ctx (bs.flatMap (·.lines)) = none) := by
  induction bs with
  | nil =>
      intro i ctx hctx hread
      exact ⟨fun _ => ⟨ctx, rfl, hctx, hread, rfl, fun _ => rfl⟩, by simp⟩
  | cons b bs ih =>
      intro i ctx hctx hread
      obtain ⟨hdefined, hundefined⟩ := b.lines_run hctx hread
      rw [List.flatMap_cons, runLines_append]
      simp only [List.zipIdx_cons, List.forall_mem_cons, List.exists_mem_cons_iff,
        List.map_cons, List.sum_cons, List.length_cons]
      constructor
      · rintro ⟨hb, hbs⟩
        rcases hdefined hb with ⟨mid, hrun, hmid, hread', heffect⟩
        obtain ⟨ctx', hrest, hctx', hend, hcount, hflag⟩ := (ih hmid hread').1 hbs
        refine ⟨ctx', ?_, hctx', ?_, ?_, ?_⟩
        · rw [hrun, Option.bind_some, hrest]
        · rw [Nat.add_comm bs.length 1, ← Nat.add_assoc]
          exact hend
        · rw [hcount, heffect.count, Nat.add_assoc]
        · intro hempty
          rw [hflag hempty, heffect.flag, b.hits_of_unversioned hempty]
          rfl
      · intro h
        by_cases hb : b.Defined env info i
        · rcases hdefined hb with ⟨mid, hrun, hmid, hread', -⟩
          rw [hrun, Option.bind_some]
          exact (ih hmid hread').2 (h.resolve_left fun hn => hn hb)
        · rw [hundefined hb]
          rfl

theorem foldl_readLine_of_filler {lines : List CString} (h : ∀ line ∈ lines, Filler line)
    (patch : Patch) : lines.foldl Patch.readLine patch = patch := by
  induction lines with
  | nil => rfl
  | cons line lines ih =>
      rw [List.foldl_cons, Patch.readLine_of_filler (h line (by simp)),
        ih fun l hl => h l (List.mem_cons_of_mem line hl)]

/-- The lines before the first block leave a fresh context. -/
theorem PatchFile.preamble_run (file : PatchFile) (env : Env)
    (applyPatch : PatchEntry → ω → ω) (info : GamePatchInfo) (game : ω) :
    ∃ ctx, runLines env (runContext applyPatch info game) file.preamble = some ctx ∧
      Listening applyPatch info ctx ∧ BlocksRead env 0 ctx ∧ ctx.userData = ⟨0, game⟩ ∧
      ctx.processingEnabledPatch = false := by
  obtain ⟨titleids, hrun⟩ := runLines_plain env file.preamble
    (fun line hline => (file.filler_preamble line hline).plain)
    (runContext applyPatch info game) rfl rfl
  refine ⟨_, hrun, ⟨rfl, rfl, rfl, rfl⟩, ⟨?_, rfl, ?_, rfl⟩, rfl, rfl⟩
  · simp [runContext, createParseContext, Env.sizeT]
  · exact foldl_readLine_of_filler file.filler_preamble _

/-! ## A small block -/

/-- A block for the running version alone. -/
def oneVersion : Block where
  opening := "patch:".toList
  header := ["  title: \"A\"", "  app_bin: \"EBOOT\"", "  app_ver: \"1\""].map String.toList
  patches := "  patches:".toList
  body := [entryLine]
  opens := by decide +kernel
  plain_header := by decide +kernel
  opensEntries := by decide +kernel
  plain_body := by decide +kernel
  title := by decide +kernel
  appBin := by decide +kernel
  appVers := by decide +kernel
  keepsTitle := by decide +kernel

def oneVersionFile : PatchFile where
  preamble := []
  blocks := [oneVersion]
  filler_preamble := List.forall_mem_nil Filler

end GamePatch
