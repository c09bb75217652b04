import GamePatch.Shared.Parts
import GamePatch.Verification.Parser.Listing
import GamePatch.Verification.Parser.Missing

/-! # The identities listed and the identities announced

`PARSE_MODE_METADATA` computes the metadata of a block from what it holds at the
end of the block, `PARSE_MODE_LOW_MEM` from what it holds at a `patches:` line. -/

namespace GamePatch

open Parts

/-! ## Identities -/

/-- What tells a version of a patch from every other one. -/
structure Identity where
  patchNumber : ℕ
  hash : UInt32
  appVer : Option CString
  deriving DecidableEq, Repr

def PatchMetadata.identity (metadata : PatchMetadata) : Identity :=
  ⟨metadata.patchNumber, metadata.hash, metadata.appVer⟩

/-- The identities of those metadata that match the game. -/
def matching (metas : List PatchMetadata) : List Identity :=
  (metas.filter (·.matchesGame)).map (·.identity)

/-- The identities that match the game in a block as it stands. -/
def identities (env : Env) (game : GamePatchInfo) (number : ℕ) (patch : Patch) : List Identity :=
  matching (patch.versions.map (versionMetadata env game number patch))

/-- The identities announced at the `patches:` lines among the given ones. -/
def announcedIn (env : Env) (game : GamePatchInfo) (number : ℕ) :
    Patch → List CString → List Identity
  | _, [] => []
  | patch, line :: lines =>
      (if OpensEntries line then identities env game number patch else []) ++
        announcedIn env game number (patch.readLine line) lines

/-- A line that does not take the title or the binary from its block. -/
def KeepsNames (line : CString) : Prop :=
  lineKind false line = .key .title ∨ lineKind false line = .key .appBin →
    parseQuotedString (trim line) ≠ none

instance (line : CString) : Decidable (KeepsNames line) :=
  inferInstanceAs (Decidable (_ ∨ _ → _))

/-- A block with its title, its binary and its versions ahead of the `patches:` line.
Behind it stand lines of any kind that do not open a block. -/
structure ListedBlock extends BlockText where
  opens : OpensBlock opening
  plain_header : ∀ line ∈ header, Plain line
  opensEntries : OpensEntries patches
  inside_body : ∀ line ∈ body, ¬ OpensBlock line
  keepsNames : ∀ line ∈ body, KeepsNames line
  title : (ownPatch true header).title ≠ none
  appBin : (ownPatch true header).appBin ≠ none
  appVers : (ownPatch true header).appVers ≠ []

structure ListedFile where
  preamble : List CString
  blocks : List ListedBlock
  filler_preamble : ∀ line ∈ preamble, Filler line

def ListedFile.lines (file : ListedFile) : List CString :=
  file.preamble ++ linesOf (file.blocks.map fun b => (b.opening, b.inner))

/-! ## The lines of a block -/

/-- Where the game's version stands in the last `app_ver:` line. -/
def positions (game : GamePatchInfo) (block : List CString) : List ℕ :=
  ((lastVersions block).zipIdx.filter fun v => game.appVer ≠ [] ∧ game.appVer = v.1).map Prod.snd

/-- What the last lines with these keys have in quotes. -/
def hashedTexts (block : List CString) : List CString :=
  [Key.title, .name, .author, .version, .appBin].map fun k => (lastValue k block).getD []

/-- The lines ahead of each `patches:` line. -/
def aheadOf : List CString → List CString → List (List CString)
  | _, [] => []
  | seen, line :: lines =>
      (if OpensEntries line then [seen] else []) ++ aheadOf (seen ++ [line]) lines

def ListedBlock.ahead (b : ListedBlock) : List (List CString) :=
  aheadOf b.header (b.patches :: b.body)

/-- Different texts with the same `stringid`, one text after the other from `base` on. -/
def Collide (env : Env) (base : UInt32) (texts texts' : List CString) : Prop :=
  texts ≠ texts' ∧ texts.foldl (fun hash str => env.stringid str hash) base =
    texts'.foldl (fun hash str => env.stringid str hash) base

instance (env : Env) (base : UInt32) (texts texts' : List CString) :
    Decidable (Collide env base texts texts') :=
  inferInstanceAs (Decidable (_ ∧ _))

/-- The `stringid` of a patch number and the game. -/
def hashBase (env : Env) (game : GamePatchInfo) (number : ℕ) : UInt32 :=
  env.stringid game.titleid (env.stringid (formatSize number) 0x811c9dc5)

/-- The lines ahead of the `patches:` lines and all lines of the block name the game's
version at the same positions, and where they name it give the same texts, but for
collisions of 32 bits. -/
structure ListedBlock.LinesAgree (env : Env) (game : GamePatchInfo) (i : ℕ) (b : ListedBlock) :
    Prop where
  versions : b.ahead.flatMap (positions game) = positions game b.inner
  texts : ∀ lines ∈ b.ahead, ∀ j ∈ positions game lines,
    hashedTexts lines = hashedTexts b.inner ∨
      Collide env (hashBase env game (env.sizeT (env.sizeT i * 100 + j)))
        (hashedTexts lines ++ [game.appVer]) (hashedTexts b.inner ++ [game.appVer])

instance (env : Env) (game : GamePatchInfo) (i : ℕ) (b : ListedBlock) :
    Decidable (b.LinesAgree env game i) :=
  decidable_of_iff (_ ∧ _) ⟨fun h => ⟨h.1, h.2⟩, fun h => ⟨h.versions, h.texts⟩⟩

/-! ## The two runs -/

/-- The identities that match the game in the metadata stored for a file. -/
def listedIdentities (env : Env) (game : GamePatchInfo) (title : Option CString)
    (lines : List CString) : Option (List Identity) :=
  (parseLines env (createParseContext game .metadata title ()) lines).map fun ctx =>
    matching ctx.metadataArray.elems

def noteIdentity (metadata : PatchMetadata) (noted : List Identity) : List Identity :=
  noted ++ [metadata.identity]

/-- A context in `PARSE_MODE_LOW_MEM` whose callback notes what is announced. -/
def notingContext (game : GamePatchInfo) : ParseContext (List Identity) :=
  { createParseContext game .lowMem none [] with
    metaCallback := some noteIdentity
    entryCallback := some fun _ _ noted => noted }

/-- The identities announced for a file. -/
def announcedIdentities (env : Env) (game : GamePatchInfo) (lines : List CString) :
    Option (List Identity) :=
  (parseLines env (notingContext game) lines).map (·.userData)

/-- Both runs end, and list and announce the same. -/
def ListedFile.SameIdentities (env : Env) (game : GamePatchInfo) (title : Option CString)
    (file : ListedFile) : Prop :=
  ∃ ids, listedIdentities env game title file.lines = some ids ∧
    announcedIdentities env game file.lines = some ids

variable {env : Env} {game : GamePatchInfo}

/-! ### Listing -/

theorem Patch.readLine_keepsNames {line : CString} (h : KeepsNames line) {patch : Patch}
    (htitle : patch.title ≠ none) (hbin : patch.appBin ≠ none) :
    (patch.readLine line).title ≠ none ∧ (patch.readLine line).appBin ≠ none := by
  unfold readLine
  split
  · rename_i k hk
    cases k with
    | title => exact ⟨h (Or.inl hk), hbin⟩
    | appBin => exact ⟨htitle, h (Or.inr hk)⟩
    | name => exact ⟨htitle, hbin⟩
    | notes => exact ⟨htitle, hbin⟩
    | author => exact ⟨htitle, hbin⟩
    | version => exact ⟨htitle, hbin⟩
  · unfold setAppVer
    split <;> exact ⟨htitle, hbin⟩
  · exact ⟨htitle, hbin⟩

theorem foldl_readLine_keepsNames {lines : List CString} (h : ∀ line ∈ lines, KeepsNames line) :
    ∀ {patch : Patch}, patch.title ≠ none → patch.appBin ≠ none →
      (lines.foldl Patch.readLine patch).title ≠ none ∧
        (lines.foldl Patch.readLine patch).appBin ≠ none := by
  induction lines with
  | nil => exact fun htitle hbin => ⟨htitle, hbin⟩
  | cons line lines ih =>
      intro patch htitle hbin
      obtain ⟨htitle', hbin'⟩ := Patch.readLine_keepsNames (h line (by simp)) htitle hbin
      exact ih (fun l hl => h l (List.mem_cons_of_mem line hl)) htitle' hbin'

theorem ListedBlock.ownPatch_inner (b : ListedBlock) :
    ownPatch true b.inner = b.body.foldl Patch.readLine (ownPatch true b.header) := by
  rw [BlockText.inner, ownPatch, List.foldl_append, List.foldl_cons,
    Patch.readLine_of_opensEntries b.opensEntries]
  rfl

theorem Env.strDup_of_strdupNull (hdup : env.strdupNull = true) (str : Option CString) :
    env.strDup str = some str := by
  simp [Env.strDup, hdup]

theorem ListedBlock.completes (b : ListedBlock) (hprx : env.prx = false)
    (hdup : env.strdupNull = true) (i : ℕ) : Completes env .metadata game i b.inner := by
  obtain ⟨htitle, hbin⟩ := foldl_readLine_keepsNames b.keepsNames b.title b.appBin
  rw [← b.ownPatch_inner] at htitle hbin
  refine ⟨?_, htitle, ?_⟩
  · intro line hline
    rcases List.mem_append.mp hline with hheader | hrest
    · exact (b.plain_header line hheader).1
    · rcases List.mem_cons.mp hrest with rfl | hbody
      · intro hopens
        cases hopens.symm.trans b.opensEntries
      · exact b.inside_body line hbody
  · intro v _
    exact metadataDefined_of_host hprx hbin fun str _ => Env.strDup_of_strdupNull hdup str

theorem matching_flatMap {α : Type} (f : α → List PatchMetadata) (xs : List α) :
    matching (xs.flatMap f) = xs.flatMap fun x => matching (f x) := by
  simp [matching, List.filter_flatMap, List.map_flatMap]

/-- The listing is the identities of the blocks at their ends. -/
theorem ListedFile.listed_eq (file : ListedFile) (game : GamePatchInfo) (title : Option CString)
    (hprx : env.prx = false) (hdup : env.strdupNull = true) (halloc : ∀ n, env.alloc n = true) :
    listedIdentities env game title file.lines =
      some (file.blocks.zipIdx.flatMap fun p =>
        identities env game (env.sizeT p.2) (ownPatch true p.1.inner)) := by
  obtain ⟨last, hlast, -, hmetadata⟩ := file_stored .metadata game title hprx halloc
    (by simp) file.preamble file.filler_preamble (file.blocks.map fun b => (b.opening, b.inner))
    (by simpa using fun b _ => b.opens)
    (by
      intro p hp
      rw [List.zipIdx_map] at hp
      obtain ⟨q, -, rfl⟩ := List.mem_map.mp hp
      exact q.1.completes hprx hdup q.2) ()
  rw [listedIdentities, lines, hlast, Option.map_some, hmetadata, matching_flatMap,
    List.zipIdx_map, List.flatMap_map]
  rfl

/-! ### Announcing -/

/-- What the run of a file never changes. -/
structure Noting (game : GamePatchInfo) (ctx : ParseContext (List Identity)) : Prop where
  mode : ctx.mode = .lowMem
  gameInfo : ctx.gameInfo = game
  metaCallback : ctx.metaCallback = some noteIdentity
  entryCallback : ctx.entryCallback = some fun _ _ noted => noted

theorem noteIdentity_fold (metas : List PatchMetadata) (noted : List Identity) :
    metas.foldl (fun noted metadata => noteIdentity metadata noted) noted =
      noted ++ metas.map (·.identity) := by
  induction metas generalizing noted with
  | nil => simp
  | cons metadata metas ih =>
      rw [List.foldl_cons, ih, noteIdentity]
      simp

theorem applyEntries_ignored (ctx : ParseContext (List Identity)) (entries : List PatchEntry) :
    ctx.applyEntries (fun _ _ noted => noted) entries = ctx.userData := by
  unfold ParseContext.applyEntries
  split
  · induction entries with
    | nil => rfl
    | cons entry entries ih => exact ih
  · rfl

/-- A line inside a block announces what `announcedIn` says. -/
theorem Noting.line (hprx : env.prx = false) (hdup : env.strdupNull = true) {i : ℕ}
    {ctx : ParseContext (List Identity)} (hctx : Noting game ctx)
    (hnumber : ctx.currentPatchNumber = env.sizeT i) {line : CString} (hopens : ¬ OpensBlock line)
    (hbin : OpensEntries line → ctx.currentPatch.appBin ≠ none) :
    ∃ ctx', processLine env ctx line = some ctx' ∧ Noting game ctx' ∧
      ctx'.currentPatchNumber = env.sizeT i ∧
      ctx'.currentPatch = ctx.currentPatch.readLine line ∧
      ctx'.userData = ctx.userData ++
        (if OpensEntries line then identities env game (env.sizeT i) ctx.currentPatch else []) := by
  by_cases hentries : OpensEntries line
  · have hdefined : ctx.VersionsDefined env := fun v _ =>
      metadataDefined_of_host hprx (hbin hentries) fun str _ => Env.strDup_of_strdupNull hdup str
    refine ⟨_, (processLine_patches_lowMem (hentries.lineKind_eq _) hctx.mode
      hctx.metaCallback).mpr ⟨hdefined, rfl⟩, ?_⟩
    rw [ParseContext.announceAll_eq, noteIdentity_fold, if_pos hentries,
      Patch.readLine_of_opensEntries hentries]
    refine ⟨⟨hctx.mode, hctx.gameInfo, hctx.metaCallback, hctx.entryCallback⟩, hnumber, rfl, ?_⟩
    rw [identities, ← hnumber, ← hctx.gameInfo]
    rfl
  · obtain ⟨titleids, hline⟩ := processLine_plain env ctx hctx.mode hctx.entryCallback hopens
      hentries
    refine ⟨_, hline, ⟨hctx.mode, hctx.gameInfo, hctx.metaCallback, hctx.entryCallback⟩, hnumber,
      rfl, ?_⟩
    rw [if_neg hentries, List.append_nil]
    exact applyEntries_ignored ctx _

/-- Lines inside a block that has its binary. -/
theorem Noting.lines (hprx : env.prx = false) (hdup : env.strdupNull = true) {i : ℕ}
    (lines : List CString) (hinside : ∀ line ∈ lines, ¬ OpensBlock line)
    (hkeeps : ∀ line ∈ lines, KeepsNames line) :
    ∀ ctx : ParseContext (List Identity), Noting game ctx →
      ctx.currentPatchNumber = env.sizeT i → ctx.currentPatch.title ≠ none →
      ctx.currentPatch.appBin ≠ none →
      ∃ ctx', runLines env ctx lines = some ctx' ∧ Noting game ctx' ∧
        ctx'.currentPatchNumber = env.sizeT i ∧
        ctx'.currentPatch = lines.foldl Patch.readLine ctx.currentPatch ∧
        ctx'.userData =
          ctx.userData ++ announcedIn env game (env.sizeT i) ctx.currentPatch lines := by
  induction lines with
  | nil =>
      intro ctx hctx hnumber _ _
      exact ⟨ctx, rfl, hctx, hnumber, rfl, by simp [announcedIn]⟩
  | cons line lines ih =>
      intro ctx hctx hnumber htitle hbin
      obtain ⟨mid, hline, hmid, hnumber', hpatch, hdata⟩ :=
        hctx.line hprx hdup hnumber (hinside line (by simp)) fun _ => hbin
      obtain ⟨htitle', hbin'⟩ := Patch.readLine_keepsNames (hkeeps line (by simp)) htitle hbin
      rw [← hpatch] at htitle' hbin'
      obtain ⟨ctx', hrun, hctx', hnumber'', hpatch', hdata'⟩ :=
        ih (fun l hl => hinside l (List.mem_cons_of_mem line hl))
          (fun l hl => hkeeps l (List.mem_cons_of_mem line hl)) mid hmid hnumber' htitle' hbin'
      refine ⟨ctx', ?_, hctx', hnumber'', ?_, ?_⟩
      · rw [runLines_cons, hline, Option.bind_some, hrun]
      · rw [hpatch', hpatch, List.foldl_cons]
      · rw [hdata', hdata, hpatch, announcedIn, List.append_assoc]

/-- The context where the `i`-th block starts. -/
structure NotingStart (env : Env) (game : GamePatchInfo) (i : ℕ)
    (ctx : ParseContext (List Identity)) : Prop where
  noting : Noting game ctx
  number : ctx.currentPatchNumber = env.sizeT i
  patch : ctx.currentPatch = Patch.blank true

/-- The identities announced for the `i`-th block. -/
def ListedBlock.announced (env : Env) (game : GamePatchInfo) (i : ℕ) (b : ListedBlock) :
    List Identity :=
  announcedIn env game (env.sizeT i) (ownPatch true b.header) (b.patches :: b.body)

theorem NotingStart.block (hprx : env.prx = false) (hdup : env.strdupNull = true)
    (halloc : ∀ n, env.alloc n = true) {i : ℕ} {ctx : ParseContext (List Identity)}
    (hctx : NotingStart env game i ctx) (b : ListedBlock) :
    ∃ mid last, runLines env ctx b.inner = some mid ∧ handlePatchComplete env mid = some last ∧
      NotingStart env game (i + 1) last ∧
      last.userData = ctx.userData ++ b.announced env game i := by
  rcases hctx with ⟨hnoting, hnumber, hpatch⟩
  obtain ⟨titleids, hheader⟩ := runLines_plain env b.header b.plain_header ctx hnoting.mode
    hnoting.entryCallback
  rw [applyEntries_ignored, hpatch] at hheader
  have hinside : ∀ line ∈ b.patches :: b.body, ¬ OpensBlock line := by
    rw [List.forall_mem_cons]
    refine ⟨?_, b.inside_body⟩
    intro hopens
    cases hopens.symm.trans b.opensEntries
  have hkeeps : ∀ line ∈ b.patches :: b.body, KeepsNames line := by
    rw [List.forall_mem_cons]
    refine ⟨?_, b.keepsNames⟩
    rintro (hkey | hkey) <;> cases hkey.symm.trans b.opensEntries
  obtain ⟨mid, hrun, hmid, hnumber', hpatch', hdata⟩ := Noting.lines hprx hdup
    (b.patches :: b.body) hinside hkeeps
    { ctx with globalTitleids := titleids, currentPatch := ownPatch true b.header }
    ⟨hnoting.mode, hnoting.gameInfo, hnoting.metaCallback, hnoting.entryCallback⟩ hnumber
    b.title b.appBin
  have htitle : mid.currentPatch.title ≠ none := by
    rw [hpatch']
    exact (foldl_readLine_keepsNames hkeeps b.title b.appBin).1
  refine ⟨mid, mid.nextBlock env, ?_, handlePatchComplete_lowMem hmid.mode htitle,
    ⟨⟨hmid.mode, hmid.gameInfo, hmid.metaCallback, hmid.entryCallback⟩, ?_, ?_⟩, hdata⟩
  · rw [BlockText.inner, runLines_append, hheader, Option.bind_some]
    exact hrun
  · rw [ParseContext.nextBlock, hnumber', Env.sizeT_succ]
  · rw [ParseContext.nextBlock, halloc]

theorem blocks_announced (hprx : env.prx = false) (hdup : env.strdupNull = true)
    (halloc : ∀ n, env.alloc n = true) (blocks : List ListedBlock) :
    ∀ (i : ℕ) (ctx : ParseContext (List Identity)) {start : ParseContext (List Identity)},
      handlePatchComplete env ctx = some start → NotingStart env game i start →
      ∃ last, parseLines env ctx (linesOf (blocks.map fun b => (b.opening, b.inner))) =
        some last ∧ last.userData = start.userData ++
          (blocks.zipIdx i).flatMap fun p => p.1.announced env game p.2 := by
  induction blocks with
  | nil =>
      intro i ctx start hstart _
      exact ⟨start, hstart, by simp⟩
  | cons b blocks ih =>
      intro i ctx start hstart hready
      rcases hready.block hprx hdup halloc b with ⟨mid, next, hinner, hnext, hready', hdata⟩
      rcases ih (i + 1) mid hnext hready' with ⟨last, hlast, hdata'⟩
      refine ⟨last, ?_, ?_⟩
      · have hlines : linesOf ((b :: blocks).map fun b => (b.opening, b.inner)) =
            b.opening :: (b.inner ++ linesOf (blocks.map fun b => (b.opening, b.inner))) := rfl
        rw [parseLines, hlines, runLines_cons, processLine_patch (b.opens.lineKind_eq _), hstart,
          Option.bind_some, runLines_append, hinner, Option.bind_some]
        exact hlast
      · rw [hdata', hdata, List.zipIdx_cons, List.flatMap_cons, List.append_assoc]

/-- The announcements are the identities of the blocks at their `patches:` lines. -/
theorem ListedFile.announced_eq (file : ListedFile) (game : GamePatchInfo) (hprx : env.prx = false)
    (hdup : env.strdupNull = true) (halloc : ∀ n, env.alloc n = true) :
    announcedIdentities env game file.lines =
      some (file.blocks.zipIdx.flatMap fun p => p.1.announced env game p.2) := by
  obtain ⟨titleids, hrun⟩ := runLines_plain env file.preamble
    (fun line hline => (file.filler_preamble line hline).plain) (notingContext game) rfl rfl
  rw [applyEntries_ignored, foldl_readLine_of_filler file.filler_preamble] at hrun
  have hstart : NotingStart env game 0 { notingContext game with globalTitleids := titleids } :=
    ⟨⟨rfl, rfl, rfl, rfl⟩, by simp [notingContext, createParseContext, Env.sizeT], rfl⟩
  obtain ⟨last, hlast, hdata⟩ := blocks_announced hprx hdup halloc file.blocks 0 _
    (handlePatchComplete_untitled rfl) hstart
  rw [announcedIdentities, lines, parseLines, runLines_append, hrun, Option.bind_some]
  refine (congrArg (Option.map (·.userData)) hlast).trans ?_
  rw [Option.map_some, hdata]
  rfl

/-! ## Patch numbers -/

theorem length_itemLoop_le (fuel n : ℕ) (pos : CString) : (itemLoop fuel n pos).length ≤ n := by
  induction fuel generalizing n pos with
  | zero => simp [itemLoop]
  | succ fuel ih =>
      cases n with
      | zero => simp [itemLoop]
      | succ n =>
          rw [itemLoop]
          cases pos.dropWhile isspace with
          | nil => simp
          | cons c rest =>
              dsimp only
              cases (readItem (c :: rest)).1 with
              | none => exact ih (n + 1) _
              | some str => simpa using ih n _

theorem length_parseItems_le (n : ℕ) (str : CString) : (parseItems n str).length ≤ n := by
  unfold parseItems
  split
  · simp
  · split
    · simp
    · exact length_itemLoop_le _ _ _

theorem Patch.length_readLine_appVers {patch : Patch} (h : patch.appVers.length ≤ maxArrayLength)
    (line : CString) : (patch.readLine line).appVers.length ≤ maxArrayLength := by
  unfold readLine
  split
  · rw [appVers, setKey_appVer]
    exact h
  · unfold setAppVer
    cases happ : patch.appVer with
    | none => split <;> simp [appVers]
    | some vs =>
        split
        · simpa [appVers, parseStringList] using length_parseItems_le maxArrayLength _
        · cases parseQuotedString (trim line) <;> simp [appVers, maxArrayLength]
  · exact h

/-- The version table has at most `MAX_APP_VERS` places. -/
theorem length_ownPatch_appVers (allocated : Bool) (lines : List CString) :
    (ownPatch allocated lines).appVers.length ≤ maxArrayLength := by
  induction lines using List.reverseRecOn with
  | nil => cases allocated <;> simp [ownPatch, Patch.blank, Patch.appVers]
  | append_singleton lines line ih =>
      rw [ownPatch_append_singleton]
      exact Patch.length_readLine_appVers ih line

theorem Patch.index_lt_of_mem_versions {patch : Patch} (h : patch.appVers.length ≤ maxArrayLength)
    {v : Option CString × ℕ} (hv : v ∈ patch.versions) : v.2 < 100 := by
  unfold versions at hv
  cases happ : patch.appVers with
  | nil =>
      rw [happ] at hv
      rw [List.mem_singleton.mp hv]
      simp
  | cons u us =>
      rw [happ] at hv h
      have hlt := List.snd_lt_add_of_mem_zipIdx hv
      rw [List.length_map] at hlt
      simp only [maxArrayLength] at h
      omega

/-- A patch number tells the block it belongs to. -/
theorem mem_identities_block {i n : ℕ} (hi : i < n) (hsize : n * 100 ≤ 2 ^ env.sizeBits)
    {patch : Patch} (hpatch : patch.appVers.length ≤ maxArrayLength) {id : Identity}
    (hid : id ∈ identities env game (env.sizeT i) patch) : id.patchNumber / 100 = i := by
  obtain ⟨metadata, hmem, rfl⟩ := List.mem_map.mp hid
  obtain ⟨v, hv, rfl⟩ := List.mem_map.mp (List.mem_of_mem_filter hmem)
  have hlt := Patch.index_lt_of_mem_versions hpatch hv
  have hsizeT : env.sizeT i = i := Nat.mod_eq_of_lt (by omega)
  have hnumber : env.sizeT (i * 100 + v.2) = i * 100 + v.2 := Nat.mod_eq_of_lt (by omega)
  rw [hsizeT]
  simp only [PatchMetadata.identity, versionMetadata, hnumber]
  omega

theorem mem_announcedIn_block {i n : ℕ} (hi : i < n) (hsize : n * 100 ≤ 2 ^ env.sizeBits)
    (lines : List CString) {id : Identity} :
    ∀ {patch : Patch}, patch.appVers.length ≤ maxArrayLength →
      id ∈ announcedIn env game (env.sizeT i) patch lines → id.patchNumber / 100 = i := by
  induction lines with
  | nil =>
      intro patch _ hid
      cases hid
  | cons line lines ih =>
      intro patch hpatch hid
      rw [announcedIn] at hid
      rcases List.mem_append.mp hid with hline | hrest
      · split at hline
        · exact mem_identities_block hi hsize hpatch hline
        · cases hline
      · exact ih (Patch.length_readLine_appVers hpatch line) hrest

/-! ## Identities and lines -/

/-- The identity of the version at position `j`, from the lines of the block. -/
def identityAt (env : Env) (game : GamePatchInfo) (number : ℕ) (block : List CString) (j : ℕ) :
    Identity where
  patchNumber := env.sizeT (number * 100 + j)
  hash := (hashedTexts block ++ [game.appVer]).foldl (fun hash str => env.stringid str hash)
    (hashBase env game (env.sizeT (number * 100 + j)))
  appVer := some game.appVer

theorem calculatePatchHash_ownPatch (env : Env) (game : GamePatchInfo) (number : ℕ)
    (block : List CString) :
    calculatePatchHash env number game.titleid (ownPatch true block) (some game.appVer) =
      (hashedTexts block ++ [game.appVer]).foldl (fun hash str => env.stringid str hash)
        (hashBase env game number) := by
  simp only [hashedTexts, ← value_ownPatch]
  rfl

theorem identities_ownPatch (env : Env) (game : GamePatchInfo) (number : ℕ)
    (block : List CString) :
    identities env game number (ownPatch true block) =
      (positions game block).map (identityAt env game number block) := by
  have hversion (v : CString × ℕ) :
      (versionMetadata env game number (ownPatch true block) (some v.1, v.2)).matchesGame =
        decide (game.appVer ≠ [] ∧ game.appVer = v.1) := by
    simp only [versionMetadata, patchMatchesGame]
    by_cases hempty : game.appVer = [] <;> simp [hempty]
  have hidentity (v : CString × ℕ) (hv : game.appVer = v.1) :
      (versionMetadata env game number (ownPatch true block) (some v.1, v.2)).identity =
        identityAt env game number block v.2 := by
    rw [PatchMetadata.identity, identityAt, ← calculatePatchHash_ownPatch, hv]
    rfl
  rw [identities, matching, Patch.versions, appVers_ownPatch, positions]
  cases hversions : lastVersions block with
  | nil => rfl
  | cons u us =>
      dsimp only
      rw [List.zipIdx_map, List.map_map, List.filter_map, List.map_map, List.map_map]
      have hfilter : (fun v : CString × ℕ =>
          (versionMetadata env game number (ownPatch true block) (some v.1, v.2)).matchesGame) =
            fun v => decide (game.appVer ≠ [] ∧ game.appVer = v.1) := funext hversion
      refine (congrArg (List.map _) (congrArg (List.filter · _) hfilter)).trans ?_
      refine List.map_congr_left fun v hv => hidentity v ?_
      exact (of_decide_eq_true (List.mem_filter.mp hv).2).2

theorem announcedIn_ownPatch (env : Env) (game : GamePatchInfo) (number : ℕ)
    (lines : List CString) : ∀ seen : List CString,
      announcedIn env game number (ownPatch true seen) lines =
        (aheadOf seen lines).flatMap fun block =>
          (positions game block).map (identityAt env game number block) := by
  induction lines with
  | nil => exact fun _ => rfl
  | cons line lines ih =>
      intro seen
      rw [announcedIn, aheadOf, List.flatMap_append, ← ownPatch_append_singleton, ih]
      split
      · rw [identities_ownPatch, List.flatMap_singleton]
      · rfl

/-- Identities at one position differ in the texts, unless these collide. -/
theorem identityAt_eq_iff {number j : ℕ} {block block' : List CString} :
    identityAt env game number block j = identityAt env game number block' j ↔
      hashedTexts block = hashedTexts block' ∨
        Collide env (hashBase env game (env.sizeT (number * 100 + j)))
          (hashedTexts block ++ [game.appVer]) (hashedTexts block' ++ [game.appVer]) := by
  rw [identityAt, identityAt, Identity.mk.injEq, Collide, Ne, List.append_left_inj]
  by_cases htexts : hashedTexts block = hashedTexts block' <;> simp [htexts]

theorem position_lt {block : List CString} {j : ℕ} (h : j ∈ positions game block) : j < 100 := by
  rcases List.mem_map.mp h with ⟨v, hv, rfl⟩
  have hlt := List.snd_lt_of_mem_zipIdx (List.mem_of_mem_filter hv)
  have hlength := length_ownPatch_appVers true block
  rw [appVers_ownPatch, maxArrayLength] at hlength
  omega

/-- What is announced for a block is what is listed for it when its lines agree. -/
theorem ListedBlock.LinesAgree.announced_eq {i : ℕ} {b : ListedBlock}
    (h : b.LinesAgree env game i) :
    b.announced env game i = identities env game (env.sizeT i) (ownPatch true b.inner) := by
  rw [announced, announcedIn_ownPatch, identities_ownPatch, ← h.versions, List.map_flatMap]
  refine List.flatMap_congr fun lines hlines => List.map_congr_left fun j hj => ?_
  exact identityAt_eq_iff.mpr (h.texts lines hlines j hj)

/-- And only then, as long as the patch numbers do not wrap. -/
theorem ListedBlock.linesAgree_of_announced_eq {i n : ℕ} (hi : i < n)
    (hsize : n * 100 ≤ 2 ^ env.sizeBits) {b : ListedBlock}
    (h : b.announced env game i = identities env game (env.sizeT i) (ownPatch true b.inner)) :
    b.LinesAgree env game i := by
  have hkey (block : List CString) (j : ℕ) (hj : j ∈ positions game block) :
      (identityAt env game (env.sizeT i) block j).patchNumber - i * 100 = j := by
    have hlt := position_lt hj
    have hsizeT : env.sizeT i = i := Nat.mod_eq_of_lt (by omega)
    have hnumber : env.sizeT (i * 100 + j) = i * 100 + j := Nat.mod_eq_of_lt (by omega)
    simp only [identityAt, hsizeT, hnumber]
    omega
  rw [announced, announcedIn_ownPatch, identities_ownPatch] at h
  rcases (flatMap_map_eq_map_iff (fun id : Identity => id.patchNumber - i * 100)
    (fun lines _ => hkey lines) (hkey b.inner)).mp h with ⟨hversions, hvalues⟩
  exact ⟨hversions, fun lines hlines j hj => identityAt_eq_iff.mp (hvalues lines hlines j hj)⟩

/-! ## Both runs -/

theorem ListedFile.sameIdentities_of_linesAgree {title : Option CString} {file : ListedFile}
    (hprx : env.prx = false) (hdup : env.strdupNull = true) (halloc : ∀ n, env.alloc n = true)
    (h : ∀ p ∈ file.blocks.zipIdx, p.1.LinesAgree env game p.2) :
    file.SameIdentities env game title := by
  refine ⟨_, file.listed_eq game title hprx hdup halloc, ?_⟩
  rw [file.announced_eq game hprx hdup halloc]
  congr 1
  exact List.flatMap_congr fun p hp => (h p hp).announced_eq

/-- What is announced is what is listed when the lines of each block agree; and only then,
as long as the patch numbers do not wrap. -/
theorem ListedFile.sameIdentities_iff (env : Env) (game : GamePatchInfo)
    (title : Option CString) (file : ListedFile) (hprx : env.prx = false)
    (hdup : env.strdupNull = true) (halloc : ∀ n, env.alloc n = true) :
    ((∀ p ∈ file.blocks.zipIdx, p.1.LinesAgree env game p.2) →
      file.SameIdentities env game title) ∧
    (file.blocks.length * 100 ≤ 2 ^ env.sizeBits → file.SameIdentities env game title →
      ∀ p ∈ file.blocks.zipIdx, p.1.LinesAgree env game p.2) := by
  have hlisted := file.listed_eq game title hprx hdup halloc
  have hannounced := file.announced_eq game hprx hdup halloc
  constructor
  · exact ListedFile.sameIdentities_of_linesAgree hprx hdup halloc
  · rintro hsize ⟨ids, hids, hids'⟩ p hp
    have hsame := Option.some.inj ((hannounced.symm.trans hids').trans (hids.symm.trans hlisted))
    have hlt {q : ListedBlock × ℕ} (hq : q ∈ file.blocks.zipIdx) : q.2 < file.blocks.length :=
      (List.getElem?_eq_some_iff.mp (List.mem_zipIdx_iff_getElem?.mp hq)).1
    refine ListedBlock.linesAgree_of_announced_eq (hlt hp) hsize ?_
    revert p
    apply flatMap_zipIdx_inj (fun id : Identity => id.patchNumber / 100) file.blocks _ _ hsame
    · intro p hp id hid
      exact mem_announcedIn_block (hlt hp) hsize _ (length_ownPatch_appVers true _) hid
    · intro p hp id hid
      exact mem_identities_block (hlt hp) hsize (length_ownPatch_appVers true _) hid

/-! ## Nothing hashed behind the `patches:` line -/

/-- A line that gives none of the texts hashed, no versions and no `patches:`. -/
structure Settled (line : CString) : Prop where
  key : ∀ k, k ≠ .notes → lineKind false line ≠ .key k
  appVer : lineKind false line ≠ .appVer
  patches : ¬ OpensEntries line

theorem lastLine_append {kind : LineKind} {lines : List CString}
    (h : ∀ line ∈ lines, lineKind false line ≠ kind) (block : List CString) :
    lastLine kind (block ++ lines) = lastLine kind block := by
  have hnone : (lines.filter fun line => decide (lineKind false line = kind)) = [] :=
    List.filter_eq_nil_iff.mpr fun line hline => by simpa using h line hline
  rw [lastLine, List.filter_append, hnone, List.append_nil, lastLine]

theorem aheadOf_eq_nil {lines : List CString} (h : ∀ line ∈ lines, ¬ OpensEntries line) :
    ∀ seen, aheadOf seen lines = [] := by
  induction lines with
  | nil => exact fun _ => rfl
  | cons line lines ih =>
      intro seen
      rw [List.forall_mem_cons] at h
      rw [aheadOf, if_neg h.1, ih h.2, List.nil_append]

theorem ListedBlock.linesAgree_of_settled (env : Env) (game : GamePatchInfo) (i : ℕ)
    {b : ListedBlock} (h : ∀ line ∈ b.body, Settled line) : b.LinesAgree env game i := by
  have hpatches : lineKind false b.patches = .patches := b.opensEntries
  have hahead : b.ahead = [b.header] := by
    rw [ahead, aheadOf, if_pos b.opensEntries,
      aheadOf_eq_nil fun line hline => (h line hline).patches]
    rfl
  have hversions : lastVersions b.inner = lastVersions b.header := by
    rw [lastVersions, BlockText.inner, lastLine_append, lastVersions]
    rw [List.forall_mem_cons, hpatches]
    exact ⟨by simp, fun line hline => (h line hline).appVer⟩
  have hvalue (k : Key) (hk : k ≠ .notes) : lastValue k b.inner = lastValue k b.header := by
    rw [lastValue, BlockText.inner, lastLine_append, lastValue]
    rw [List.forall_mem_cons, hpatches]
    exact ⟨by simp, fun line hline => (h line hline).key k hk⟩
  have htexts : hashedTexts b.header = hashedTexts b.inner := by
    refine List.map_congr_left fun k hk => ?_
    rw [hvalue k (by rintro rfl; simp at hk)]
  refine ⟨?_, fun lines hlines _ _ => .inl ?_⟩
  · rw [hahead, List.flatMap_singleton, positions, positions, hversions]
  · rw [hahead, List.mem_singleton] at hlines
    rw [hlines, htexts]

/-- In a file whose blocks have their keys and versions ahead of their only `patches:` line
both modes give the same identities. -/
theorem ListedFile.sameIdentities_of_settled {title : Option CString} {file : ListedFile}
    (hprx : env.prx = false) (hdup : env.strdupNull = true) (halloc : ∀ n, env.alloc n = true)
    (h : ∀ b ∈ file.blocks, ∀ line ∈ b.body, Settled line) :
    file.SameIdentities env game title := by
  refine sameIdentities_of_linesAgree hprx hdup halloc fun p hp => ?_
  exact ListedBlock.linesAgree_of_settled env game p.2 (h p.1 (List.fst_mem_of_mem_zipIdx hp))

/-! ## A name behind the `patches:` line -/

/-- A block for the running version with these lines behind its `patches:` line. -/
def listedBlock (body : List CString) (h : ∀ line ∈ body, ¬ OpensBlock line ∧ KeepsNames line) :
    ListedBlock where
  opening := oneVersion.opening
  header := oneVersion.header
  patches := oneVersion.patches
  body := body
  opens := oneVersion.opens
  plain_header := oneVersion.plain_header
  opensEntries := oneVersion.opensEntries
  inside_body := fun line hline => (h line hline).1
  keepsNames := fun line hline => (h line hline).2
  title := oneVersion.title
  appBin := oneVersion.appBin
  appVers := oneVersion.appVers

/-- Two blocks for the running version, the second one with its notes behind the entries. -/
def entriesOnlyFile : ListedFile where
  preamble := []
  blocks := [listedBlock [entryLine] (by decide +kernel),
    listedBlock [entryLine, "  notes: \"x\"".toList] (by decide +kernel)]
  filler_preamble := List.forall_mem_nil Filler

theorem ListedFile.sameIdentities_iff_entriesOnly :
    entriesOnlyFile.SameIdentities (hostWith []) runningGame none ∧
      ∀ p ∈ entriesOnlyFile.blocks.zipIdx, p.1.LinesAgree (hostWith []) runningGame p.2 := by
  obtain ⟨hsame, hagree⟩ :=
    entriesOnlyFile.sameIdentities_iff (hostWith []) runningGame none rfl rfl fun _ => rfl
  have hboth := hsame (by decide +kernel)
  exact ⟨hboth, hagree (by decide) hboth⟩

def lateNameFile : ListedFile where
  preamble := []
  blocks := [listedBlock ["  name: \"x\"".toList] (by decide +kernel)]
  filler_preamble := List.forall_mem_nil Filler

/-- The name is in the hash that is listed, not in the one that is announced. -/
theorem ListedFile.not_sameIdentities :
    ¬ lateNameFile.SameIdentities (hostWith []) runningGame none := by
  rintro ⟨ids, hlisted, hannounced⟩
  have hne : listedIdentities (hostWith []) runningGame none lateNameFile.lines ≠
      announcedIdentities (hostWith []) runningGame lateNameFile.lines := by decide +kernel
  exact hne (hlisted.trans hannounced.symm)

end GamePatch
