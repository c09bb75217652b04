import GamePatch.Shared.Runs
import GamePatch.Verification.Parser.LowMem

/-! # Missing strings

The strings that the parser hands to `strstr`, `strcmp` and the host's `strdup` are
those of the block being read, and they are there as far as the lines of the block say
so. -/

namespace GamePatch

open Runs

/-! ## The fields of a block, from its lines -/

def Patch.value (patch : Patch) : Key → Option CString
  | .title => patch.title
  | .name => patch.name
  | .notes => patch.notes
  | .author => patch.author
  | .version => patch.version
  | .appBin => patch.appBin

/-- The last line of a kind. -/
def lastLine (kind : LineKind) (block : List CString) : Option CString :=
  (block.filter fun line => decide (lineKind false line = kind)).getLast?

/-- What the last line with the key has in quotes. -/
def lastValue (k : Key) (block : List CString) : Option CString :=
  (lastLine (.key k) block).bind fun line => parseQuotedString (trim line)

def lineVersions (line : CString) : List CString :=
  if isListValue (trim line) then parseStringList (trim line) maxArrayLength
  else (parseQuotedString (trim line)).toList

def lastVersions (block : List CString) : List CString :=
  ((lastLine .appVer block).map lineVersions).getD []

theorem lastLine_append_singleton (kind : LineKind) (block : List CString) (line : CString) :
    lastLine kind (block ++ [line]) =
      if lineKind false line = kind then some line else lastLine kind block := by
  rw [lastLine, List.filter_append]
  by_cases hkind : lineKind false line = kind
  · rw [if_pos hkind, List.filter_cons_of_pos (by simpa using hkind), List.filter_nil,
      List.getLast?_concat]
  · rw [if_neg hkind, List.filter_cons_of_neg (by simpa using hkind), List.filter_nil,
      List.append_nil, lastLine]

theorem Patch.value_setKey (patch : Patch) (k k' : Key) (v : Option CString) :
    (patch.setKey k v).value k' = if k = k' then v else patch.value k' := by
  cases k <;> cases k' <;> rfl

theorem Patch.value_setAppVer (patch : Patch) (trimmed : CString) (k : Key) :
    (patch.setAppVer trimmed).value k = patch.value k := by
  rw [setAppVer]
  split <;> cases k <;> rfl

theorem value_ownPatch (k : Key) (block : List CString) :
    (ownPatch true block).value k = lastValue k block := by
  induction block using List.reverseRecOn with
  | nil => cases k <;> rfl
  | append_singleton block line ih =>
      rw [lastValue] at ih
      rw [ownPatch_append_singleton, Patch.readLine, lastValue, lastLine_append_singleton]
      cases hkind : lineKind false line with
      | key k' =>
          by_cases hk : k' = k
          · simp [Patch.value_setKey, hk]
          · simp [Patch.value_setKey, hk, ih]
      | appVer => simpa [Patch.value_setAppVer] using ih
      | ignored | titleid | patch | patches | entry | other => simpa using ih

theorem appVers_ownPatch (block : List CString) :
    (ownPatch true block).appVers = lastVersions block := by
  induction block using List.reverseRecOn with
  | nil => rfl
  | append_singleton block line ih =>
      have hstored := ownPatch_appVer_isSome true block
      rw [lastVersions] at ih
      rw [ownPatch_append_singleton, Patch.readLine, lastVersions, lastLine_append_singleton]
      cases hkind : lineKind false line with
      | appVer =>
          rcases Option.isSome_iff_exists.1 hstored with ⟨vs, hvs⟩
          rw [if_pos rfl, Option.map_some, Option.getD_some, lineVersions, Patch.appVers,
            Patch.setAppVer]
          by_cases hlist : isListValue (trim line) = true
          · rw [if_pos hlist, if_pos hlist, hvs]
            rfl
          · rw [if_neg hlist, if_neg hlist, hvs]
            rfl
      | key k => simpa [Patch.appVers, Patch.setKey_appVer] using ih
      | ignored | titleid | patch | patches | entry | other => simpa using ih

/-- The lines of the open block after the lines `seen` of a file. A `patch:` line
closes a block with a title. -/
def openBlock (seen : List CString) : List CString :=
  seen.foldl (fun block line =>
    if OpensBlock line then if lastValue .title block = none then block else []
    else block ++ [line]) []

/-! ## The block that a run has read -/

variable {σ : Type} {env : Env} {ctx ctx' : ParseContext σ} {line : CString}

/-- What a round of `handle_patch_complete` leaves alone. -/
structure SameBlock (ctx ctx' : ParseContext σ) : Prop where
  currentPatch : ctx'.currentPatch = ctx.currentPatch
  mode : ctx'.mode = ctx.mode
  gameInfo : ctx'.gameInfo = ctx.gameInfo
  title : ctx'.title = ctx.title

theorem SameBlock.refl (ctx : ParseContext σ) : SameBlock ctx ctx := ⟨rfl, rfl, rfl, rfl⟩

theorem SameBlock.trans {ctx'' : ParseContext σ} (h : SameBlock ctx ctx')
    (h' : SameBlock ctx' ctx'') : SameBlock ctx ctx'' :=
  ⟨h'.currentPatch.trans h.currentPatch, h'.mode.trans h.mode, h'.gameInfo.trans h.gameInfo,
    h'.title.trans h.title⟩

theorem completeAll_next (halloc : ∀ n, env.alloc n = true) {v : CString} {i : ℕ} {flow : Flow σ}
    (h : completeAll env ctx v i = some flow) : ∃ ctx', flow = .next ctx' ∧ SameBlock ctx ctx' := by
  rcases Option.bind_eq_some_iff.1 h with ⟨metadata, -, h⟩
  split at h
  · cases h
    exact ⟨ctx, rfl, .refl ctx⟩
  · rw [if_neg (by simp [halloc])] at h
    rcases Option.bind_eq_some_iff.1 h with ⟨allPatches, -, h⟩
    rw [if_neg (by simp [halloc])] at h
    cases h
    refine ⟨_, rfl, ?_⟩
    split <;> exact ⟨rfl, rfl, rfl, rfl⟩

theorem completeMetadata_next (halloc : ∀ n, env.alloc n = true) {v : Option CString} {i : ℕ}
    {flow : Flow σ} (h : completeMetadata env ctx v i = some flow) :
    ∃ ctx', flow = .next ctx' ∧ SameBlock ctx ctx' := by
  rw [completeMetadata, if_neg (by simp [halloc])] at h
  rcases Option.bind_eq_some_iff.1 h with ⟨metadata, -, h⟩
  rcases Option.bind_eq_some_iff.1 h with ⟨metadataArray, -, h⟩
  cases h
  refine ⟨_, rfl, ?_⟩
  split <;> exact ⟨rfl, rfl, rfl, rfl⟩

theorem completeVersion_next (halloc : ∀ n, env.alloc n = true) {v : Option CString} {i : ℕ}
    {flow : Flow σ} (h : completeVersion env ctx v i = some flow) :
    ∃ ctx', flow = .next ctx' ∧ SameBlock ctx ctx' := by
  have hkeep : some (Flow.next ctx) = some flow →
      ∃ ctx', flow = .next ctx' ∧ SameBlock ctx ctx' := by
    intro h
    cases h
    exact ⟨ctx, rfl, .refl ctx⟩
  unfold completeVersion at h
  by_cases hprx : env.prx = true
  · rw [if_pos hprx] at h
    exact hkeep h
  · rw [if_neg hprx] at h
    cases hmode : ctx.mode with
    | all =>
        cases v with
        | none => simp [hmode] at h
        | some v =>
            simp only [hmode] at h
            split at h
            · exact completeAll_next halloc h
            · exact hkeep h
    | metadata =>
        rw [hmode] at h
        exact completeMetadata_next halloc h
    | lowMem =>
        rw [hmode] at h
        exact hkeep h

theorem completeVersions_next (halloc : ∀ n, env.alloc n = true) {vs : List (Option CString × ℕ)}
    {flow : Flow σ} (h : completeVersions env vs ctx = some flow) :
    ∃ ctx', flow = .next ctx' ∧ SameBlock ctx ctx' := by
  induction vs generalizing ctx with
  | nil =>
      cases h
      exact ⟨ctx, rfl, .refl ctx⟩
  | cons v vs ih =>
      rcases Option.bind_eq_some_iff.1 h with ⟨first, hfirst, hrest⟩
      rcases completeVersion_next halloc hfirst with ⟨mid, rfl, hmid⟩
      rcases ih hrest with ⟨ctx', rfl, hsame⟩
      exact ⟨ctx', rfl, hmid.trans hsame⟩

/-- A completed block makes room for a blank one. -/
theorem handlePatchComplete_blank (halloc : ∀ n, env.alloc n = true)
    (htitle : ctx.currentPatch.title ≠ none) (h : handlePatchComplete env ctx = some ctx') :
    ctx'.currentPatch = Patch.blank true ∧ ctx'.mode = ctx.mode ∧
      ctx'.gameInfo = ctx.gameInfo ∧ ctx'.title = ctx.title := by
  rw [handlePatchComplete, if_neg htitle] at h
  rcases Option.bind_eq_some_iff.1 h with ⟨flow, hflow, h⟩
  rcases completeVersions_next halloc hflow with ⟨mid, rfl, hsame⟩
  cases h
  refine ⟨?_, hsame.mode, hsame.gameInfo, hsame.title⟩
  simp only [resetCurrentPatch, halloc]

/-- The fields of the block are those that its lines give. -/
structure ReadsBlock (start : ParseContext σ) (seen : List CString) (ctx : ParseContext σ) :
    Prop where
  currentPatch : ctx.currentPatch = ownPatch true (openBlock seen)
  mode : ctx.mode = start.mode
  gameInfo : ctx.gameInfo = start.gameInfo
  title : ctx.title = start.title

theorem ReadsBlock.title_eq {start : ParseContext σ} {seen : List CString}
    (h : ReadsBlock start seen ctx) :
    ctx.currentPatch.title = lastValue .title (openBlock seen) := by
  rw [h.currentPatch]
  exact value_ownPatch .title (openBlock seen)

theorem openBlock_append_singleton (seen : List CString) (line : CString) :
    openBlock (seen ++ [line]) =
      if OpensBlock line then
        if lastValue .title (openBlock seen) = none then openBlock seen else []
      else openBlock seen ++ [line] := by
  rw [openBlock, List.foldl_append, List.foldl_cons, List.foldl_nil, ← openBlock]

theorem ReadsBlock.step (halloc : ∀ n, env.alloc n = true) {start : ParseContext σ}
    {seen : List CString} (h : ReadsBlock start seen ctx)
    (hstep : processLine env ctx line = some ctx') : ReadsBlock start (seen ++ [line]) ctx' := by
  have htitle := h.title_eq
  by_cases hopens : OpensBlock line
  · rw [processLine_patch (hopens.lineKind_eq _)] at hstep
    by_cases huntitled : ctx.currentPatch.title = none
    · rw [handlePatchComplete_untitled huntitled] at hstep
      cases hstep
      refine ⟨?_, h.mode, h.gameInfo, h.title⟩
      rw [openBlock_append_singleton, if_pos hopens, if_pos (htitle ▸ huntitled)]
      exact h.currentPatch
    · rcases handlePatchComplete_blank halloc huntitled hstep with ⟨hblank, hmode, hgame, hwanted⟩
      refine ⟨?_, hmode.trans h.mode, hgame.trans h.gameInfo, hwanted.trans h.title⟩
      rw [openBlock_append_singleton, if_pos hopens, if_neg (htitle ▸ huntitled)]
      exact hblank
  · have hinside := processLine_insideBlock hopens hstep
    refine ⟨?_, hinside.mode.trans h.mode, hinside.gameInfo.trans h.gameInfo,
      hinside.title.trans h.title⟩
    rw [hinside.currentPatch, h.currentPatch, openBlock_append_singleton, if_neg hopens,
      ownPatch_append_singleton]

theorem ReadsBlock.run (halloc : ∀ n, env.alloc n = true) {start : ParseContext σ}
    (hblank : start.currentPatch = Patch.blank true) {seen : List CString}
    (hrun : runLines env start seen = some ctx) : ReadsBlock start seen ctx :=
  invariant_of_run (P := fun _ _ => True) (ReadsBlock start)
    (fun _ _ _ _ h _ hstep => h.step halloc hstep) [] ⟨hblank, rfl, rfl, rfl⟩
    (everyStep_of_forall (fun _ _ => trivial) start) hrun

/-! ## The strings that are handed on -/

/-- The strings that `process_patch_metadata_for_app_ver` hands to the host's `strdup`
and to `strstr`. -/
def metadataStrings (env : Env) (patch : Patch) (appVer : Option CString) :
    List (Option CString) :=
  (if env.prx then []
    else [patch.title, patch.name, patch.author, patch.version, patch.appBin, appVer]) ++
    [patch.appBin]

/-- The strings that `handle_patch_complete` hands to `strcmp` or on to
`process_patch_metadata_for_app_ver`. The console build has neither call. -/
def completionStrings (env : Env) (ctx : ParseContext σ) : List (Option CString) :=
  if ctx.currentPatch.title = none ∨ env.prx = true then []
  else
    match ctx.mode with
    | .all =>
        ctx.currentPatch.versions.flatMap fun v =>
          v.1 ::
            if v.1 = some ctx.gameInfo.appVer then
              metadataStrings env ctx.currentPatch v.1 ++
                if ctx.title = none then [] else [ctx.title, ctx.currentPatch.title]
            else []
    | .metadata =>
        ctx.currentPatch.versions.flatMap fun v => metadataStrings env ctx.currentPatch v.1
    | .lowMem => []

/-- The strings that a line hands on. -/
def lineStrings (env : Env) (ctx : ParseContext σ) (line : CString) : List (Option CString) :=
  match lineKind ctx.inPatchesSection line with
  | .patch => completionStrings env ctx
  | .patches =>
      if ctx.mode = .lowMem then
        ctx.currentPatch.versions.flatMap fun v => metadataStrings env ctx.currentPatch v.1
      else []
  | _ => []

def Present (strs : List (Option CString)) : Prop := ∀ str ∈ strs, str ≠ none

instance (strs : List (Option CString)) : Decidable (Present strs) :=
  inferInstanceAs (Decidable (∀ str ∈ strs, str ≠ none))

theorem present_nil : Present [] := fun _ hstr => absurd hstr List.not_mem_nil

theorem present_append {a b : List (Option CString)} : Present (a ++ b) ↔ Present a ∧ Present b :=
  List.forall_mem_append

theorem present_cons {str : Option CString} {strs : List (Option CString)} :
    Present (str :: strs) ↔ str ≠ none ∧ Present strs :=
  List.forall_mem_cons

theorem present_flatMap {α : Type} {f : α → List (Option CString)} {l : List α} :
    Present (l.flatMap f) ↔ ∀ a ∈ l, Present (f a) := by
  unfold Present
  apply Iff.intro
  · intro h a ha str hstr
    exact h str (List.mem_flatMap.2 ⟨a, ha, hstr⟩)
  · intro h str hstr
    rcases List.mem_flatMap.1 hstr with ⟨a, ha, hmem⟩
    exact h a ha str hmem

/-- What one round of `handle_patch_complete` hands on in `PARSE_MODE_ALL`. -/
theorem present_round {patch : Patch} (htitle : patch.title ≠ none) {game : GamePatchInfo}
    {wanted v : Option CString} :
    Present (v ::
        if v = some game.appVer then
          metadataStrings env patch v ++ if wanted = none then [] else [wanted, patch.title]
        else []) ↔
      v ≠ none ∧ (v = some game.appVer → Present (metadataStrings env patch v)) := by
  have htitles : Present (if wanted = none then [] else [wanted, patch.title]) := by
    split
    · exact present_nil
    · next hwanted => exact present_cons.2 ⟨hwanted, present_cons.2 ⟨htitle, present_nil⟩⟩
  rw [present_cons]
  apply and_congr_right
  intro _
  by_cases hgame : v = some game.appVer
  · rw [if_pos hgame, present_append, forall_prop_of_true hgame]
    exact ⟨And.left, fun h => ⟨h, htitles⟩⟩
  · rw [if_neg hgame]
    exact iff_of_true present_nil fun h => absurd h hgame

/-! ## What a null pointer does

Where the host's `strdup` takes no null, the parser goes no further. -/

theorem processPatchMetadata_null (hdup : env.strdupNull = false) {game : GamePatchInfo}
    {number : ℕ} {patch : Patch} {v : Option CString × ℕ}
    (hnull : ¬ Present (metadataStrings env patch v.1)) :
    processPatchMetadata env game number patch v.1 v.2 = none := by
  apply processPatchMetadata_of_not_defined
  intro hdefined
  apply hnull
  rw [metadataStrings, present_append]
  apply And.intro
  · split
    · exact present_nil
    · next hprx =>
        intro str hstr hnone
        have hcopy := hdefined.copies str hstr
        rw [Env.strDup, if_pos ⟨hnone, by simpa using hprx, hdup⟩] at hcopy
        cases hcopy
  · exact present_cons.2 ⟨hdefined.appBin, present_nil⟩

/-- One round that fails is enough. -/
theorem completeVersions_null (halloc : ∀ n, env.alloc n = true) {vs : List (Option CString × ℕ)}
    {v : Option CString × ℕ} (hv : v ∈ vs)
    (hfails : ∀ ctx', SameBlock ctx ctx' → completeVersion env ctx' v.1 v.2 = none) :
    completeVersions env vs ctx = none := by
  induction vs generalizing ctx with
  | nil => cases hv
  | cons w vs ih =>
      rw [completeVersions]
      cases hround : completeVersion env ctx w.1 w.2 with
      | none => rfl
      | some flow =>
          rcases completeVersion_next halloc hround with ⟨mid, rfl, hsame⟩
          rcases List.mem_cons.1 hv with rfl | hv
          · rw [hfails ctx (.refl ctx)] at hround
            cases hround
          · exact ih hv fun ctx' hctx' => hfails ctx' (hsame.trans hctx')

theorem completeMetadata_null (halloc : ∀ n, env.alloc n = true) (hdup : env.strdupNull = false)
    {v : Option CString × ℕ} (hnull : ¬ Present (metadataStrings env ctx.currentPatch v.1)) :
    completeMetadata env ctx v.1 v.2 = none := by
  rw [completeMetadata, if_neg (by simp [halloc])]
  split <;> exact Option.bind_eq_none_iff.2 fun _ h =>
    absurd h (by rw [processPatchMetadataForAppVer, processPatchMetadata_null hdup hnull]; simp)

theorem completeAll_null (hdup : env.strdupNull = false) {w : CString} {i : ℕ}
    (hnull : ¬ Present (metadataStrings env ctx.currentPatch (some w))) :
    completeAll env ctx w i = none := by
  have hmeta : processPatchMetadataForAppVer env ctx (some w) i = none :=
    processPatchMetadata_null hdup (v := (some w, i)) hnull
  rw [completeAll, hmeta]
  rfl

theorem handlePatchComplete_null (halloc : ∀ n, env.alloc n = true)
    (hdup : env.strdupNull = false) (hnull : ¬ Present (completionStrings env ctx)) :
    handlePatchComplete env ctx = none := by
  unfold completionStrings at hnull
  by_cases hskip : ctx.currentPatch.title = none ∨ env.prx = true
  · rw [if_pos hskip] at hnull
    exact absurd present_nil hnull
  rw [if_neg hskip] at hnull
  rw [not_or] at hskip
  suffices hfails : ∃ v ∈ ctx.currentPatch.versions,
      ∀ ctx', SameBlock ctx ctx' → completeVersion env ctx' v.1 v.2 = none by
    rcases hfails with ⟨v, hv, hfails⟩
    rw [handlePatchComplete, if_neg hskip.1, completeVersions_null halloc hv hfails]
    rfl
  cases hmode : ctx.mode with
  | lowMem =>
      rw [hmode] at hnull
      exact absurd present_nil hnull
  | metadata =>
      rw [hmode] at hnull
      dsimp only at hnull
      simp only [present_flatMap, not_forall] at hnull
      rcases hnull with ⟨v, hv, hnull⟩
      refine ⟨v, hv, ?_⟩
      intro ctx' hsame
      unfold completeVersion
      rw [if_neg hskip.2, hsame.mode, hmode]
      exact completeMetadata_null halloc hdup (by rwa [hsame.currentPatch])
  | all =>
      rw [hmode] at hnull
      dsimp only at hnull
      simp only [present_flatMap, not_forall] at hnull
      rcases hnull with ⟨⟨v, i⟩, hv, hnull⟩
      rw [present_round hskip.1] at hnull
      refine ⟨(v, i), hv, ?_⟩
      intro ctx' hsame
      unfold completeVersion
      rw [if_neg hskip.2, hsame.mode, hmode]
      cases v with
      | none => rfl
      | some w =>
          have hround : some w = some ctx.gameInfo.appVer ∧
              ¬ Present (metadataStrings env ctx.currentPatch (some w)) := by
            simpa using hnull
          have hgame : w = ctx'.gameInfo.appVer := by
            rw [hsame.gameInfo]
            exact Option.some.inj hround.1
          dsimp only
          rw [if_pos hgame]
          exact completeAll_null hdup (by rw [hsame.currentPatch]; exact hround.2)

theorem announceVersions_null (hdup : env.strdupNull = false) {vs : List (Option CString × ℕ)}
    {v : Option CString × ℕ} (hv : v ∈ vs)
    (hnull : ¬ Present (metadataStrings env ctx.currentPatch v.1)) :
    announceVersions env vs ctx = none := by
  induction vs generalizing ctx with
  | nil => cases hv
  | cons w vs ih =>
      rw [announceVersions]
      cases hmeta : processPatchMetadataForAppVer env ctx w.1 w.2 with
      | none => rfl
      | some metadata =>
          rcases List.mem_cons.1 hv with rfl | hv
          · have hfails : processPatchMetadata env ctx.gameInfo ctx.currentPatchNumber
                ctx.currentPatch v.1 v.2 = none := processPatchMetadata_null hdup hnull
            rw [processPatchMetadataForAppVer, hfails] at hmeta
            cases hmeta
          · have hrest : ∀ ctx' : ParseContext σ, ctx'.currentPatch = ctx.currentPatch →
                announceVersions env vs ctx' = none :=
              fun ctx' hsame => ih hv (by rwa [hsame])
            apply hrest
            cases ctx.metaCallback <;> dsimp only <;> split_ifs <;> rfl

/-- A line that hands on a null pointer is the last one. -/
theorem processLine_null (halloc : ∀ n, env.alloc n = true) (hdup : env.strdupNull = false)
    (hnull : ¬ Present (lineStrings env ctx line)) : processLine env ctx line = none := by
  unfold lineStrings at hnull
  split at hnull
  · next hkind =>
      rw [processLine_patch hkind]
      exact handlePatchComplete_null halloc hdup hnull
  · next hkind =>
      rw [processLine_patches hkind]
      split at hnull
      · next hmode =>
          simp only [present_flatMap, not_forall] at hnull
          rcases hnull with ⟨v, hv, hnull⟩
          rw [if_pos hmode]
          exact announceVersions_null hdup hv hnull
      · exact absurd present_nil hnull
  · exact absurd present_nil hnull

/-! ## Blocks that state what is handed on -/

/-- The keys whose values `process_patch_metadata_for_app_ver` hands on. -/
def Env.usedKeys (env : Env) : List Key :=
  if env.prx then [.appBin] else [.title, .name, .author, .version, .appBin]

/-- The last line of every key that is used has a value in quotes. -/
def StatesKeys (env : Env) (block : List CString) : Prop :=
  ∀ k ∈ env.usedKeys, lastValue k block ≠ none

/-- The last `app_ver:` line of the block has a version. -/
def StatesVersion (block : List CString) : Prop := lastVersions block ≠ []

/-- What the end of a block with a title needs on the host. -/
def StatesForEnd (env : Env) (mode : ParseMode) (game : GamePatchInfo) (block : List CString) :
    Prop :=
  env.prx = false → lastValue .title block ≠ none →
    match mode with
    | .all => StatesVersion block ∧ (game.appVer ∈ lastVersions block → StatesKeys env block)
    | .metadata => StatesVersion block ∧ StatesKeys env block
    | .lowMem => True

/-- What a line needs of the block before it. -/
def StatesForLine (env : Env) (mode : ParseMode) (game : GamePatchInfo) (block : List CString)
    (line : CString) : Prop :=
  (OpensBlock line → StatesForEnd env mode game block) ∧
    (OpensEntries line → mode = .lowMem →
      StatesKeys env block ∧ (env.prx = false → StatesVersion block))

theorem present_metadataStrings {block : List CString} {v : Option CString} :
    Present (metadataStrings env (ownPatch true block) v) ↔
      StatesKeys env block ∧ (env.prx = false → v ≠ none) := by
  have hvalue := fun k => value_ownPatch k block
  rw [metadataStrings, StatesKeys, Env.usedKeys]
  cases hprx : env.prx with
  | true => simp [Present, ← hvalue, Patch.value]
  | false =>
      simp [Present, ← hvalue, Patch.value]
      tauto

theorem versions_present_iff {patch : Patch} :
    (∀ v ∈ patch.versions, v.1 ≠ none) ↔ patch.appVers ≠ [] := by
  rw [Patch.versions]
  cases hvers : patch.appVers with
  | nil => simp
  | cons w ws =>
      refine iff_of_true ?_ (by simp)
      intro v hv
      rcases List.mem_map.1 (List.fst_mem_of_mem_zipIdx hv) with ⟨w, -, hw⟩
      rw [← hw]
      simp

theorem present_versions {block : List CString} :
    Present ((ownPatch true block).versions.flatMap fun v =>
        metadataStrings env (ownPatch true block) v.1) ↔
      StatesKeys env block ∧ (env.prx = false → StatesVersion block) := by
  rcases (ownPatch true block).versions_eq_cons with ⟨rest, hversions, -⟩
  rw [present_flatMap, StatesVersion, ← appVers_ownPatch, ← versions_present_iff]
  simp only [present_metadataStrings]
  apply Iff.intro
  · intro h
    refine ⟨(h _ (by rw [hversions]; exact List.mem_cons_self)).1, ?_⟩
    intro hprx v hv
    exact (h v hv).2 hprx
  · intro h v hv
    exact ⟨h.1, fun hprx => h.2 hprx v hv⟩

theorem mem_appVers_iff {patch : Patch} {w : CString} :
    w ∈ patch.appVers ↔ ∃ v ∈ patch.versions, v.1 = some w := by
  apply Iff.intro
  · intro h
    rcases List.mem_iff_getElem?.1 h with ⟨k, hk⟩
    exact ⟨(some w, k), Patch.mem_versions.2 hk, rfl⟩
  · rintro ⟨⟨v, k⟩, hv, rfl⟩
    exact List.mem_of_getElem? (Patch.mem_versions.1 hv)

theorem present_completionStrings {start : ParseContext σ} {seen : List CString}
    (h : ReadsBlock start seen ctx) :
    Present (completionStrings env ctx) ↔
      StatesForEnd env start.mode start.gameInfo (openBlock seen) := by
  have htitle := h.title_eq
  unfold completionStrings StatesForEnd
  rw [← htitle]
  by_cases hskip : ctx.currentPatch.title = none ∨ env.prx = true
  · rw [if_pos hskip]
    refine iff_of_true present_nil ?_
    intro hprx htitled
    rcases hskip with hnone | hconsole
    · exact absurd hnone htitled
    · rw [hprx] at hconsole
      cases hconsole
  · rw [if_neg hskip, ← h.mode]
    rw [not_or] at hskip
    have hprx : env.prx = false := by simpa using hskip.2
    have hguards : ∀ p : Prop, (env.prx = false → ctx.currentPatch.title ≠ none → p) ↔ p :=
      fun p => ⟨fun hp => hp hprx hskip.1, fun hp _ _ => hp⟩
    rw [hguards]
    cases ctx.mode with
    | lowMem => exact iff_of_true present_nil trivial
    | metadata =>
        dsimp only
        rw [h.currentPatch, present_versions, and_comm, forall_prop_of_true hprx]
    | all =>
        dsimp only
        rw [h.currentPatch] at hskip ⊢
        simp only [present_flatMap, present_round hskip.1, present_metadataStrings]
        rw [StatesVersion, ← appVers_ownPatch, ← versions_present_iff, mem_appVers_iff,
          ← h.gameInfo]
        apply Iff.intro
        · intro hrounds
          refine ⟨fun v hv => (hrounds v hv).1, ?_⟩
          rintro ⟨v, hv, hgame⟩
          exact ((hrounds v hv).2 hgame).1
        · intro hstates v hv
          have hver := hstates.1 v hv
          exact ⟨hver, fun hgame => ⟨hstates.2 ⟨v, hv, hgame⟩, fun _ => hver⟩⟩

theorem present_lineStrings {start : ParseContext σ} {seen : List CString}
    (h : ReadsBlock start seen ctx) :
    Present (lineStrings env ctx line) ↔
      StatesForLine env start.mode start.gameInfo (openBlock seen) line := by
  unfold lineStrings StatesForLine
  by_cases hopens : OpensBlock line
  · have hentries : ¬ OpensEntries line := by
      intro hentries
      cases hopens.symm.trans hentries
    rw [hopens.lineKind_eq]
    dsimp only
    rw [present_completionStrings h, forall_prop_of_true hopens]
    exact ⟨fun hend => ⟨hend, fun h => absurd h hentries⟩, And.left⟩
  · by_cases hentries : OpensEntries line
    · rw [hentries.lineKind_eq]
      dsimp only
      by_cases hmode : ctx.mode = .lowMem
      · rw [if_pos hmode, h.currentPatch, present_versions]
        exact ⟨fun hkeys => ⟨fun h => absurd h hopens, fun _ _ => hkeys⟩,
          fun hstates => hstates.2 hentries (h.mode ▸ hmode)⟩
      · rw [if_neg hmode]
        refine iff_of_true present_nil ⟨fun h => absurd h hopens, ?_⟩
        intro _ hlow
        exact absurd (h.mode.trans hlow) hmode
    · refine iff_of_true ?_ ⟨fun h => absurd h hopens, fun h => absurd h hentries⟩
      split
      · next hkind => exact absurd ((lineKind_eq_iff (by simp) (by simp)).1 hkind) hopens
      · next hkind => exact absurd ((lineKind_eq_iff (by simp) (by simp)).1 hkind) hentries
      · exact present_nil

/-! ## Runs -/

/-- No null pointer is handed on in the run over the lines of a file, its end
included. -/
structure HandsOnNoNull (env : Env) (start : ParseContext σ) (lines : List CString) : Prop where
  line : ∀ seen line rest ctx, lines = seen ++ line :: rest → runLines env start seen = some ctx →
    Present (lineStrings env ctx line)
  fileEnd : ∀ ctx, runLines env start lines = some ctx → Present (completionStrings env ctx)

/-- A file that is parsed to its end has handed on no null pointer. -/
theorem HandsOnNoNull.of_parseLines (halloc : ∀ n, env.alloc n = true)
    (hdup : env.strdupNull = false) {start : ParseContext σ} {lines : List CString}
    (h : parseLines env start lines ≠ none) : HandsOnNoNull env start lines where
  line := by
    intro seen line rest ctx hlines hrun
    by_contra hnull
    apply h
    rw [parseLines, hlines, runLines_append, hrun, Option.bind_some, runLines_cons,
      processLine_null halloc hdup hnull]
    rfl
  fileEnd := by
    intro ctx hrun
    by_contra hnull
    apply h
    rw [parseLines, hrun]
    exact handlePatchComplete_null halloc hdup hnull

/-- Every block states what is needed of it, as far as the run gets. -/
structure BlocksState (env : Env) (start : ParseContext σ) (lines : List CString) : Prop where
  line : ∀ seen line rest, lines = seen ++ line :: rest → runLines env start seen ≠ none →
    StatesForLine env start.mode start.gameInfo (openBlock seen) line
  fileEnd : runLines env start lines ≠ none →
    StatesForEnd env start.mode start.gameInfo (openBlock lines)

/-- The parser hands on a null pointer exactly when a block leaves something out. -/
theorem handsOnNoNull_iff (env : Env) (halloc : ∀ n, env.alloc n = true) (game : GamePatchInfo)
    (mode : ParseMode) (title : Option CString) (data : σ)
    (metaCallback : Option (PatchMetadata → σ → σ))
    (entryCallback : Option (PatchMetadata → PatchEntry → σ → σ)) (lines : List CString) :
    HandsOnNoNull env { createParseContext game mode title data with
        metaCallback := metaCallback
        entryCallback := entryCallback } lines ↔
      BlocksState env { createParseContext game mode title data with
        metaCallback := metaCallback
        entryCallback := entryCallback } lines := by
  generalize hstart : { createParseContext game mode title data with
    metaCallback := metaCallback
    entryCallback := entryCallback } = start
  have hblank : start.currentPatch = Patch.blank true := by
    rw [← hstart]
    rfl
  have hreads : ∀ {seen ctx}, runLines env start seen = some ctx → ReadsBlock start seen ctx :=
    fun hrun => ReadsBlock.run halloc hblank hrun
  apply Iff.intro
  · intro h
    constructor
    · intro seen line rest hlines hreached
      rcases Option.ne_none_iff_exists'.1 hreached with ⟨ctx, hrun⟩
      exact (present_lineStrings (hreads hrun)).1 (h.line seen line rest ctx hlines hrun)
    · intro hreached
      rcases Option.ne_none_iff_exists'.1 hreached with ⟨ctx, hrun⟩
      exact (present_completionStrings (hreads hrun)).1 (h.fileEnd ctx hrun)
  · intro h
    constructor
    · intro seen line rest ctx hlines hrun
      have hstates := h.line seen line rest hlines (by rw [hrun]; exact Option.some_ne_none ctx)
      exact (present_lineStrings (hreads hrun)).2 hstates
    · intro ctx hrun
      have hstates := h.fileEnd (by rw [hrun]; exact Option.some_ne_none ctx)
      exact (present_completionStrings (hreads hrun)).2 hstates

def statedLines : List CString :=
  ["patch:", "  title: \"A\"", "  name: \"B\"", "  author: \"C\"", "  version: \"1\"",
    "  app_bin: \"EBOOT.BIN\"", "  app_ver: \"1\""].map String.toList

theorem handsOnNoNull_iff_stated :
    HandsOnNoNull (hostWith []) (createParseContext runningGame .metadata none ()) statedLines ∧
      BlocksState (hostWith []) (createParseContext runningGame .metadata none ()) statedLines := by
  have hevery : EveryStep (processLine (hostWith []))
      (fun ctx line => Present (lineStrings (hostWith []) ctx line))
      (createParseContext runningGame .metadata none ()) statedLines := by
    decide +kernel
  have hend : ∀ ctx, runLines (hostWith []) (createParseContext runningGame .metadata none ())
      statedLines = some ctx → Present (completionStrings (hostWith []) ctx) := by
    intro ctx hrun
    cases (rfl.symm.trans hrun : some _ = some ctx)
    decide +kernel
  have hpresent : HandsOnNoNull (hostWith []) (createParseContext runningGame .metadata none ())
      statedLines := by
    constructor
    · intro seen line rest ctx hlines hrun
      rw [hlines] at hevery
      exact ((everyStep_append.1 hevery).2 ctx hrun).1
    · exact hend
  exact ⟨hpresent, (handsOnNoNull_iff (hostWith []) (fun _ => rfl) runningGame .metadata none ()
    none none statedLines).1 hpresent⟩

def noAppBinLines : List CString := ["patch:", "  title: \"A\"", "  patches:"].map String.toList

/-- A block without `app_bin` makes the console search a null pointer. -/
theorem not_handsOnNoNull :
    ¬ HandsOnNoNull (consoleWith [] "EBOOT.BIN".toList)
      (createParseContext runningGame .lowMem none ()) noAppBinLines := by
  intro h
  have hline := h.line (noAppBinLines.take 2) "  patches:".toList [] _ rfl rfl
  revert hline
  decide +kernel

end GamePatch
