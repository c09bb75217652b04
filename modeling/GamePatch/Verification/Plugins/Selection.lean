import GamePatch.Shared.Parts
import GamePatch.Verification.Plugins.RoundTrip

/-! # Which plugins are loaded

`all` is tested with `strncmp2`, so that every id and every version that begins with
`all` stands for all of them. -/

namespace GamePatch.Plugins

open LineReader Lines Parts

/-! ## Selecting configs -/

def Selected (info : GamePatchInfo) (config : PluginConfig) : Prop :=
  (config.appId = some "all".toList ∨ config.appId = some info.titleid) ∧
    ∃ version ∈ config.appVersions, version = "all".toList ∨ version = info.appVer

/-- A config whose id and one version match where `all…` matches everything. -/
def Taken (info : GamePatchInfo) (config : PluginConfig) : Prop :=
  (∃ appId ∈ config.appId, "all".toList <+: appId ∨ appId = info.titleid) ∧
    ∃ version ∈ config.appVersions, "all".toList <+: version ∨ version = info.appVer

instance (info : GamePatchInfo) : DecidablePred (Selected info) :=
  fun _ => inferInstanceAs (Decidable (_ ∧ _))

instance (info : GamePatchInfo) : DecidablePred (Taken info) :=
  fun _ => inferInstanceAs (Decidable (_ ∧ _))

theorem Selected.taken {info : GamePatchInfo} {config : PluginConfig} (h : Selected info config) :
    Taken info config := by
  rcases h with ⟨hid, version, hmem, hversion⟩
  apply And.intro
  · rcases hid with hid | hid
    · exact ⟨_, hid, .inl (List.prefix_refl _)⟩
    · exact ⟨_, hid, .inr rfl⟩
  · rcases hversion with rfl | rfl
    · exact ⟨_, hmem, .inl (List.prefix_refl _)⟩
    · exact ⟨_, hmem, .inr rfl⟩

/-- The callback over a sequence of configs. -/
def deliver (prx : Prx) (configs : List PluginConfig) (data : LoadPluginData) : LoadPluginData :=
  configs.foldl (fun data config => loadPluginCallback prx config data) data

/-- The data that `parse_load_file` starts with. -/
def freshData (info : GamePatchInfo) : LoadPluginData := ⟨some info, false, [], []⟩

/-- No outcome of a call keeps a later path from being loaded. -/
theorem loadPlugin_fields (prx : Prx) (data : LoadPluginData) (path : CString) :
    (loadPlugin prx data path).loads = data.loads ++ [path] ∧
      (loadPlugin prx data path).foundMatch = data.foundMatch ∧
      (loadPlugin prx data path).gameInfo = data.gameInfo := by
  unfold loadPlugin
  dsimp only
  split <;> exact ⟨rfl, rfl, rfl⟩

theorem foldl_loadPlugin (prx : Prx) (paths : List CString) (data : LoadPluginData) :
    (paths.foldl (loadPlugin prx) data).loads = data.loads ++ paths ∧
      (paths.foldl (loadPlugin prx) data).foundMatch = data.foundMatch ∧
      (paths.foldl (loadPlugin prx) data).gameInfo = data.gameInfo := by
  induction paths generalizing data with
  | nil => exact ⟨(List.append_nil _).symm, rfl, rfl⟩
  | cons path paths ih =>
      rcases loadPlugin_fields prx data path with ⟨hloads, hfound, hinfo⟩
      rcases ih (loadPlugin prx data path) with ⟨hloads', hfound', hinfo'⟩
      rw [List.foldl_cons]
      refine ⟨?_, hfound'.trans hfound, hinfo'.trans hinfo⟩
      rw [hloads', hloads, List.append_assoc, List.singleton_append]

theorem loadPluginCallback_eq (prx : Prx) (config : PluginConfig) {data : LoadPluginData}
    {info : GamePatchInfo} (hinfo : data.gameInfo = some info) :
    loadPluginCallback prx config data =
      if Taken info config then
        config.plugins.foldl (loadPlugin prx) { data with foundMatch := true }
      else data := by
  rw [loadPluginCallback]
  cases hid : config.appId with
  | none => simp [Taken, hid]
  | some appId =>
      simp only [hinfo, Bool.or_eq_true, strncmp2_iff, decide_eq_true_iff, List.any_eq_true]
      by_cases happ : "all".toList <+: appId ∨ appId = info.titleid
      · by_cases hver : ∃ version ∈ config.appVersions,
            "all".toList <+: version ∨ version = info.appVer
        · have htaken : Taken info config := ⟨⟨appId, hid, happ⟩, hver⟩
          rw [if_pos happ, if_pos hver, if_pos htaken]
        · have hskip : ¬ Taken info config := fun h => hver h.2
          rw [if_pos happ, if_neg hver, if_neg hskip]
      · have hskip : ¬ Taken info config := by
          intro h
          rcases h.1 with ⟨_, hmem, hmatch⟩
          cases hid.symm.trans hmem
          exact happ hmatch
        rw [if_neg happ, if_neg hskip]

/-- What the callback has loaded and found after a sequence of configs. -/
theorem deliver_fields (prx : Prx) (configs : List PluginConfig) {data : LoadPluginData}
    {info : GamePatchInfo} (hinfo : data.gameInfo = some info) :
    (deliver prx configs data).loads =
        data.loads ++ (configs.filter (Taken info)).flatMap PluginConfig.plugins ∧
      ((deliver prx configs data).foundMatch = true ↔
        data.foundMatch = true ∨ ∃ config ∈ configs, Taken info config) := by
  induction configs generalizing data with
  | nil => simp [deliver]
  | cons config configs ih =>
      have hstep := loadPluginCallback_eq prx config hinfo
      rw [deliver, List.foldl_cons, ← deliver, List.filter_cons]
      by_cases htaken : Taken info config
      · rw [if_pos htaken] at hstep
        rcases foldl_loadPlugin prx config.plugins { data with foundMatch := true } with
          ⟨hloads, hfound, hinfo'⟩
        rw [← hstep] at hloads hfound hinfo'
        rcases ih (hinfo'.trans hinfo) with ⟨hloads', hfound'⟩
        apply And.intro
        · rw [hloads', hloads, if_pos (by simpa using htaken), List.flatMap_cons,
            List.append_assoc]
        · rw [hfound', hfound]
          simp [htaken]
      · rw [if_neg htaken] at hstep
        rw [hstep, if_neg (by simpa using htaken)]
        rcases ih hinfo with ⟨hloads, hfound⟩
        refine ⟨hloads, hfound.trans ?_⟩
        simp [htaken]

/-! ## From the file to the callback -/

def record (config : PluginConfig) (seen : List PluginConfig) : List PluginConfig :=
  seen ++ [config]

/-- The configs that `parse_plugin` hands over, in order. -/
def Delivers (alloc : ℕ → Bool) (fuel : ℕ) (file : Option (List Char))
    (configs : List PluginConfig) : Prop :=
  ∃ ctx result, parsePlugin alloc fuel (initPluginParseContext []) file (some record) [] =
    .finished (ctx, result) ∧ ctx.userData = configs

theorem foldl_record (configs seen : List PluginConfig) :
    configs.foldl (fun seen config => record config seen) seen = seen ++ configs := by
  induction configs generalizing seen with
  | nil => exact (List.append_nil seen).symm
  | cons config configs ih =>
      rw [List.foldl_cons, ih, record, List.append_assoc]
      rfl

/-- The configs of a rendered list are handed over in order. -/
theorem delivers_text {alloc : ℕ → Bool} (halloc : ∀ n, alloc n = true) (doc : PluginDocument)
    (hshort : ∀ row ∈ doc.rows, row.length ≤ 1000) (closed : Bool) :
    ∃ fuel, Delivers alloc fuel (some (doc.text closed))
      (doc.configs.map RenderedConfig.config) := by
  let start : PluginParseContext (List PluginConfig) :=
    { initPluginParseContext [] with callback := some record }
  have hnewline : ∀ row ∈ doc.rows, '\n' ∉ row := fun row hrow => (doc.listRow row hrow).newline
  have hlines : ∀ line ∈ Lines.lines '\n' (doc.text closed),
      (withoutReturns line).length < maxLineLength := by
    intro line hline
    have hlen := hshort line (mem_lines_joinRows hnewline line hline)
    exact (length_withoutReturns_le line).trans_lt (Nat.lt_of_le_of_lt hlen (by decide))
  have hread := lineLoop_finished
    (fun ctx buffer => Plugins.processLine alloc ctx (cstring buffer)) (doc.text closed).length
    (doc.text closed) (getLast?_joinRows closed doc.last_row) hlines
    ((doc.text closed).length + 1) 0 0 start (by omega) (by simp)
  rw [foldl_expectedBuffers] at hread
  have hrun : parsePlugin alloc ((doc.text closed).length + 1) (initPluginParseContext [])
      (some (doc.text closed)) (some record) [] =
        .finished (emitCurrentConfig (doc.rows.foldl (Plugins.processLine alloc) start), 0) := by
    rw [parsePlugin]
    split
    · next h => cases hread.symm.trans h; rfl
    · next h => cases hread.symm.trans h
    · next h => cases hread.symm.trans h
  have hfit : ∀ c ∈ doc.configs, ∀ row ∈ c.rows, row.length ≤ maxLineLength := by
    intro c hc row hrow
    exact (hshort row (List.mem_append_left _ (List.mem_flatMap.2 ⟨c, hc, hrow⟩))).trans (by decide)
  have hfillers : ∀ line ∈ doc.trailing, FillerRow line := fun line hl => (doc.filler line hl).1
  refine ⟨_, _, _, hrun, ?_⟩
  rw [PluginDocument.rows, List.foldl_append, foldl_fillers hfillers,
    foldl_configs halloc doc.configs hfit record start (fun _ => rfl) rfl]
  exact foldl_record _ []

section Replay

variable {σ : Type} {alloc : ℕ → Bool} (callback : PluginConfig → σ → σ) (data : σ)

/-- The context of another callback that was called with the recorded configs. -/
def replay (ctx : PluginParseContext (List PluginConfig)) : PluginParseContext σ where
  callback := some callback
  userData := ctx.userData.foldl (fun data config => callback config data) data
  currentConfig := ctx.currentConfig
  inPluginsSection := ctx.inPluginsSection
  hasCurrentConfig := ctx.hasCurrentConfig
  currentIndent := ctx.currentIndent
  allocs := ctx.allocs

@[simp] theorem replay_hasCurrentConfig (ctx : PluginParseContext (List PluginConfig)) :
    (replay callback data ctx).hasCurrentConfig = ctx.hasCurrentConfig := rfl

@[simp] theorem replay_inPluginsSection (ctx : PluginParseContext (List PluginConfig)) :
    (replay callback data ctx).inPluginsSection = ctx.inPluginsSection := rfl

@[simp] theorem replay_allocs (ctx : PluginParseContext (List PluginConfig)) :
    (replay callback data ctx).allocs = ctx.allocs := rfl

theorem emitCurrentConfig_replay {ctx : PluginParseContext (List PluginConfig)}
    (h : ctx.callback = some record) :
    emitCurrentConfig (replay callback data ctx) = replay callback data (emitCurrentConfig ctx) ∧
      (emitCurrentConfig ctx).callback = some record := by
  unfold emitCurrentConfig
  by_cases hnone : ctx.hasCurrentConfig = false
  · rw [replay_hasCurrentConfig, if_pos hnone, if_pos hnone]
    exact ⟨rfl, h⟩
  · rw [replay_hasCurrentConfig, if_neg hnone, if_neg hnone]
    refine ⟨?_, h⟩
    simp only [h, replay, record, List.foldl_append, List.foldl_cons, List.foldl_nil]

theorem addPlugin_replay (ctx : PluginParseContext (List PluginConfig)) (pluginPath : CString) :
    addPlugin alloc (replay callback data ctx) pluginPath =
        replay callback data (addPlugin alloc ctx pluginPath) ∧
      (addPlugin alloc ctx pluginPath).callback = ctx.callback := by
  unfold addPlugin
  cases parseQuotedString pluginPath with
  | none => exact ⟨rfl, rfl⟩
  | some path =>
      dsimp only
      rw [replay_allocs]
      by_cases hfail : alloc ctx.allocs = false
      · rw [if_pos hfail, if_pos hfail]
        exact ⟨rfl, rfl⟩
      · rw [if_neg hfail, if_neg hfail]
        exact ⟨rfl, rfl⟩

/-- What a line does to the context does not depend on the callback. -/
theorem processLine_replay {ctx : PluginParseContext (List PluginConfig)}
    (h : ctx.callback = some record) (line : CString) :
    processLine alloc (replay callback data ctx) line =
        replay callback data (processLine alloc ctx line) ∧
      (processLine alloc ctx line).callback = some record := by
  rcases emitCurrentConfig_replay callback data h with ⟨hemit, hrecord⟩
  unfold processLine
  by_cases hskip : isCommentOrEmpty line = true
  · rw [if_pos hskip, if_pos hskip]
    exact ⟨rfl, h⟩
  rw [if_neg hskip, if_neg hskip]
  dsimp only
  rw [replay_hasCurrentConfig, replay_inPluginsSection]
  split
  · rw [hemit]
    cases parseQuotedString ((line.dropWhile isspace).drop 6) with
    | none => exact ⟨rfl, hrecord⟩
    | some appId => exact ⟨rfl, hrecord⟩
  by_cases hver : (strstr "app_ver:".toList (line.dropWhile isspace)).isSome = true ∧
      ctx.hasCurrentConfig = true
  · rw [if_pos hver, if_pos hver]
    exact ⟨rfl, h⟩
  rw [if_neg hver, if_neg hver]
  by_cases hplugins : (strstr "plugins:".toList (line.dropWhile isspace)).isSome = true ∧
      ctx.hasCurrentConfig = true
  · rw [if_pos hplugins, if_pos hplugins]
    exact ⟨rfl, h⟩
  rw [if_neg hplugins, if_neg hplugins]
  by_cases hpath : ctx.inPluginsSection = true ∧ ctx.hasCurrentConfig = true ∧
      (line.dropWhile isspace).head? = some '-'
  · rw [if_pos hpath, if_pos hpath]
    exact ⟨(addPlugin_replay callback data ctx _).1,
      (addPlugin_replay callback data ctx _).2.trans h⟩
  · rw [if_neg hpath, if_neg hpath]
    exact ⟨rfl, h⟩

/-- A callback is called with the configs that are delivered. -/
theorem parsePlugin_of_delivers {fuel : ℕ} {file : Option (List Char)}
    {configs : List PluginConfig} (h : Delivers alloc fuel file configs) :
    ∃ ctx result, parsePlugin alloc fuel (initPluginParseContext data) file (some callback) data =
        .finished (ctx, result) ∧
      ctx.userData = configs.foldl (fun data config => callback config data) data ∧
      (result ≠ 0 → configs = []) := by
  rcases h with ⟨seen, result, hrun, hconfigs⟩
  let related (seen : PluginParseContext (List PluginConfig)) (ctx : PluginParseContext σ) : Prop :=
    seen.callback = some record ∧ ctx = replay callback data seen
  cases file with
  | none =>
      cases hrun
      exact ⟨_, _, rfl, by rw [← hconfigs]; rfl, fun _ => hconfigs.symm⟩
  | some content =>
      rw [parsePlugin] at hrun ⊢
      split at hrun
      · next seen' hloop =>
          have hstep : ∀ (seen : PluginParseContext (List PluginConfig))
              (ctx : PluginParseContext σ) (buffer : List Char), related seen ctx →
              related (processLine alloc seen (cstring buffer))
                (processLine alloc ctx (cstring buffer)) := by
            intro seen ctx buffer h
            have hline := (processLine_replay callback data h.1 (cstring buffer) :
              processLine alloc _ _ = _ ∧ _)
            exact ⟨hline.2, by rw [h.2, hline.1]⟩
          rcases lineLoop_related hstep _ _ _ _ _ _ _ _ ⟨rfl, rfl⟩ hloop with
            ⟨ctx', hloop', hrecord, rfl⟩
          rcases emitCurrentConfig_replay callback data hrecord with ⟨hemit, -⟩
          cases hrun
          refine ⟨emitCurrentConfig (replay callback data seen'), 0, ?_, ?_, fun h => absurd rfl h⟩
          · split
            · next h => cases hloop'.symm.trans h; rfl
            · next h => cases hloop'.symm.trans h
            · next h => cases hloop'.symm.trans h
          · rw [hemit, ← hconfigs]
            rfl
      · cases hrun
      · cases hrun

end Replay

/-- The paths that were handed over are those of the selected configs, and the return
value tells whether there is one. -/
structure LoadsSelected (info : GamePatchInfo) (configs : List PluginConfig)
    (data : LoadPluginData) (result : ℤ) : Prop where
  loads : data.loads = (configs.filter (Selected info)).flatMap PluginConfig.plugins
  result : result = 0 ↔ ∃ config ∈ configs, Selected info config

/-- Configs that only the prefix test takes have nothing to load, and do not come alone. -/
structure PrefixHarmless (info : GamePatchInfo) (configs : List PluginConfig) : Prop where
  plugins : ∀ config ∈ configs, Taken info config → ¬ Selected info config → config.plugins = []
  company : (∃ config ∈ configs, Taken info config) → ∃ config ∈ configs, Selected info config

theorem loadsSelected_deliver_iff (prx : Prx) (info : GamePatchInfo)
    (configs : List PluginConfig) :
    (LoadsSelected info configs (deliver prx configs (freshData info))
        (if (deliver prx configs (freshData info)).foundMatch then 0 else -1)) ↔
      PrefixHarmless info configs := by
  have hinfo : (freshData info).gameInfo = some info := rfl
  rcases deliver_fields prx configs hinfo with ⟨hloads, hfound⟩
  have hfound' : (deliver prx configs (freshData info)).foundMatch = true ↔
      ∃ config ∈ configs, Taken info config := by
    rw [hfound]
    simp [freshData]
  have hresult : ((if (deliver prx configs (freshData info)).foundMatch then 0 else -1 : ℤ) = 0) ↔
      ∃ config ∈ configs, Taken info config := by
    rw [← hfound']
    split <;> simp [*]
  have hfilter := flatMap_filter_eq_iff PluginConfig.plugins
    (fun config (h : Selected info config) => h.taken) configs
  apply Iff.intro
  · intro h
    constructor
    · exact hfilter.1 (by rw [← h.loads, hloads]; rfl)
    · intro htaken
      exact h.result.1 (hresult.2 htaken)
  · intro h
    constructor
    · rw [hloads, ← hfilter.2 h.plugins]
      rfl
    · rw [hresult]
      refine ⟨h.company, ?_⟩
      rintro ⟨config, hmem, hselected⟩
      exact ⟨config, hmem, hselected.taken⟩

/-- Exactly the selected plugins are loaded if no config is taken for its prefix alone.
The configs are any sequence, and in a run of `load_plugins` those of its file. -/
theorem loadsSelected_iff (prx : Prx) (info : GamePatchInfo) (configs : List PluginConfig) :
    (LoadsSelected info configs (deliver prx configs (freshData info))
        (if (deliver prx configs (freshData info)).foundMatch then 0 else -1) ↔
      PrefixHarmless info configs) ∧
    ∀ alloc fuel file, Delivers alloc fuel file configs →
      ∃ data result,
        loadPlugins alloc fuel file (loadPluginCallback prx) (freshData info) =
          .finished (data, result) ∧
        (LoadsSelected info configs data result ↔ PrefixHarmless info configs) := by
  refine ⟨loadsSelected_deliver_iff prx info configs, ?_⟩
  intro alloc fuel file hdelivers
  rcases parsePlugin_of_delivers (loadPluginCallback prx) (freshData info) hdelivers with
    ⟨ctx, result, hrun, hdata, hfail⟩
  have hiff := loadsSelected_deliver_iff prx info configs
  have hdeliver : ctx.userData = deliver prx configs (freshData info) := hdata
  rw [← hdeliver] at hiff
  rw [loadPlugins, hrun]
  by_cases hresult : result = 0
  · exact ⟨_, _, if_neg (not_not.2 hresult), hiff⟩
  · refine ⟨_, _, if_pos hresult, ?_⟩
    have hnone : ctx.userData.foundMatch = false := by
      rw [hdata, hfail hresult]
      rfl
    rw [hnone] at hiff
    exact hiff

/-- The list of two configs, in a game that only the first one is for. -/
theorem loadsSelected_iff_twoConfigs :
    ∃ fuel data result,
      loadPlugins (fun _ => true) fuel (some (twoConfigsDocument.text true))
          (loadPluginCallback ⟨fun _ => 1, fun _ => 0⟩) (freshData runningGame) =
        .finished (data, result) ∧
      LoadsSelected runningGame [everyGameConfig.config, oneGameConfig.config] data result := by
  obtain ⟨fuel, hdelivers⟩ :=
    delivers_text (fun _ => rfl) twoConfigsDocument (by decide +kernel) true
  obtain ⟨data, result, hrun, hiff⟩ := (loadsSelected_iff ⟨fun _ => 1, fun _ => 0⟩ runningGame
    (twoConfigsDocument.configs.map RenderedConfig.config)).2 _ _ _ hdelivers
  have hharmless : PrefixHarmless runningGame
      (twoConfigsDocument.configs.map RenderedConfig.config) :=
    ⟨by decide +kernel, by decide +kernel⟩
  exact ⟨fuel, data, result, hrun, hiff.mpr hharmless⟩

def allstarsConfig : PluginConfig where
  appId := some "allstars".toList
  appVersions := ["all".toList]
  isAppVerList := false
  plugins := ["/dev_hdd0/a.sprx".toList]

/-- A config for the id `allstars` is loaded in a game with another id. -/
theorem not_loadsSelected_allstars :
    let data := deliver ⟨fun _ => 1, fun _ => 0⟩ [allstarsConfig] (freshData runningGame)
    ¬ LoadsSelected runningGame [allstarsConfig] data (if data.foundMatch then 0 else -1) := by
  intro data h
  have hharmless := (loadsSelected_deliver_iff ⟨fun _ => 1, fun _ => 0⟩ runningGame
    [allstarsConfig]).1 h
  have hplugins := hharmless.plugins allstarsConfig (by simp) (by decide) (by decide)
  cases hplugins

end GamePatch.Plugins
