import GamePatch.Verification.LineReader.Correctness
import GamePatch.Verification.Parser.RoundTrip
import GamePatch.Verification.Plugins.Rows

/-! # Plugin lists are read back

Every config of a rendered plugin list reaches the callback once, in file order, with
the id, the versions and the paths written for it. -/

namespace GamePatch.Plugins

open LineReader Lines

variable {σ : Type} {alloc : ℕ → Bool}

/-! ## Rendered plugin lists -/

/-- A path with the blank lines and comments before it. -/
structure PathRow where
  before : List CString
  indent : ℕ
  plugin : CString
  deriving DecidableEq, Repr

def PathRow.rows (row : PathRow) : List CString :=
  row.before ++ [indented row.indent (pathText row.plugin)]

/-- A config with the rows it is written in. -/
structure RenderedConfig where
  beforeApp : List CString
  appIndent : ℕ
  appId : CString
  beforeVer : List CString
  verIndent : ℕ
  appVer : Versions
  beforePlugins : List CString
  pluginsIndent : ℕ
  paths : List PathRow
  plain_appId : PlainValue appId
  plain_appVer : ∀ v ∈ appVer.all, PlainValue v
  appVer_length : appVer.all.length ≤ maxArrayLength
  plain_path : ∀ row ∈ paths, PlainValue row.plugin
  filler : ∀ line ∈ beforeApp ++ beforeVer ++ beforePlugins ++ paths.flatMap PathRow.before,
    FillerRow line

namespace RenderedConfig

/-- The config that the callback should be given. -/
def config (c : RenderedConfig) : PluginConfig where
  appId := some c.appId
  appVersions := c.appVer.all
  isAppVerList := c.appVer.isList
  plugins := c.paths.map PathRow.plugin

/-- The rows down to the `plugins:` line. -/
def header (c : RenderedConfig) : List CString :=
  c.beforeApp ++ indented c.appIndent (appText c.appId) ::
    (c.beforeVer ++ indented c.verIndent ("app_ver: ".toList ++ c.appVer.text) ::
      (c.beforePlugins ++ [indented c.pluginsIndent "plugins:".toList]))

def rows (c : RenderedConfig) : List CString := c.header ++ c.paths.flatMap PathRow.rows

end RenderedConfig

/-- A plugin list. The lines behind its last row hold no carriage return. -/
structure PluginDocument where
  configs : List RenderedConfig
  trailing : List CString
  filler : ∀ line ∈ trailing, FillerRow line ∧ '\r' ∉ line

def PluginDocument.rows (doc : PluginDocument) : List CString :=
  doc.configs.flatMap RenderedConfig.rows ++ doc.trailing

/-! ## Reading the rows of a config -/

theorem foldl_fillers {lines : List CString} (h : ∀ line ∈ lines, FillerRow line)
    (ctx : PluginParseContext σ) : lines.foldl (processLine alloc) ctx = ctx := by
  induction lines with
  | nil => rfl
  | cons line lines ih =>
      rw [List.foldl_cons, processLine_filler (h line (by simp)).1]
      exact ih fun l hl => h l (List.mem_cons_of_mem line hl)

theorem foldl_paths (halloc : ∀ n, alloc n = true) {paths : List PathRow}
    (hplain : ∀ row ∈ paths, PlainValue row.plugin)
    (hfiller : ∀ line ∈ paths.flatMap PathRow.before, FillerRow line)
    (ctx : PluginParseContext σ) (hconfig : ctx.hasCurrentConfig = true)
    (hsection : ctx.inPluginsSection = true) :
    ∃ allocs, (paths.flatMap PathRow.rows).foldl (processLine alloc) ctx =
      { ctx with
        currentConfig :=
          { ctx.currentConfig with
            plugins := ctx.currentConfig.plugins ++ paths.map PathRow.plugin }
        allocs := allocs } := by
  induction paths generalizing ctx with
  | nil => exact ⟨ctx.allocs, by simp⟩
  | cons row paths ih =>
      have hbefore : ∀ line ∈ row.before, FillerRow line := by
        intro line hline
        exact hfiller line (by simp [hline])
      have hrest : ∀ line ∈ paths.flatMap PathRow.before, FillerRow line := by
        intro line hline
        apply hfiller
        rw [List.flatMap_cons]
        exact List.mem_append_right _ hline
      have hrow := processLine_path (hplain row (by simp)) row.indent hconfig hsection halloc
      rw [List.flatMap_cons, PathRow.rows, List.foldl_append, List.foldl_append,
        foldl_fillers hbefore, List.foldl_cons, List.foldl_nil]
      have hconfig' := (congrArg PluginParseContext.hasCurrentConfig hrow).trans hconfig
      have hsection' := (congrArg PluginParseContext.inPluginsSection hrow).trans hsection
      rcases ih (fun r hr => hplain r (List.mem_cons_of_mem row hr)) hrest _ hconfig' hsection' with
        ⟨allocs, hread⟩
      exact ⟨allocs, by rw [hread, hrow]; simp⟩

/-- Between configs the current one is as `memset` leaves it. -/
def Settled (ctx : PluginParseContext σ) : Prop :=
  ctx.hasCurrentConfig = false → ctx.currentConfig = .empty

theorem emitCurrentConfig_empty {ctx : PluginParseContext σ} (h : Settled ctx) :
    (emitCurrentConfig ctx).currentConfig = .empty := by
  unfold emitCurrentConfig
  split
  · next hnone => exact h hnone
  · rfl

theorem emitCurrentConfig_callback (ctx : PluginParseContext σ) :
    (emitCurrentConfig ctx).callback = ctx.callback := by
  unfold emitCurrentConfig
  split <;> rfl

/-- The config before was handed over and the new one is in the context. -/
structure HoldsConfig (c : RenderedConfig) (ctx ctx' : PluginParseContext σ) : Prop where
  current : ctx'.hasCurrentConfig = true
  config : ctx'.currentConfig = c.config
  callback : ctx'.callback = ctx.callback
  userData : ctx'.userData = (emitCurrentConfig ctx).userData

theorem foldl_header (c : RenderedConfig) (hshort : ∀ row ∈ c.rows, row.length ≤ maxLineLength)
    {ctx : PluginParseContext σ} (hsettled : Settled ctx) :
    c.header.foldl (processLine alloc) ctx =
      { emitCurrentConfig ctx with
        hasCurrentConfig := true
        inPluginsSection := true
        currentIndent := c.pluginsIndent
        currentConfig := { c.config with plugins := [] } } := by
  have hfiller := c.filler
  simp only [List.mem_append] at hfiller
  have hfits : (indented c.verIndent ("app_ver: ".toList ++ c.appVer.text)).length ≤
      maxLineLength := hshort _ (by rw [RenderedConfig.rows, RenderedConfig.header]; simp)
  have hempty := emitCurrentConfig_empty hsettled
  rw [RenderedConfig.header, List.foldl_append,
    foldl_fillers fun line hl => hfiller line (.inl (.inl (.inl hl))), List.foldl_cons,
    processLine_app c.plain_appId, List.foldl_append,
    foldl_fillers fun line hl => hfiller line (.inl (.inl (.inr hl))), List.foldl_cons,
    processLine_appVer c.plain_appVer c.appVer_length hfits rfl (by rw [hempty]; rfl),
    List.foldl_append, foldl_fillers fun line hl => hfiller line (.inl (.inr hl)),
    List.foldl_cons, processLine_plugins _ rfl, List.foldl_nil]
  simp only [hempty, RenderedConfig.config, PluginConfig.empty]

theorem foldl_config (halloc : ∀ n, alloc n = true) (c : RenderedConfig)
    (hshort : ∀ row ∈ c.rows, row.length ≤ maxLineLength) {ctx : PluginParseContext σ}
    (hsettled : Settled ctx) : HoldsConfig c ctx (c.rows.foldl (processLine alloc) ctx) := by
  have hheader := (foldl_header c hshort hsettled :
    c.header.foldl (processLine alloc) ctx = _)
  have hfiller : ∀ line ∈ c.paths.flatMap PathRow.before, FillerRow line :=
    fun line hl => c.filler line (List.mem_append_right _ hl)
  rcases foldl_paths halloc c.plain_path hfiller (c.header.foldl (processLine alloc) ctx)
    (by rw [hheader]) (by rw [hheader]) with ⟨allocs, hread⟩
  rw [RenderedConfig.rows, List.foldl_append, hread, hheader]
  constructor
  · rfl
  · rfl
  · exact emitCurrentConfig_callback ctx
  · rfl

/-- Once the last config is handed over too, the callback has seen every config. -/
theorem foldl_configs (halloc : ∀ n, alloc n = true) (configs : List RenderedConfig)
    (hshort : ∀ c ∈ configs, ∀ row ∈ c.rows, row.length ≤ maxLineLength)
    (callback : PluginConfig → σ → σ) (ctx : PluginParseContext σ) (hsettled : Settled ctx)
    (hcallback : ctx.callback = some callback) :
    (emitCurrentConfig
        ((configs.flatMap RenderedConfig.rows).foldl (processLine alloc) ctx)).userData
      = (configs.map RenderedConfig.config).foldl (fun data config => callback config data)
          (emitCurrentConfig ctx).userData := by
  induction configs generalizing ctx with
  | nil => rfl
  | cons c configs ih =>
      have hread := foldl_config halloc c (hshort c (by simp)) hsettled
      have hsettled' : Settled (c.rows.foldl (processLine alloc) ctx) := by
        intro hnone
        rw [hread.current] at hnone
        cases hnone
      have hemit : (emitCurrentConfig (c.rows.foldl (processLine alloc) ctx)).userData =
          callback c.config (emitCurrentConfig ctx).userData := by
        rw [emitCurrentConfig, if_neg (by simp [hread.current])]
        simp only [hread.callback, hcallback, hread.config, hread.userData]
      rw [List.flatMap_cons, List.foldl_append,
        ih (fun d hd => hshort d (List.mem_cons_of_mem c hd)) _ hsettled'
          (hread.callback.trans hcallback), hemit, List.map_cons, List.foldl_cons]

/-! ## Reading the file -/

/-- A row of a rendered list: only a filler may hold carriage returns. -/
structure ListRow (row : CString) : Prop where
  newline : '\n' ∉ row
  zero : '\x00' ∉ row
  filler : '\r' ∈ row → isCommentOrEmpty row = true

theorem ListRow.of_filler {row : CString} (h : FillerRow row) : ListRow row :=
  ⟨h.2.2, h.2.1, fun _ => h.1⟩

theorem ListRow.of_printable {row : CString} (h : Printable row) : ListRow row :=
  ⟨h.not_mem (by decide), h.not_mem (by decide), fun hr => absurd hr (h.not_mem (by decide))⟩

theorem printable_app {appId : CString} (happ : PlainValue appId) (n : ℕ) :
    Printable (indented n (appText appId)) := by
  have hkey : Printable "- app: ".toList := by decide
  exact printable_indented (hkey.append (printable_quote happ)) n

theorem printable_appVer {vs : Versions} (hvs : ∀ v ∈ vs.all, PlainValue v) (n : ℕ) :
    Printable (indented n ("app_ver: ".toList ++ vs.text)) := by
  have hkey : Printable "app_ver: ".toList := by decide
  exact printable_indented (hkey.append (printable_versions hvs)) n

theorem printable_plugins (n : ℕ) : Printable (indented n "plugins:".toList) :=
  printable_indented (by decide) n

theorem printable_path {plugin : CString} (hplugin : PlainValue plugin) (n : ℕ) :
    Printable (indented n (pathText plugin)) := by
  have hdash : Printable "- ".toList := by decide
  exact printable_indented (hdash.append (printable_quote hplugin)) n

theorem RenderedConfig.listRow (c : RenderedConfig) : ∀ row ∈ c.rows, ListRow row := by
  have hfiller := c.filler
  simp only [List.mem_append] at hfiller
  intro row hrow
  rw [rows, header, List.mem_append, List.mem_append, List.mem_cons, List.mem_append,
    List.mem_cons, List.mem_append, List.mem_singleton] at hrow
  rcases hrow with (h | rfl | h | rfl | h | rfl) | h
  · exact .of_filler (hfiller row (.inl (.inl (.inl h))))
  · exact .of_printable (printable_app c.plain_appId _)
  · exact .of_filler (hfiller row (.inl (.inl (.inr h))))
  · exact .of_printable (printable_appVer c.plain_appVer _)
  · exact .of_filler (hfiller row (.inl (.inr h)))
  · exact .of_printable (printable_plugins _)
  · rcases List.mem_flatMap.1 h with ⟨path, hpath, hmem⟩
    rcases List.mem_append.1 hmem with hbefore | hlast
    · exact .of_filler (hfiller row (.inr (List.mem_flatMap.2 ⟨path, hpath, hbefore⟩)))
    · rw [List.mem_singleton.1 hlast]
      exact .of_printable (printable_path (c.plain_path path hpath) _)

/-- The last row of a config is one of its own, not a filler. -/
theorem RenderedConfig.exists_last (c : RenderedConfig) :
    ∃ init last, c.rows = init ++ [last] ∧ '\r' ∉ last := by
  rcases List.eq_nil_or_concat c.paths with hnil | ⟨paths, path, hpaths⟩
  · refine ⟨c.beforeApp ++ indented c.appIndent (appText c.appId) ::
      (c.beforeVer ++ indented c.verIndent ("app_ver: ".toList ++ c.appVer.text) ::
        c.beforePlugins), _, ?_, (printable_plugins c.pluginsIndent).not_mem (by decide)⟩
    rw [rows, header, hnil, List.flatMap_nil, List.append_nil, List.append_assoc,
      List.cons_append, List.append_assoc, List.cons_append]
  · have hpath := c.plain_path path (by simp [hpaths])
    refine ⟨c.header ++ (paths.flatMap PathRow.rows ++ path.before), _, ?_,
      (printable_path hpath path.indent).not_mem (by decide)⟩
    rw [rows, hpaths, List.concat_eq_append, List.flatMap_append, List.flatMap_singleton,
      PathRow.rows, List.append_assoc, List.append_assoc]

namespace PluginDocument

theorem listRow (doc : PluginDocument) : ∀ row ∈ doc.rows, ListRow row := by
  intro row hrow
  rcases List.mem_append.1 hrow with h | h
  · rcases List.mem_flatMap.1 h with ⟨c, -, hmem⟩
    exact c.listRow row hmem
  · exact .of_filler (doc.filler row h).1

theorem last_row (doc : PluginDocument) : ∀ row ∈ doc.rows.getLast?, '\r' ∉ row := by
  intro row hrow
  rw [rows] at hrow
  rcases List.eq_nil_or_concat doc.trailing with htrail | ⟨init, line, htrail⟩
  · rw [htrail, List.append_nil] at hrow
    rcases List.eq_nil_or_concat doc.configs with hnil | ⟨configs, c, hconfigs⟩
    · rw [hnil] at hrow
      cases hrow
    · rcases c.exists_last with ⟨before, last, hrows, hlast⟩
      rw [hconfigs, List.concat_eq_append, List.flatMap_append, List.flatMap_singleton, hrows,
        ← List.append_assoc, List.getLast?_concat] at hrow
      rw [← Option.some.inj hrow]
      exact hlast
  · rw [htrail, List.concat_eq_append, ← List.append_assoc, List.getLast?_concat] at hrow
    rw [← Option.some.inj hrow]
    exact (doc.filler line (by simp [htrail])).2

/-- The file that holds a list, its last row closed by a newline or not. -/
def text (doc : PluginDocument) (closed : Bool) : List Char := joinRows closed doc.rows

end PluginDocument

/-- The lines of a file are its rows, but for a last row that is empty and not closed. -/
theorem lines_joinRows (closed : Bool) (rows : List CString) (hrows : ∀ row ∈ rows, '\n' ∉ row) :
    lines '\n' (joinRows closed rows) = rows ∨
      lines '\n' (joinRows closed rows) ++ [[]] = rows := by
  induction rows with
  | nil => exact .inl rfl
  | cons row rows ih =>
      have hrow := hrows row (by simp)
      cases rows with
      | nil =>
          cases closed with
          | true =>
              rw [joinRows, if_pos rfl, lines_append_sep '\n' hrow, lines_nil]
              exact .inl rfl
          | false =>
              rw [joinRows, if_neg (by simp)]
              by_cases hne : row = []
              · rw [hne, lines_nil]
                exact .inr rfl
              · rw [lines_of_not_mem '\n' hne hrow]
                exact .inl rfl
      | cons next rows =>
          rw [joinRows, lines_append_sep '\n' hrow]
          rcases ih fun r hr => hrows r (List.mem_cons_of_mem row hr) with hall | hbut
          · rw [hall]
            exact .inl rfl
          · rw [List.cons_append, hbut]
            exact .inr rfl

/-- An empty row makes no difference where empty lines are ignored. -/
theorem foldl_lines_joinRows {τ : Type} (step : τ → List Char → τ) (hnil : ∀ s, step s [] = s)
    (closed : Bool) {rows : List CString} (hrows : ∀ row ∈ rows, '\n' ∉ row) (s : τ) :
    (lines '\n' (joinRows closed rows)).foldl step s = rows.foldl step s := by
  rcases lines_joinRows closed rows hrows with hall | hbut
  · rw [hall]
  · have hfold := congrArg (List.foldl step s) hbut
    rwa [List.foldl_append, List.foldl_cons, hnil, List.foldl_nil] at hfold

theorem mem_lines_joinRows {closed : Bool} {rows : List CString}
    (hrows : ∀ row ∈ rows, '\n' ∉ row) :
    ∀ line ∈ lines '\n' (joinRows closed rows), line ∈ rows := by
  intro line hline
  rcases lines_joinRows closed rows hrows with hall | hbut
  · rwa [hall] at hline
  · rw [← hbut]
    exact List.mem_append_left _ hline

theorem getLast?_joinRows (closed : Bool) {rows : List CString}
    (hlast : ∀ row ∈ rows.getLast?, '\r' ∉ row) :
    (joinRows closed rows).getLast? ≠ some '\r' := by
  induction rows with
  | nil => simp [joinRows]
  | cons row rows ih =>
      cases rows with
      | nil =>
          have hrow := hlast row rfl
          cases closed with
          | true => simp [joinRows]
          | false =>
              intro h
              exact hrow (List.mem_of_getLast? h)
      | cons next rows =>
          rw [joinRows, getLast?_append_newline]
          split
          · simp
          · exact ih (by simpa [List.getLast?_cons_cons] using hlast)

/-- Carriage returns inside of a line that is skipped make no difference. -/
theorem isCommentOrEmpty_withoutReturns {line : CString} (h : isCommentOrEmpty line = true) :
    isCommentOrEmpty (withoutReturns line) = true := by
  induction line with
  | nil => rfl
  | cons c line ih =>
      by_cases hr : c = '\r'
      · rw [withoutReturns_cons, if_pos hr]
        apply ih
        rw [hr] at h
        exact h
      · rw [withoutReturns_cons, if_neg hr]
        rw [isCommentOrEmpty] at h ⊢
        by_cases hspace : isspace c = true
        · rw [List.dropWhile_cons_of_pos hspace] at h ⊢
          exact ih h
        · rw [List.dropWhile_cons_of_neg hspace] at h ⊢
          exact h

/-- What the loop makes of the buffer of a row. -/
theorem processLine_lineBuffer {row : CString} (hrow : ListRow row) (ctx : PluginParseContext σ) :
    processLine alloc ctx (cstring (lineBuffer (withoutReturns row))) =
      processLine alloc ctx row := by
  have hzero : '\x00' ∉ withoutReturns row := fun hmem => hrow.zero (List.mem_of_mem_filter hmem)
  rw [lineBuffer, cstring_padded hzero]
  by_cases hr : '\r' ∈ row
  · have hfiller := hrow.filler hr
    rw [processLine_filler hfiller, processLine_filler (isCommentOrEmpty_withoutReturns hfiller)]
  · rw [withoutReturns, List.filter_eq_self.2]
    intro c hc
    rw [decide_eq_true_iff]
    rintro rfl
    exact hr hc

/-- The loop reads the rows of a list one by one. -/
theorem foldl_expectedBuffers (doc : PluginDocument) (closed : Bool)
    (ctx : PluginParseContext σ) :
    (expectedBuffers (doc.text closed)).foldl
        (fun ctx buffer => processLine alloc ctx (cstring buffer)) ctx =
      doc.rows.foldl (processLine alloc) ctx := by
  have hnewline : ∀ row ∈ doc.rows, '\n' ∉ row := fun row hrow => (doc.listRow row hrow).newline
  have hnil : ∀ ctx : PluginParseContext σ,
      processLine alloc ctx (cstring (lineBuffer (withoutReturns []))) = ctx :=
    fun ctx => processLine_filler (by decide) ctx
  rw [expectedBuffers, List.foldl_map,
    show lines '\n' (doc.text closed) = lines '\n' (joinRows closed doc.rows) from rfl,
    foldl_lines_joinRows
      (fun ctx line => processLine alloc ctx (cstring (lineBuffer (withoutReturns line)))) hnil
      closed hnewline]
  apply List.foldl_ext
  intro ctx row hrow
  exact processLine_lineBuffer (doc.listRow row hrow) ctx

/-- Every config of a rendered list reaches the callback once and in file order. -/
theorem parsePlugin_text (halloc : ∀ n, alloc n = true) (doc : PluginDocument)
    (hshort : ∀ row ∈ doc.rows, row.length ≤ 1000) (closed : Bool)
    (callback : PluginConfig → σ → σ) (data : σ) :
    ∃ fuel ctx, parsePlugin alloc fuel (initPluginParseContext data) (some (doc.text closed))
        (some callback) data = .finished (ctx, 0) ∧
      ctx.userData = (doc.configs.map RenderedConfig.config).foldl
        (fun data config => callback config data) data := by
  let start : PluginParseContext σ := { initPluginParseContext data with callback := some callback }
  have hnewline : ∀ row ∈ doc.rows, '\n' ∉ row := fun row hrow => (doc.listRow row hrow).newline
  have hlines : ∀ line ∈ lines '\n' (doc.text closed),
      (withoutReturns line).length < maxLineLength := by
    intro line hline
    have hlen := hshort line (mem_lines_joinRows hnewline line hline)
    exact (length_withoutReturns_le line).trans_lt (Nat.lt_of_le_of_lt hlen (by decide))
  have hread := lineLoop_finished
    (fun ctx buffer => processLine alloc ctx (cstring buffer)) (doc.text closed).length
    (doc.text closed) (getLast?_joinRows closed doc.last_row) hlines
    ((doc.text closed).length + 1) 0 0 start (by omega) (by simp)
  have hfit : ∀ c ∈ doc.configs, ∀ row ∈ c.rows, row.length ≤ maxLineLength := by
    intro c hc row hrow
    have hmem : row ∈ doc.rows :=
      List.mem_append_left _ (List.mem_flatMap.2 ⟨c, hc, hrow⟩)
    exact (hshort row hmem).trans (by decide)
  refine ⟨(doc.text closed).length + 1,
    emitCurrentConfig (doc.rows.foldl (processLine alloc) start), ?_, ?_⟩
  · rw [foldl_expectedBuffers] at hread
    rw [parsePlugin]
    split
    · next h => cases hread.symm.trans h; rfl
    · next h => cases hread.symm.trans h
    · next h => cases hread.symm.trans h
  · have hfillers : ∀ line ∈ doc.trailing, FillerRow line := fun line hl => (doc.filler line hl).1
    rw [PluginDocument.rows, List.foldl_append, foldl_fillers hfillers]
    exact foldl_configs halloc doc.configs hfit callback start (fun _ => rfl) rfl

/-- A config for every game, as the file is shipped. -/
def everyGameConfig : RenderedConfig where
  beforeApp := []
  appIndent := 0
  appId := "all".toList
  beforeVer := []
  verIndent := 2
  appVer := .single "all".toList
  beforePlugins := []
  pluginsIndent := 2
  paths := [⟨[], 4, "/dev_hdd0/game_patch.sprx".toList⟩]
  plain_appId := by decide +kernel
  plain_appVer := by decide +kernel
  appVer_length := by decide +kernel
  plain_path := by decide +kernel
  filler := by decide +kernel

/-- A config for two versions of one game, with a comment and a blank line in it. -/
def oneGameConfig : RenderedConfig where
  beforeApp := ["# one game".toList]
  appIndent := 1
  appId := "BLUS00001".toList
  beforeVer := [[]]
  verIndent := 3
  appVer := .list ["01.00".toList, "01.01".toList]
  beforePlugins := []
  pluginsIndent := 3
  paths := [⟨[], 5, "/dev_hdd0/a.sprx".toList⟩, ⟨[], 5, "/dev_hdd0/b.sprx".toList⟩]
  plain_appId := by decide +kernel
  plain_appVer := by decide +kernel
  appVer_length := by decide +kernel
  plain_path := by decide +kernel
  filler := by decide +kernel

def twoConfigsDocument : PluginDocument where
  configs := [everyGameConfig, oneGameConfig]
  trailing := []
  filler := by decide +kernel

theorem parsePlugin_text_twoConfigs :
    ∃ fuel ctx, parsePlugin (fun _ => true) fuel (initPluginParseContext ([] : List PluginConfig))
        (some (twoConfigsDocument.text true)) (some fun config seen => seen ++ [config]) [] =
          .finished (ctx, 0) ∧
      ctx.userData = [everyGameConfig.config, oneGameConfig.config] := by
  rcases parsePlugin_text (fun _ => rfl) twoConfigsDocument (by decide +kernel) true
    (fun config seen => seen ++ [config]) [] with ⟨fuel, ctx, hrun, hdata⟩
  exact ⟨fuel, ctx, hrun, by rw [hdata]; rfl⟩

end GamePatch.Plugins
