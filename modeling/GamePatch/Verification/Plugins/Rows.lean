import GamePatch.Model.Plugins
import GamePatch.Verification.Parser.Rendering

/-! # The rows of a plugin list

What each kind of row of a rendered `game_plugins.yml` does to the context. -/

namespace GamePatch.Plugins

variable {σ : Type} {alloc : ℕ → Bool}

/-! ## Searching -/

theorem strstr_append {needle : CString} (hne : needle ≠ []) (rest : CString) :
    strstr needle (needle ++ rest) = some (needle ++ rest) := by
  cases needle with
  | nil => exact absurd rfl hne
  | cons c needle =>
      have hprefix : (c :: needle).isPrefixOf (c :: needle ++ rest) = true :=
        List.isPrefixOf_iff_prefix.2 (List.prefix_append _ _)
      rw [List.cons_append] at hprefix ⊢
      rw [strstr, if_pos hprefix]

theorem strncmp2_iff (s literal : CString) :
    strncmp2 s literal = true ↔ literal <+: s := by
  rw [strncmp2, strncmpZero, decide_eq_true_iff, List.take_length, List.prefix_iff_eq_take, eq_comm]

/-! ## Rows -/

theorem processLine_filler {line : CString} (h : isCommentOrEmpty line = true)
    (ctx : PluginParseContext σ) : processLine alloc ctx line = ctx := by
  rw [processLine, if_pos h]

theorem dropWhile_indented {text : CString} (h : Solid text) (n : ℕ) :
    (indented n text).dropWhile isspace = text := by
  rw [indented, dropWhile_indent, h.dropWhile]

/-- A row that starts a config. -/
def appText (appId : CString) : CString := "- app: ".toList ++ quote appId

def pathText (plugin : CString) : CString := "- ".toList ++ quote plugin

theorem solid_app (appId : CString) : Solid (appText appId) :=
  ⟨⟨'-', " app: ".toList ++ quote appId, rfl, rfl⟩,
    ⟨"- app: \"".toList ++ appId, '"', rfl, rfl⟩⟩

theorem solid_path (plugin : CString) : Solid (pathText plugin) :=
  ⟨⟨'-', ' ' :: quote plugin, rfl, rfl⟩,
    ⟨"- \"".toList ++ plugin, '"', rfl, rfl⟩⟩

theorem solid_plugins : Solid "plugins:".toList :=
  ⟨⟨'p', "lugins:".toList, rfl, rfl⟩, ⟨"plugins".toList, ':', rfl, rfl⟩⟩

/-- The row of a new config hands over the one before. -/
theorem processLine_app {appId : CString} (happ : PlainValue appId) (n : ℕ)
    (ctx : PluginParseContext σ) :
    processLine alloc ctx (indented n (appText appId)) =
      { emitCurrentConfig ctx with
        hasCurrentConfig := true
        inPluginsSection := false
        currentIndent := n
        currentConfig := { (emitCurrentConfig ctx).currentConfig with appId := some appId } } := by
  have hsolid := solid_app appId
  have hcomment := hsolid.not_comment (by show some '-' ≠ some '#'; decide) n
  have hprefix : strncmp2 (appText appId) "- app:".toList = true := by
    rw [strncmp2_iff]
    exact ⟨' ' :: quote appId, rfl⟩
  have hquoted : parseQuotedString ((appText appId).drop 6) = some appId :=
    parseQuotedString_append (p := [' ']) (by decide) happ.quotable []
  have hindent := hsolid.getIndentLevel n
  have hcontent := dropWhile_indented hsolid n
  rw [processLine, if_neg (by rw [indented, hcomment]; simp)]
  simp only [hcontent, hprefix, if_true, hquoted]
  rw [indented, hindent]

/-- A row starts a config only with these characters. -/
theorem not_app_of_ne {c : Char} (hc : c ≠ '-') (rest : CString) :
    strncmp2 (c :: rest) "- app:".toList = false := by
  rw [Bool.eq_false_iff, Ne, strncmp2_iff]
  intro h
  rcases h with ⟨t, ht⟩
  exact hc (List.cons.inj ht).1.symm

theorem setAppVersions_text {vs : Versions} (hvs : ∀ v ∈ vs.all, PlainValue v)
    (hcount : vs.all.length ≤ maxArrayLength)
    (hfits : ("app_ver: ".toList ++ vs.text).length ≤ maxLineLength) {config : PluginConfig}
    (hfresh : config.appVersions = []) :
    setAppVersions config ("app_ver: ".toList ++ vs.text) (' ' :: vs.text) =
      { config with isAppVerList := vs.isList, appVersions := vs.all } := by
  rw [setAppVersions, isListValue_text]
  cases vs with
  | single v =>
      have hquoted : parseQuotedString (' ' :: quote v) = some v :=
        parseQuotedString_append (p := [' ']) (by decide) (hvs v List.mem_cons_self).quotable []
      rw [Versions.text, hquoted]
      rfl
  | list vs =>
      have hitems : parseStringList ("app_ver: ".toList ++ listText vs) maxArrayLength = vs :=
        parseItems_listText (by decide) (fun v hv => (hvs v hv).quotable) hcount hfits
      rw [Versions.text, hitems]
      by_cases hnil : vs = []
      · subst hnil
        rw [show (Versions.list []).all = config.appVersions from hfresh.symm]
        rfl
      · have hpos : 0 < vs.length := List.length_pos_iff.2 hnil
        rw [if_pos hpos]
        rfl

theorem processLine_appVer {vs : Versions} (hvs : ∀ v ∈ vs.all, PlainValue v)
    (hcount : vs.all.length ≤ maxArrayLength) {n : ℕ}
    (hfits : (indented n ("app_ver: ".toList ++ vs.text)).length ≤ maxLineLength)
    {ctx : PluginParseContext σ} (hconfig : ctx.hasCurrentConfig = true)
    (hfresh : ctx.currentConfig.appVersions = []) :
    processLine alloc ctx (indented n ("app_ver: ".toList ++ vs.text)) =
      { ctx with
        currentConfig :=
          { ctx.currentConfig with isAppVerList := vs.isList, appVersions := vs.all } } := by
  have hsolid := solid_appVer vs
  have hcomment := hsolid.not_comment (by show some 'a' ≠ some '#'; decide) n
  have happ : strncmp2 ("app_ver: ".toList ++ vs.text) "- app:".toList = false :=
    not_app_of_ne (by decide) _
  have hfound : strstr "app_ver:".toList ("app_ver: ".toList ++ vs.text) =
      some ("app_ver: ".toList ++ vs.text) := strstr_append (by decide) (' ' :: vs.text)
  have hdrop : ("app_ver: ".toList ++ vs.text).drop 8 = ' ' :: vs.text := rfl
  have hshort := (length_le_indented n _).trans hfits
  have hset := setAppVersions_text hvs hcount hshort hfresh
  rw [processLine, if_neg (by rw [indented, hcomment]; simp)]
  simp only [dropWhile_indented hsolid n, happ, Bool.false_eq_true, if_false, hfound,
    Option.isSome_some, hconfig, and_self, if_true, Option.getD_some, hdrop, hset]

theorem processLine_plugins (n : ℕ) {ctx : PluginParseContext σ}
    (hconfig : ctx.hasCurrentConfig = true) :
    processLine alloc ctx (indented n "plugins:".toList) =
      { ctx with inPluginsSection := true, currentIndent := n } := by
  have hcomment := solid_plugins.not_comment (by decide) n
  have hindent := solid_plugins.getIndentLevel n
  have happ : strncmp2 "plugins:".toList "- app:".toList = false := by decide
  have hver : (strstr "app_ver:".toList "plugins:".toList).isSome = false := by decide
  have hfound : (strstr "plugins:".toList "plugins:".toList).isSome = true := by decide
  rw [processLine, if_neg (by rw [indented, hcomment]; simp)]
  simp only [dropWhile_indented solid_plugins n, happ, hver, hfound, hconfig, Bool.false_eq_true,
    if_false, false_and, and_self, if_true]
  rw [indented, hindent]

theorem processLine_path {plugin : CString} (hplugin : PlainValue plugin) (n : ℕ)
    {ctx : PluginParseContext σ} (hconfig : ctx.hasCurrentConfig = true)
    (hsection : ctx.inPluginsSection = true) (halloc : ∀ n, alloc n = true) :
    processLine alloc ctx (indented n (pathText plugin)) =
      { ctx with
        currentConfig := { ctx.currentConfig with plugins := ctx.currentConfig.plugins ++ [plugin] }
        allocs := ctx.allocs + 1 } := by
  have hsolid := solid_path plugin
  have hcomment := hsolid.not_comment (by show some '-' ≠ some '#'; decide) n
  have hcolon : ':' ∉ pathText plugin := by
    have hquote := not_mem_quote hplugin (c := ':') (by decide) (by decide)
    show ':' ∉ '-' :: ' ' :: quote plugin
    simpa using hquote
  have happ : strncmp2 (pathText plugin) "- app:".toList = false := by
    rw [Bool.eq_false_iff, Ne, strncmp2_iff]
    intro h
    exact hcolon (h.subset (by decide))
  have hver : (strstr "app_ver:".toList (pathText plugin)).isSome = false :=
    contains_of_no_colon hcolon "app_ver".toList
  have hplugins : (strstr "plugins:".toList (pathText plugin)).isSome = false :=
    contains_of_no_colon hcolon "plugins".toList
  have hhead : (pathText plugin).head? = some '-' := rfl
  have htail : (pathText plugin).tail.dropWhile isspace = quote plugin := rfl
  have hquoted : parseQuotedString (quote plugin) = some plugin :=
    parseQuotedString_append (p := []) List.not_mem_nil hplugin.quotable []
  rw [processLine, if_neg (by rw [indented, hcomment]; simp)]
  simp only [dropWhile_indented hsolid n, happ, hver, hplugins, hconfig, hsection, hhead, htail,
    Bool.false_eq_true, if_false, false_and, and_self, if_true, addPlugin, hquoted,
    halloc ctx.allocs, Bool.true_eq_false]

/-! ## Rows without control characters -/

def Printable (text : CString) : Prop := ∀ c ∈ text, 32 ≤ c.toNat

instance (text : CString) : Decidable (Printable text) :=
  List.decidableBAll (fun c : Char => 32 ≤ c.toNat) text

theorem Printable.append {a b : CString} (ha : Printable a) (hb : Printable b) :
    Printable (a ++ b) := by
  intro c hc
  rcases List.mem_append.1 hc with h | h
  · exact ha c h
  · exact hb c h

theorem Printable.not_mem {text : CString} (h : Printable text) {c : Char} (hc : c.toNat < 32) :
    c ∉ text := fun hmem => Nat.not_lt.2 (h c hmem) hc

theorem printable_quote {v : CString} (hv : PlainValue v) : Printable (quote v) := by
  have hopen : Printable ['"'] := by decide
  exact (hopen.append fun c hc => (hv.quotable c hc).2.1).append hopen

theorem printable_itemsText {vs : List CString} (hvs : ∀ v ∈ vs, PlainValue v) :
    Printable (itemsText vs) := by
  induction vs using itemsText.induct with
  | case1 => exact fun c hc => absurd hc List.not_mem_nil
  | case2 v => exact printable_quote (hvs v (by simp))
  | case3 v w vs ih =>
      have hcomma : Printable ", ".toList := by decide
      exact ((printable_quote (hvs v (by simp))).append hcomma).append
        (ih fun u hu => hvs u (List.mem_cons_of_mem v hu))

theorem printable_versions {vs : Versions} (hvs : ∀ v ∈ vs.all, PlainValue v) :
    Printable vs.text := by
  cases vs with
  | single v => exact printable_quote (hvs v List.mem_cons_self)
  | list vs =>
      have hopen : Printable "[ ".toList := by decide
      have hclose : Printable " ]".toList := by decide
      exact (hopen.append (printable_itemsText hvs)).append hclose

theorem printable_indented {text : CString} (h : Printable text) (n : ℕ) :
    Printable (indented n text) := by
  refine Printable.append ?_ h
  intro c hc
  rw [(List.mem_replicate.1 hc).2]
  decide

end GamePatch.Plugins
