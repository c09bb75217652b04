import GamePatch.Model.LineReader
import GamePatch.Model.Patch

/-! # The plugin list

`plugins.c` reads `game_plugins.yml` line by line and hands each config to a
callback when the next one starts, or at the end of the file. -/

namespace GamePatch

/-- A config. The lengths of its lists are `app_ver_count` and `plugin_count`. -/
structure PluginConfig where
  appId : Option CString
  appVersions : List CString
  isAppVerList : Bool
  plugins : List CString
  deriving DecidableEq, Repr, Inhabited

/-- A config after `memset`. -/
def PluginConfig.empty : PluginConfig := ⟨none, [], false, []⟩

/-- The context, with the callback acting on the user data `σ`. `allocs` counts the
allocations of plugin tables so far. -/
structure PluginParseContext (σ : Type) where
  callback : Option (PluginConfig → σ → σ)
  userData : σ
  currentConfig : PluginConfig
  inPluginsSection : Bool
  hasCurrentConfig : Bool
  currentIndent : ℕ
  allocs : ℕ

namespace Plugins

open LineReader

variable {σ : Type}

/-- `init_plugin_parse_context`. -/
def initPluginParseContext (userData : σ) : PluginParseContext σ where
  callback := none
  userData := userData
  currentConfig := .empty
  inPluginsSection := false
  hasCurrentConfig := false
  currentIndent := 0
  allocs := 0

def emitCurrentConfig (ctx : PluginParseContext σ) : PluginParseContext σ :=
  if ctx.hasCurrentConfig = false then ctx
  else
    { ctx with
      userData := match ctx.callback with
        | none => ctx.userData
        | some callback => callback ctx.currentConfig ctx.userData
      currentConfig := .empty
      hasCurrentConfig := false
      inPluginsSection := false }

/-- `add_plugin` on the current config; `alloc n` is the outcome of the `n`-th
allocation of a table. -/
def addPlugin (alloc : ℕ → Bool) (ctx : PluginParseContext σ) (pluginPath : CString) :
    PluginParseContext σ :=
  match parseQuotedString pluginPath with
  | none => ctx
  | some pluginStr =>
      if alloc ctx.allocs = false then { ctx with allocs := ctx.allocs + 1 }
      else
        { ctx with
          currentConfig :=
            { ctx.currentConfig with plugins := ctx.currentConfig.plugins ++ [pluginStr] }
          allocs := ctx.allocs + 1 }

/-- The `app_ver:` branch; `verStart` is what follows the key. -/
def setAppVersions (config : PluginConfig) (content verStart : CString) : PluginConfig :=
  if isListValue content then
    let versions := parseStringList content maxArrayLength
    let config := { config with isAppVerList := true }
    if 0 < versions.length then { config with appVersions := versions } else config
  else
    let config := { config with isAppVerList := false }
    match parseQuotedString verStart with
    | none => config
    | some version => { config with appVersions := [version] }

/-- `process_line`. -/
def processLine (alloc : ℕ → Bool) (ctx : PluginParseContext σ) (line : CString) :
    PluginParseContext σ :=
  if isCommentOrEmpty line then ctx
  else
    let indent := getIndentLevel line
    let content := line.dropWhile isspace
    if strncmp2 content "- app:".toList then
      let ctx := { emitCurrentConfig ctx with
        hasCurrentConfig := true
        inPluginsSection := false
        currentIndent := indent }
      match parseQuotedString (content.drop 6) with
      | none => ctx
      | some appStr => { ctx with currentConfig := { ctx.currentConfig with appId := some appStr } }
    else if (strstr "app_ver:".toList content).isSome ∧ ctx.hasCurrentConfig then
      let verStart := ((strstr "app_ver:".toList content).getD []).drop 8
      { ctx with currentConfig := setAppVersions ctx.currentConfig content verStart }
    else if (strstr "plugins:".toList content).isSome ∧ ctx.hasCurrentConfig then
      { ctx with inPluginsSection := true, currentIndent := indent }
    else if ctx.inPluginsSection ∧ ctx.hasCurrentConfig ∧ content.head? = some '-' then
      addPlugin alloc ctx (content.tail.dropWhile isspace)
    else ctx

/-- `parse_plugin` on a file, absent when it cannot be opened. The result comes with
the return value. -/
def parsePlugin (alloc : ℕ → Bool) (fuel : ℕ) (ctx : PluginParseContext σ)
    (file : Option (List Char)) (callback : Option (PluginConfig → σ → σ)) (userData : σ) :
    LoopResult (PluginParseContext σ × ℤ) :=
  let ctx := { ctx with callback := callback, userData := userData }
  match file with
  | none => .finished (ctx, -1)
  | some content =>
      match readLines (fun ctx buffer => processLine alloc ctx (cstring buffer)) fuel content
          ctx with
      | .finished ctx => .finished (emitCurrentConfig ctx, 0)
      | .overflow => .overflow
      | .running => .running

end Plugins

/-! ## Loading the plugins of a game -/

/-- `LoadPluginData`, with the paths handed to `sys_prx_load_module` so far and the
modules handed to `sys_prx_start_module` with its results. -/
structure LoadPluginData where
  gameInfo : Option GamePatchInfo
  foundMatch : Bool
  loads : List CString
  starts : List (ℤ × ℤ)
  deriving DecidableEq, Repr

namespace Plugins

open LineReader

/-- What `sys_prx_load_module` and `sys_prx_start_module` return at their `n`-th call. -/
structure Prx where
  loadModule : ℕ → ℤ
  startModule : ℕ → ℤ

/-- The loop body of `load_plugin_callback` over the plugins of a config. -/
def loadPlugin (prx : Prx) (data : LoadPluginData) (path : CString) : LoadPluginData :=
  let id := prx.loadModule data.loads.length
  let data := { data with loads := data.loads ++ [path] }
  if id < 0 then data
  else { data with starts := data.starts ++ [(id, prx.startModule data.starts.length)] }

/-- `load_plugin_callback`. -/
def loadPluginCallback (prx : Prx) (config : PluginConfig) (data : LoadPluginData) :
    LoadPluginData :=
  match config.appId, data.gameInfo with
  | some appId, some gameInfo =>
      if strncmp2 appId "all".toList || appId = gameInfo.titleid then
        let versionMatch := config.appVersions.any fun currAppVer =>
          strncmp2 currAppVer "all".toList || currAppVer = gameInfo.appVer
        if versionMatch then
          config.plugins.foldl (loadPlugin prx) { data with foundMatch := true }
        else data
      else data
  | _, _ => data

/-- `load_plugins`. -/
def loadPlugins (alloc : ℕ → Bool) (fuel : ℕ) (file : Option (List Char))
    (callback : PluginConfig → LoadPluginData → LoadPluginData) (data : LoadPluginData) :
    LoopResult (LoadPluginData × ℤ) :=
  match parsePlugin alloc fuel (initPluginParseContext data) file (some callback) data with
  | .finished (ctx, result) =>
      if result ≠ 0 then .finished (ctx.userData, -1)
      else .finished (ctx.userData, if ctx.userData.foundMatch then 0 else -1)
  | .overflow => .overflow
  | .running => .running

end Plugins

end GamePatch
