import GamePatch.Model.GameInfo
import GamePatch.Model.Plugins

/-! # From the start of the shell to the plugins of a game

`make_folders` of the shell writes the plugin list if there is none, and the bootloader
in a game's process reads the list and loads what it names for that game. -/

namespace GamePatch.Bootloader

open GameInfo Plugins LineReader

/-- `PLUGINS_PATH` -/
def pluginsPath : CString := "/dev_hdd0/game_plugins.yml".toList

/-- `BOOTLOADER_PATH` -/
def bootloaderPath : CString := "/dev_hdd0/game_plugin_bootloader.sprx".toList

/-- `GAME_PATCH_NOTIFY_MSG_FILE` -/
def notifyMsgFile : CString := "/dev_hdd0/game_patch/work/notify.bin".toList

/-- `game_plugins_yml_data` -/
def gamePluginsYmlData : List Char :=
  ("- app: \"all\"\n  app_ver: \"all\"\n  plugins:\n    - \"/dev_hdd0/game_patch.sprx\"\n").toList

/-! ## `make_folders` -/

/-- What the system calls of `write_default_blob` come to: whether `stat` answers for a
file that is there, whether the file is opened, and how many bytes reach it. -/
structure BlobCalls where
  stat : Bool
  opened : Bool
  written : ℕ
  deriving DecidableEq, Repr

/-- `file_exists`. -/
def fileExists (disk : Disk CString Char) (path : CString) (stat : Bool) : ℤ :=
  if stat ∧ (disk.find path).isSome then 0 else -1

/-- `write_default_blob`. -/
def writeDefaultBlob (path : CString) (data : List Char) (calls : BlobCalls)
    (disk : Disk CString Char) : Disk CString Char :=
  if fileExists disk path calls.stat ≠ 0 then
    if calls.opened then
      let (file, disk) := disk.create path
      disk.writeAt file 0 (data.take calls.written)
    else disk
  else disk

/-- `make_folders`, with the calls of `write_default_blob` for the list and for the
bootloader. Its folders are not part of the disk. -/
def makeFolders (gamePluginBootloaderSprxData : List Char) (calls calls' : BlobCalls)
    (disk : Disk CString Char) : Disk CString Char :=
  let disk := (disk.unlink notifyMsgFile).unlink gameInfoPath
  let disk := writeDefaultBlob pluginsPath gamePluginsYmlData calls disk
  writeDefaultBlob bootloaderPath gamePluginBootloaderSprxData calls' disk

/-- The console is started: nothing but the disk is left, and `make_folders` runs. -/
def boot (gamePluginBootloaderSprxData : List Char) (s : GameInfo.State)
    (calls : BlobCalls × BlobCalls) : GameInfo.State where
  disk := makeFolders gamePluginBootloaderSprxData calls.1 calls.2 s.disk
  writing := none
  descriptors := fun _ => none
  load := none
  loads := []

/-! ## `parse_load_file` -/

/-- `parse_load_file` with what `load_game_info` has returned: what it has loaded, if it
got that far, and its return value. -/
def parseLoadFile (alloc : ℕ → Bool) (fuel : ℕ) (prx : Prx) (filename : CString)
    (disk : CString → Option (List Char)) (loaded : ℤ × List Char) :
    LoopResult (Option LoadPluginData × ℤ) :=
  if filename = [] then .finished (none, -1)
  else if loaded.1 = 0 then .finished (none, -1)
  else
    match loadPlugins alloc fuel (disk filename) (loadPluginCallback prx)
        ⟨some (infoOf loaded.2), false, [], []⟩ with
    | .finished (data, _) => .finished (some data, 0)
    | .overflow => .overflow
    | .running => .running

end GamePatch.Bootloader
