import GamePatch.Model.MyString
import GamePatch.Model.Settings

/-! # Patches and their metadata

The data of `patch.h`, the hash under which a patch is switched on or off, and
the metadata computed for one version of a patch. -/

namespace GamePatch

open Words

/-- What a run depends on besides its input lines. -/
structure Env where
  /-- the console build, `__PRX__` -/
  prx : Bool
  /-- the width of `size_t` in bits -/
  sizeBits : ℕ
  /-- whether a plain `char` is signed -/
  charSigned : Bool
  /-- whether the host's `strdup` gives null for null instead of crashing -/
  strdupNull : Bool
  /-- the outcome of the `n`-th allocation of an array -/
  alloc : ℕ → Bool
  /-- whether `malloc` of a number of bytes succeeds in the settings reader -/
  malloc : ℕ → Bool
  /-- the byte order of the settings files -/
  order : ByteOrder
  /-- what the header variable of the console reader holds before it is read -/
  staleHeader : Settings.Bytes
  /-- the settings files by path -/
  files : CString → Option Settings.Bytes
  /-- `argv[0]` of the game, if `g_args` is set -/
  argv0 : Option CString

structure GamePatchInfo where
  titleid : CString
  appVer : CString
  deriving DecidableEq, Repr, Inhabited

/-- The block being read. `appVer` is absent when its array is not allocated;
its length is `app_ver_count`. -/
structure Patch where
  title : Option CString
  name : Option CString
  notes : Option CString
  author : Option CString
  version : Option CString
  appBin : Option CString
  appVer : Option (List CString)
  isAppVerList : Bool
  deriving DecidableEq, Repr, Inhabited

structure PatchMetadata where
  hash : UInt32
  patchNumber : ℕ
  title : Option CString
  name : Option CString
  author : Option CString
  version : Option CString
  appBin : Option CString
  appVer : Option CString
  matchesGame : Bool
  enabled : Bool
  isPrx : Bool
  deriving DecidableEq, Repr, Inhabited

/-- The parameters stored; their number is `param_count`. -/
structure PatchEntry where
  params : List CString
  deriving DecidableEq, Repr, Inhabited

structure PatchData where
  metadata : PatchMetadata
  entries : List PatchEntry
  deriving DecidableEq, Repr, Inhabited

def minPatchParams : ℕ := 3

def maxPatchParams : ℕ := 8

/-- `parse_patch_entry`. -/
def parsePatchEntry (str : CString) : PatchEntry := ⟨parseItems maxPatchParams str⟩

namespace Env

/-- A value stored in a `size_t`. -/
def sizeT (env : Env) (n : ℕ) : ℕ := n % 2 ^ env.sizeBits

/-- `str_dup`. The console build hands null on; the host calls `strdup`. The
outer `none` is a crash. -/
def strDup (env : Env) (str : Option CString) : Option (Option CString) :=
  if str = none ∧ env.prx = false ∧ env.strdupNull = false then none else some str

def strstr (env : Env) (haystack needle : CString) : Bool :=
  if env.prx then (GamePatch.strstr needle haystack).isSome
  else (strstrHost needle haystack).isSome

/-- `read_patch_state`; `none` when it leaves its record buffer. -/
def readPatchState (env : Env) (filename : CString) (hash : UInt32) : Option ℤ :=
  if env.prx then
    Settings.readPatchStatePrx env.order env.malloc env.staleHeader (env.files filename) hash
  else Settings.readPatchState env.order env.malloc (env.files filename) hash

/-- A `char` promoted to `int` and converted to `uint32_t`. -/
def charValue (env : Env) (c : Char) : UInt32 :=
  if env.charSigned ∧ 128 ≤ c.toNat then UInt32.ofNat (c.toNat + 0xffffff00)
  else UInt32.ofNat c.toNat

/-- `stringid`. -/
def stringid (env : Env) (str : CString) (base : UInt32) : UInt32 :=
  str.foldl (fun base c => 0x01000193 * (base ^^^ env.charValue c))
    (if base = 0 then 0x811c9dc5 else base)

end Env

/-- A `size_t` printed with `"%ld"`. -/
def formatSize (n : ℕ) : CString :=
  formatLong (if n < 2 ^ 63 then (n : ℤ) else (n : ℤ) - 2 ^ 64)

/-- `calculate_patch_hash`; absent strings count as empty ones. -/
def calculatePatchHash (env : Env) (patchNumber : ℕ) (titleid : CString) (patch : Patch)
    (appVer : Option CString) : UInt32 :=
  [titleid, patch.title.getD [], patch.name.getD [], patch.author.getD [],
    patch.version.getD [], patch.appBin.getD [], appVer.getD []].foldl
    (fun hash str => env.stringid str hash) (env.stringid (formatSize patchNumber) 0x811c9dc5)

def patchMatchesGame (game : GamePatchInfo) (appVer : Option CString) : Bool :=
  match appVer with
  | some v => if game.appVer ≠ [] then decide (game.appVer = v) else false
  | none => false

/-- `GAME_PATCH_SETTINGS "/%s.bin"`, cut to the path buffer. -/
def settingsPath (titleid : CString) : CString :=
  ("/dev_hdd0/game_patch/settings/".toList ++ titleid ++ ".bin".toList).take 259

def prxList : List CString := [".prx".toList, ".PRX".toList, ".sprx".toList, ".SPRX".toList]

/-- `process_patch_metadata_for_app_ver` for block `number` of a file. It fails
where the code hands a null pointer to `strstr` or to the host's `strdup`, or
where the settings lookup leaves its buffer. -/
def processPatchMetadata (env : Env) (game : GamePatchInfo) (number : ℕ) (patch : Patch)
    (appVer : Option CString) (appVerIndex : ℕ) : Option PatchMetadata := do
  let patchNumber := env.sizeT (number * 100 + appVerIndex)
  let hash := calculatePatchHash env patchNumber game.titleid patch appVer
  let title ← env.strDup patch.title
  let name ← env.strDup patch.name
  let author ← env.strDup patch.author
  let version ← env.strDup patch.version
  let appBin ← env.strDup patch.appBin
  let appVer' ← env.strDup appVer
  let bin ← appBin
  let isExeMatched := match env.argv0 with
    | none => false
    | some exe => env.strstr exe bin
  let state ← env.readPatchState (settingsPath game.titleid) hash
  return {
    hash, patchNumber, title, name, author, version, appBin,
    appVer := appVer'
    matchesGame := patchMatchesGame game appVer
    enabled := decide (state = 1) && isExeMatched
    isPrx := prxList.any (env.strstr bin) }

end GamePatch
