import GamePatch.Model.Bootloader
import GamePatch.Verification.GameInfo
import GamePatch.Verification.Plugins.Selection

/-! # From the plugin list to the plugins loaded

The shell writes the list once and leaves it alone afterwards, the record of the game
goes to another file, and the bootloader loads what the list has for that game. -/

namespace GamePatch.Bootloader

open GameInfo Plugins LineReader

/-! ## The files of the shell -/

variable {disk : Disk CString Char} {path other : CString} {data content : List Char}
  {calls : BlobCalls}

theorem unshared_writeDefaultBlob (h : disk.Unshared) (path : CString) (data : List Char)
    (calls : BlobCalls) : (writeDefaultBlob path data calls disk).Unshared := by
  rw [writeDefaultBlob]
  split
  · split
    · exact h.create path
    · exact h
  · exact h

theorem find_writeDefaultBlob_of_ne (h : disk.Unshared) (hne : other ≠ path) (data : List Char)
    (calls : BlobCalls) : (writeDefaultBlob path data calls disk).find other = disk.find other := by
  have hcreated := disk.created path
  rw [writeDefaultBlob]
  split
  · split
    · refine (Disk.find_writeAt_of_ne fun hother => ?_).trans (h.find_create_of_ne hne)
      exact hne (h.create path other path _ hother hcreated.named)
    · rfl
  · rfl

/-- A file that is there is left alone, whatever is in it. -/
theorem writeDefaultBlob_of_found (hfile : disk.find path = some content)
    (hstat : calls.stat = true) : writeDefaultBlob path data calls disk = disk := by
  have hexists : fileExists disk path calls.stat = 0 := by
    rw [fileExists, hstat, hfile]
    rfl
  rw [writeDefaultBlob, hexists]
  rfl

theorem find_writeDefaultBlob_of_missing (hfile : disk.find path = none)
    (hopened : calls.opened = true) (hwritten : data.length ≤ calls.written) :
    (writeDefaultBlob path data calls disk).find path = some data := by
  have hcreated := disk.created path
  have hmissing : fileExists disk path calls.stat ≠ 0 := by
    rw [fileExists, hfile]
    simp
  rw [writeDefaultBlob, if_pos hmissing, if_pos hopened, List.take_of_length_le hwritten]
  have hlength : ((disk.create path).2.content (disk.create path).1).length = 0 :=
    congrArg List.length hcreated.empty
  have hend : ((disk.create path).2.writeAt (disk.create path).1 0 data).content
      (disk.create path).1 = data := by
    rw [Disk.writeAt_end hlength, hcreated.empty, List.nil_append]
  exact (congrArg (Option.map _) hcreated.named).trans (congrArg some hend)

/-- The list is there, or the first start of the console writes all of the default. -/
def Listed (disk : Disk CString Char) (content : List Char)
    (boots : List (BlobCalls × BlobCalls)) : Prop :=
  disk.find pluginsPath = some content ∨
    disk.find pluginsPath = none ∧ content = gamePluginsYmlData ∧
      ∃ first rest, boots = first :: rest ∧ first.1.opened = true ∧
        content.length ≤ first.1.written

variable {sprx : List Char} {s : State}

theorem boot_disk (sprx : List Char) (calls : BlobCalls × BlobCalls) (h : s.disk.Unshared) :
    (boot sprx s calls).disk.Unshared ∧
      (boot sprx s calls).disk.find pluginsPath =
        (writeDefaultBlob pluginsPath gamePluginsYmlData calls.1
          ((s.disk.unlink notifyMsgFile).unlink gameInfoPath)).find pluginsPath := by
  have hunshared := unshared_writeDefaultBlob ((h.unlink notifyMsgFile).unlink gameInfoPath)
    pluginsPath gamePluginsYmlData calls.1
  exact ⟨unshared_writeDefaultBlob hunshared _ _ _,
    find_writeDefaultBlob_of_ne hunshared (by decide) _ _⟩

theorem find_unlinked (d : Disk CString Char) :
    ((d.unlink notifyMsgFile).unlink gameInfoPath).find pluginsPath = d.find pluginsPath := by
  rw [Disk.find_unlink_of_ne (by decide), Disk.find_unlink_of_ne (by decide)]

/-- No start of the console changes a list that is there. -/
theorem boot_keeps {calls : BlobCalls × BlobCalls} (h : s.disk.Unshared)
    (hstat : calls.1.stat = true) (hfile : s.disk.find pluginsPath = some content) :
    (boot sprx s calls).disk.Unshared ∧
      (boot sprx s calls).disk.find pluginsPath = some content := by
  rcases boot_disk sprx calls h with ⟨hunshared, hfind⟩
  rw [← find_unlinked] at hfile
  rw [writeDefaultBlob_of_found hfile hstat] at hfind
  exact ⟨hunshared, hfind.trans hfile⟩

theorem boots_keep (sprx : List Char) {boots : List (BlobCalls × BlobCalls)} (h : s.disk.Unshared)
    (hstat : ∀ calls ∈ boots, calls.1.stat = true) (hfile : Listed s.disk content boots) :
    (boots.foldl (boot sprx) s).disk.Unshared ∧
      (boots.foldl (boot sprx) s).disk.find pluginsPath = some content := by
  induction boots generalizing s with
  | nil =>
      rcases hfile with hfile | ⟨-, -, first, rest, hboots, -⟩
      · exact ⟨h, hfile⟩
      · cases hboots
  | cons calls boots ih =>
      rw [List.forall_mem_cons] at hstat
      have hnext : (boot sprx s calls).disk.Unshared ∧
          (boot sprx s calls).disk.find pluginsPath = some content := by
        rcases hfile with hfile | ⟨hmissing, rfl, first, rest, hboots, hopened, hwritten⟩
        · exact boot_keeps h hstat.1 hfile
        · rcases List.cons.inj hboots with ⟨rfl, -⟩
          rcases boot_disk sprx calls h with ⟨hunshared, hfind⟩
          rw [← find_unlinked] at hmissing
          exact ⟨hunshared,
            hfind.trans (find_writeDefaultBlob_of_missing hmissing hopened hwritten)⟩
      exact ih hnext.1 hstat.2 (.inl hnext.2)

theorem boots_idle (sprx : List Char) (s : State) {boots : List (BlobCalls × BlobCalls)}
    (hboots : boots ≠ []) :
    (boots.foldl (boot sprx) s).writing = none ∧ (boots.foldl (boot sprx) s).load = none ∧
      (boots.foldl (boot sprx) s).loads = [] ∧
      ∀ fd, (boots.foldl (boot sprx) s).descriptors fd = none := by
  obtain ⟨front, calls, rfl⟩ := List.eq_nil_or_concat boots |>.resolve_left hboots
  rw [List.concat_eq_append, List.foldl_append]
  exact ⟨rfl, rfl, rfl, fun _ => rfl⟩

/-! ## The record of the game -/

/-- What the steps of the shell and of the game leave alone: a file of another name. -/
structure Keeps (path : CString) (content : List Char) (s : State) : Prop where
  unshared : s.disk.Unshared
  found : s.disk.find path = some content
  apart : ∀ w, s.writing = some w → s.disk.directory path ≠ some w.file

theorem Keeps.step (h : Keeps path content s) (hne : path ≠ gameInfoPath) {a : Step} {s' : State}
    (hstep : step s a = some s') : Keeps path content s' := by
  cases a with
  | makeFolders =>
      obtain rfl := Option.some.inj hstep
      have hsame : (s.disk.unlink gameInfoPath).directory path = s.disk.directory path :=
        Function.update_of_ne hne _ _
      exact ⟨h.unshared.unlink _, (Disk.find_unlink_of_ne hne).trans h.found,
        fun w hw => hsame ▸ h.apart w hw⟩
  | loadPluginMain record opened =>
      have hcreated := s.disk.created gameInfoPath
      rw [GameInfo.step] at hstep
      split at hstep
      · cases hstep
      · split at hstep
        · obtain rfl := Option.some.inj hstep
          refine ⟨h.unshared.create _, (h.unshared.find_create_of_ne hne).trans h.found, ?_⟩
          rintro w hw hpath
          obtain rfl := Option.some.inj hw
          exact hne (h.unshared.create gameInfoPath path _ _ hpath hcreated.named)
        · obtain rfl := Option.some.inj hstep
          exact h
  | flush n =>
      rcases Option.map_eq_some_iff.mp hstep with ⟨w, hw, rfl⟩
      refine ⟨h.unshared, (Disk.find_writeAt_of_ne (h.apart w hw)).trans h.found, ?_⟩
      rintro w' hw'
      obtain rfl := Option.some.inj hw'
      exact h.apart w hw
  | fclose =>
      rcases Option.map_eq_some_iff.mp hstep with ⟨w, hw, rfl⟩
      exact ⟨h.unshared, h.found, fun w' hw' => by cases hw'⟩
  | loadGameInfo =>
      rw [GameInfo.step] at hstep
      split at hstep
      · obtain rfl := Option.some.inj hstep
        exact ⟨h.unshared, h.found, h.apart⟩
      · cases hstep
  | call fault fd =>
      simp only [GameInfo.step, Option.bind_eq_bind, Option.bind_eq_some_iff] at hstep
      rcases hstep with ⟨load, -, ⟨outcome, descriptors⟩, -, hstep⟩
      cases outcome with
      | next load =>
          obtain rfl := Option.some.inj hstep
          exact ⟨h.unshared, h.found, h.apart⟩
      | returned okay info =>
          obtain rfl := Option.some.inj hstep
          exact ⟨h.unshared, h.found, h.apart⟩

theorem Keeps.run (hne : path ≠ gameInfoPath) {actions : List Step} {s' : State}
    (h : Keeps path content s) (hrun : actions.foldlM GameInfo.step s = some s') :
    Keeps path content s' :=
  Runs.invariant_of_run (P := fun _ _ => True) (fun _ s => Keeps path content s)
    (fun _ _ _ _ hkeeps _ hstep => hkeeps.step hne hstep) [] h
    (Runs.everyStep_of_forall (fun _ _ => trivial) s) hrun

/-! ## The list -/

/-- What the bootloader should load for a game. -/
def expectedLoads (info : GamePatchInfo) (doc : PluginDocument) : List CString :=
  ((doc.configs.map RenderedConfig.config).filter (Taken info)).flatMap PluginConfig.plugins

theorem parseLoadFile_text {alloc : ℕ → Bool} (halloc : ∀ n, alloc n = true) (prx : Prx)
    (doc : PluginDocument) (hshort : ∀ row ∈ doc.rows, row.length ≤ 1000) (closed : Bool)
    {find : CString → Option (List Char)} (hfile : find pluginsPath = some (doc.text closed))
    (bytes : List Char) :
    ∃ fuel data, parseLoadFile alloc fuel prx pluginsPath find (1, bytes) =
        .finished (some data, 0) ∧ data.loads = expectedLoads (infoOf bytes) doc := by
  rcases delivers_text halloc doc hshort closed with ⟨fuel, hdelivers⟩
  obtain ⟨ctx, result, hrun, hdata, -⟩ := parsePlugin_of_delivers (loadPluginCallback prx)
    (freshData (infoOf bytes)) hdelivers
  refine ⟨fuel, ctx.userData, ?_, ?_⟩
  · rw [parseLoadFile, if_neg (by decide), if_neg one_ne_zero, hfile, loadPlugins,
      ← freshData, hrun]
    by_cases hresult : result = 0 <;> simp [hresult]
  · rw [hdata]
    have hinfo : (freshData (infoOf bytes)).gameInfo = some (infoOf bytes) := rfl
    exact (deliver_fields prx (doc.configs.map RenderedConfig.config) hinfo).1

/-! ## The whole way -/

/-- The console is started any number of times, with a list of the user or none, and then
a game: whatever the calls for the other files come to, the list, or the default one, stays
as it is, and the bootloader learns of that game and loads what the list has for it. -/
theorem bootloader_after_gameStart {alloc : ℕ → Bool} (halloc : ∀ n, alloc n = true) (prx : Prx)
    (sprx : List Char) (doc : PluginDocument) (hshort : ∀ row ∈ doc.rows, row.length ≤ 1000)
    (closed : Bool) (s : State) (hunshared : s.disk.Unshared)
    {boots : List (BlobCalls × BlobCalls)} (hboots : boots ≠ [])
    (hstat : ∀ calls ∈ boots, calls.1.stat = true)
    (hlisted : Listed s.disk (doc.text closed) boots) (info : GamePatchInfo) (fd : ℕ)
    {chunks : List ℕ} (htitleid : info.titleid.length < 16) (hversion : info.appVer.length < 8)
    (hzero : '\x00' ∉ info.titleid) (hzero' : '\x00' ∉ info.appVer)
    (hchunks : sizeofInfo ≤ chunks.sum) :
    (boots.foldl (boot sprx) s).disk.find pluginsPath = some (doc.text closed) ∧
    ∃ n s' loaded fuel data,
      (gameStart (.ofStrings info htitleid hversion) chunks ++ undisturbedLoad fd n).foldlM
          GameInfo.step (boots.foldl (boot sprx) s) = some s' ∧
        s'.loads = [loaded] ∧ infoOf loaded.2 = info ∧
        s'.disk.find pluginsPath = some (doc.text closed) ∧
        parseLoadFile alloc fuel prx pluginsPath s'.disk.find loaded =
          .finished (some data, 0) ∧
        data.loads = expectedLoads info doc := by
  rcases boots_keep sprx hunshared hstat hlisted with ⟨hunshared', hfound⟩
  rcases boots_idle sprx s hboots with ⟨hwriting, hload, hloads, hdescriptors⟩
  obtain ⟨n, s', bytes, hrun, hloads', hinfo, -, -⟩ := handed_over _ fd info chunks htitleid
    hversion hzero hzero' hchunks hwriting hload (hdescriptors fd)
  have hkeeps : Keeps pluginsPath (doc.text closed) s' :=
    Keeps.run (by decide) ⟨hunshared', hfound, fun w hw => by rw [hwriting] at hw; cases hw⟩ hrun
  obtain ⟨fuel, data, hparse, hdata⟩ :=
    parseLoadFile_text halloc prx doc hshort closed hkeeps.found bytes
  rw [hloads, List.nil_append] at hloads'
  exact ⟨hfound, n, s', (1, bytes), fuel, data, hrun, hloads', hinfo, hkeeps.found, hparse,
    hinfo ▸ hdata⟩

theorem filler_nil : ∀ line ∈ ([] : List CString), FillerRow line ∧ '\r' ∉ line :=
  List.forall_mem_nil _

/-- The list that is shipped. -/
def defaultDocument : PluginDocument where
  configs := [everyGameConfig]
  trailing := []
  filler := filler_nil

theorem text_defaultDocument : defaultDocument.text true = gamePluginsYmlData := by decide +kernel

/-- The default list has `game_patch.sprx` for every game. -/
theorem expectedLoads_defaultDocument (info : GamePatchInfo) :
    expectedLoads info defaultDocument = ["/dev_hdd0/game_patch.sprx".toList] := by
  have htaken : Taken info everyGameConfig.config :=
    ⟨⟨_, rfl, .inl (List.prefix_refl _)⟩, _, List.mem_singleton_self _,
      .inl (List.prefix_refl _)⟩
  have hconfigs : defaultDocument.configs.map RenderedConfig.config =
      [everyGameConfig.config] := rfl
  rw [expectedLoads, hconfigs, List.filter_cons, if_pos (decide_eq_true htaken)]
  rfl

/-- A console without files is started twice; the second time the list is there. -/
theorem bootloader_after_gameStart_default :
    let booted := [(⟨true, true, 1000⟩, ⟨true, true, 10⟩),
      (⟨true, false, 0⟩, ⟨false, true, 10⟩)].foldl (boot ['S', 'C', 'E', '\x00']) freshState
    booted.disk.find pluginsPath = some gamePluginsYmlData ∧
    ∃ n s' loaded fuel data,
      (gameStart (.ofStrings runningGame (by decide) (by decide)) [10, 14] ++
          undisturbedLoad 3 n).foldlM GameInfo.step booted = some s' ∧
        s'.loads = [loaded] ∧ infoOf loaded.2 = runningGame ∧
        s'.disk.find pluginsPath = some gamePluginsYmlData ∧
        parseLoadFile (fun _ => true) fuel ⟨fun _ => 1, fun _ => 0⟩ pluginsPath s'.disk.find
          loaded = .finished (some data, 0) ∧
        data.loads = ["/dev_hdd0/game_patch.sprx".toList] := by
  have hlisted : Listed freshState.disk (defaultDocument.text true)
      [(⟨true, true, 1000⟩, ⟨true, true, 10⟩), (⟨true, false, 0⟩, ⟨false, true, 10⟩)] := by
    refine .inr ⟨by decide, text_defaultDocument, _, _, rfl, rfl, ?_⟩
    rw [text_defaultDocument]
    decide +kernel
  rw [← expectedLoads_defaultDocument runningGame, ← text_defaultDocument]
  exact bootloader_after_gameStart (fun _ => rfl) ⟨fun _ => 1, fun _ => 0⟩ _ defaultDocument
    (by decide +kernel) true freshState (fun _ _ _ h => nomatch h) (by simp) (by simp) hlisted
    runningGame 3
    (by decide) (by decide) (by decide) (by decide) (by decide)

end GamePatch.Bootloader
