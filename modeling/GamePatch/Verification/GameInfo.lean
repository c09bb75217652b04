import GamePatch.Model.GameInfo
import GamePatch.Shared.Runs

/-! # What the game's modules learn of the game

The file is emptied and filled again at every game start, while modules of a game may
be reading it. Every file that has had the name of the record holds a beginning of the
record of one game start; `load_game_info` only takes what is as long as a whole one. -/

namespace GamePatch.GameInfo

open Runs

theorem InfoRecord.length_bytes (record : InfoRecord) : record.bytes.length = sizeofInfo := by
  rw [InfoRecord.bytes, List.length_append, record.length_titleid, record.length_appVer]
  rfl

/-- The records of the game starts, in their order. -/
def starts (steps : List Step) : List InfoRecord :=
  steps.filterMap fun step =>
    match step with
    | .loadPluginMain record true => some record
    | _ => none

theorem starts_append (steps steps' : List Step) :
    starts (steps ++ steps') = starts steps ++ starts steps' := List.filterMap_append

theorem getElem?_starts_append {steps : List Step} {n : ℕ} {record : InfoRecord}
    (h : (starts steps)[n]? = some record) (steps' : List Step) :
    (starts (steps ++ steps'))[n]? = some record := by
  rw [starts_append, List.getElem?_append_left (List.getElem?_eq_some_iff.mp h).1]
  exact h

/-! ## The files -/

/-- The files made since there were `floor` of them hold beginnings of the records of
game starts, each that of the start `owner` tells. The file of the name is that of the
last one. -/
structure Owned (floor : ℕ) (owner : ℕ → ℕ) (seen : List Step) (s : State) : Prop where
  begun : ∀ file, floor ≤ file → file < s.disk.files → ∃ record k,
    (starts seen)[owner file]? = some record ∧ s.disk.content file = record.bytes.take k
  named : ∀ file, s.disk.directory gameInfoPath = some file →
    floor ≤ file ∧ owner file + 1 = (starts seen).length
  writing : ∀ w, s.writing = some w → floor ≤ w.file ∧ w.file < s.disk.files ∧
    (starts seen)[owner w.file]? = some w.record ∧
    s.disk.content w.file = w.record.bytes.take w.written ∧ w.written ≤ sizeofInfo
  floor_le : floor ≤ s.disk.files

variable {floor mark base : ℕ} {owner : ℕ → ℕ} {seen : List Step} {s s' : State}

/-- A step that leaves the disk and the shell alone. -/
theorem Owned.keep (h : Owned floor owner seen s) {action : Step}
    (hstarts : starts [action] = []) (hdisk : s'.disk = s.disk)
    (hwriting : s'.writing = s.writing) : Owned floor owner (seen ++ [action]) s' := by
  have hsame : starts (seen ++ [action]) = starts seen := by
    rw [starts_append, hstarts, List.append_nil]
  constructor
  · rw [hsame, hdisk]
    exact h.begun
  · rw [hsame, hdisk]
    exact h.named
  · rw [hsame, hdisk, hwriting]
    exact h.writing
  · rw [hdisk]
    exact h.floor_le

theorem Owned.makeFolders (h : Owned floor owner seen s) :
    Owned floor owner (seen ++ [.makeFolders])
      { s with disk := s.disk.unlink gameInfoPath } := by
  have hsame : starts (seen ++ [.makeFolders]) = starts seen := by
    rw [starts_append]
    exact List.append_nil _
  refine ⟨?_, ?_, ?_, h.floor_le⟩
  · rw [hsame]
    exact h.begun
  · intro file hfile
    rw [Disk.unlink_self] at hfile
    cases hfile
  · rw [hsame]
    exact h.writing

/-- A game start takes over the file of the name. -/
theorem Owned.loadPluginMain (h : Owned floor owner seen s) (record : InfoRecord) :
    Owned floor (Function.update owner (s.disk.create gameInfoPath).1 (starts seen).length)
      (seen ++ [.loadPluginMain record true])
      { s with
        disk := (s.disk.create gameInfoPath).2
        writing := some ⟨(s.disk.create gameInfoPath).1, record, 0⟩ } := by
  have hcreated := s.disk.created gameInfoPath
  generalize (s.disk.create gameInfoPath).1 = file at hcreated ⊢
  generalize (s.disk.create gameInfoPath).2 = disk at hcreated ⊢
  have hstarts : starts (seen ++ [.loadPluginMain record true]) = starts seen ++ [record] := by
    rw [starts_append]
    rfl
  have hlast : (starts seen ++ [record])[(starts seen).length]? = some record :=
    List.getElem?_concat_length
  have hfloor : floor ≤ file := by
    rcases hcreated.source with hnamed | hnew
    · exact (h.named file hnamed).1
    · rw [hnew]
      exact h.floor_le
  constructor
  · intro other hother hlt
    rw [hstarts]
    by_cases hsame : other = file
    · subst hsame
      exact ⟨record, 0, by rw [Function.update_self]; exact hlast, hcreated.empty⟩
    · have hknown := (hcreated.known other hlt).resolve_left hsame
      rcases h.begun other hother hknown with ⟨record', k, hrecord, hcontent⟩
      refine ⟨record', k, ?_, by rw [← hcontent]; exact hcreated.kept other hsame⟩
      rw [Function.update_of_ne hsame,
        List.getElem?_append_left (List.getElem?_eq_some_iff.mp hrecord).1]
      exact hrecord
  · intro other hother
    obtain rfl := Option.some.inj (hother.symm.trans hcreated.named)
    rw [hstarts, Function.update_self, List.length_append]
    exact ⟨hfloor, rfl⟩
  · rintro w ⟨⟩
    refine ⟨hfloor, disk.named_lt gameInfoPath file hcreated.named, ?_, hcreated.empty,
      Nat.zero_le _⟩
    rw [hstarts, Function.update_self]
    exact hlast
  · exact h.floor_le.trans hcreated.grows

/-- Bytes of a record are appended to those that have reached its file. -/
theorem content_flushed (disk : Disk CString Char) (record : InfoRecord) {file written : ℕ}
    (hcontent : disk.content file = record.bytes.take written) (hwritten : written ≤ sizeofInfo)
    (n : ℕ) :
    (disk.writeAt file written ((record.bytes.drop written).take n)).content file =
        record.bytes.take (written + ((record.bytes.drop written).take n).length) ∧
      written + ((record.bytes.drop written).take n).length = min (written + n) sizeofInfo := by
  have hbytes := record.length_bytes
  have hlength : ((record.bytes.drop written).take n).length = min n (sizeofInfo - written) := by
    rw [List.length_take, List.length_drop, hbytes]
  refine ⟨?_, by omega⟩
  rw [Disk.writeAt_end (by rw [hcontent, List.length_take, hbytes]; omega), hcontent, List.take_add]
  congr 1
  rw [hlength, List.take_eq_take_iff, List.length_drop, hbytes]
  omega

/-- More bytes of the record reach the file of the shell. -/
theorem Owned.flush (h : Owned floor owner seen s) (n : ℕ) {w : Writing}
    (hw : s.writing = some w) :
    Owned floor owner (seen ++ [.flush n])
      { s with
        disk := s.disk.writeAt w.file w.written ((w.record.bytes.drop w.written).take n)
        writing := some
          { w with written := w.written + ((w.record.bytes.drop w.written).take n).length } } := by
  have hsame : starts (seen ++ [.flush n]) = starts seen := by
    rw [starts_append]
    exact List.append_nil _
  rcases h.writing w hw with ⟨hfloor, hlt, howner, hcontent, hwritten⟩
  rcases content_flushed s.disk w.record hcontent hwritten n with ⟨hnow, hlength⟩
  constructor
  · intro file hfile hless
    rw [hsame]
    by_cases heq : file = w.file
    · subst heq
      exact ⟨w.record, _, howner, hnow⟩
    · rcases h.begun file hfile hless with ⟨record, k, hrecord, hold⟩
      exact ⟨record, k, hrecord, by rw [← hold]; exact Disk.writeAt_of_ne heq⟩
  · rw [hsame]
    exact h.named
  · rintro w' ⟨⟩
    rw [hsame]
    exact ⟨hfloor, hlt, howner, hnow, by dsimp only; omega⟩
  · exact h.floor_le

/-! ## The reader -/

/-- The whole record of a game start that was not over when `mark` games had started,
or of a later one. -/
def Fresh (mark : ℕ) (seen : List Step) (info : List Char) : Prop :=
  ∃ n record, (starts seen)[n]? = some record ∧ info = record.bytes ∧ mark ≤ n + 1

theorem Fresh.append {info : List Char} (h : Fresh mark seen info) (action : Step) :
    Fresh mark (seen ++ [action]) info := by
  rcases h with ⟨n, record, hrecord, hinfo, hmark⟩
  exact ⟨n, record, getElem?_starts_append hrecord [action], hinfo, hmark⟩

/-- The handle is open on a file of a game start that is late enough. -/
def ReadsFrom (floor mark : ℕ) (owner : ℕ → ℕ) (s : State) (handle : ℕ) : Prop :=
  ∃ descriptor, s.descriptors handle = some descriptor ∧ floor ≤ descriptor.file ∧
    descriptor.file < s.disk.files ∧ mark ≤ owner descriptor.file + 1

/-- What is known of a call of `load_game_info` before its next system call. -/
def Underway (floor mark : ℕ) (owner : ℕ → ℕ) (seen : List Step) (s : State) (load : Load) :
    Prop :=
  match load.point with
  | .opening => True
  | .telling h => ReadsFrom floor mark owner s h
  | .measuring h _ => ReadsFrom floor mark owner s h
  | .rewinding h _ _ => ReadsFrom floor mark owner s h
  | .reading h => ReadsFrom floor mark owner s h
  | .closing _ okay => okay = 1 → Fresh mark seen load.info

theorem ReadsFrom.mono {owner' : ℕ → ℕ} {handle : ℕ} (h : ReadsFrom floor mark owner s handle)
    (hdescriptors : s'.descriptors = s.descriptors) (hfiles : s.disk.files ≤ s'.disk.files)
    (howner : ∀ file, floor ≤ file → file < s.disk.files → owner file ≤ owner' file) :
    ReadsFrom floor mark owner' s' handle := by
  rcases h with ⟨descriptor, hdescriptor, hfloor, hlt, hmark⟩
  have hlater := howner descriptor.file hfloor hlt
  exact ⟨descriptor, by rw [hdescriptors]; exact hdescriptor, hfloor, by omega, by omega⟩

theorem Underway.mono {owner' : ℕ → ℕ} {load : Load}
    (h : Underway floor mark owner seen s load) (action : Step)
    (hdescriptors : s'.descriptors = s.descriptors) (hfiles : s.disk.files ≤ s'.disk.files)
    (howner : ∀ file, floor ≤ file → file < s.disk.files → owner file ≤ owner' file) :
    Underway floor mark owner' (seen ++ [action]) s' load := by
  unfold Underway at h ⊢
  cases hpoint : load.point with
  | opening => trivial
  | telling handle | measuring handle _ | rewinding handle _ _ | reading handle =>
      simp only [hpoint] at h ⊢
      exact h.mono hdescriptors hfiles howner
  | closing handle okay =>
      simp only [hpoint] at h ⊢
      exact fun hokay => (h hokay).append action

theorem fileSeek_file (disk : Disk CString Char) {descriptors : Descriptors} {handle : ℕ}
    {descriptor : Descriptor} (h : descriptors handle = some descriptor) (mode : FileSeekMode)
    (offset : ℕ) (fault : CellFsError) :
    ∃ moved, (fileSeek disk descriptors handle mode offset fault).2.2 handle = some moved ∧
      moved.file = descriptor.file := by
  cases fault with
  | ok =>
      simp only [fileSeek, h]
      exact ⟨_, Function.update_self .., rfl⟩
  | «exists» => exact ⟨descriptor, by simpa only [fileSeek] using h, rfl⟩
  | other => exact ⟨descriptor, by simpa only [fileSeek] using h, rfl⟩

/-- A call of `fileSeek` leaves the handle open on the same file. -/
theorem ReadsFrom.seek {handle : ℕ} (h : ReadsFrom floor mark owner s handle)
    (mode : FileSeekMode) (offset : ℕ) (fault : CellFsError) (load : Option Load) :
    ReadsFrom floor mark owner
      { s with
        descriptors := (fileSeek s.disk s.descriptors handle mode offset fault).2.2
        load := load } handle := by
  rcases h with ⟨descriptor, hdescriptor, hfloor, hlt, hmark⟩
  rcases fileSeek_file s.disk hdescriptor mode offset fault with ⟨moved, hmoved, hfile⟩
  rw [← hfile] at hfloor hlt hmark
  exact ⟨moved, hmoved, hfloor, hlt, hmark⟩

/-! Every point of `load_game_info` makes its system call and goes on or closes. -/

section

variable (disk : Disk CString Char) (descriptors : Descriptors) (info : List Char)
  (fault : CellFsError) (fd : ℕ)

theorem loadCall_telling (h : ℕ) :
    loadCall disk descriptors ⟨.telling h, info⟩ fault fd =
      some (.next
        ⟨if (fileTell disk descriptors h fault).1 = .ok then
            .measuring h (fileTell disk descriptors h fault).2.1
          else .closing h 0, info⟩, (fileTell disk descriptors h fault).2.2) := rfl

theorem loadCall_measuring (h tmp : ℕ) :
    loadCall disk descriptors ⟨.measuring h tmp, info⟩ fault fd =
      some (.next
        ⟨if (fileSeek disk descriptors h .stop 0 fault).1 = .ok then
            .rewinding h tmp (fileSeek disk descriptors h .stop 0 fault).2.1
          else .closing h 0, info⟩, (fileSeek disk descriptors h .stop 0 fault).2.2) := rfl

theorem loadCall_rewinding (h tmp len : ℕ) :
    loadCall disk descriptors ⟨.rewinding h tmp len, info⟩ fault fd =
      some (.next
        ⟨if (fileSeek disk descriptors h .start tmp fault).1 = .ok ∧ len = sizeofInfo then
            .reading h
          else .closing h 0, info⟩, (fileSeek disk descriptors h .start tmp fault).2.2) := rfl

theorem loadCall_reading (h : ℕ) :
    loadCall disk descriptors ⟨.reading h, info⟩ fault fd =
      some (.next
        ⟨.closing h
          (if (fileRead disk descriptors h sizeofInfo fault).1 = .ok ∧
              (fileRead disk descriptors h sizeofInfo fault).2.1.length = sizeofInfo then 1
            else 0),
          (fileRead disk descriptors h sizeofInfo fault).2.1 ++
            info.drop (fileRead disk descriptors h sizeofInfo fault).2.1.length⟩,
        (fileRead disk descriptors h sizeofInfo fault).2.2) := rfl

end

theorem length_fileRead_le (disk : Disk CString Char) (descriptors : Descriptors)
    (handle count : ℕ) (fault : CellFsError) :
    (fileRead disk descriptors handle count fault).2.1.length ≤ count := by
  unfold fileRead
  split
  · exact List.length_take_le _ _
  · exact Nat.zero_le _
  · exact Nat.zero_le _

/-- What is as long as a whole record is one. -/
theorem Owned.fresh_of_read (h : Owned floor owner seen s) {handle : ℕ}
    (hreads : ReadsFrom floor mark owner s handle) {fault : CellFsError}
    (hok : (fileRead s.disk s.descriptors handle sizeofInfo fault).1 = .ok)
    (hfull : (fileRead s.disk s.descriptors handle sizeofInfo fault).2.1.length = sizeofInfo) :
    Fresh mark seen (fileRead s.disk s.descriptors handle sizeofInfo fault).2.1 := by
  rcases hreads with ⟨descriptor, hdescriptor, hfloor, hlt, hmark⟩
  rcases h.begun descriptor.file hfloor hlt with ⟨record, k, hrecord, hcontent⟩
  cases fault with
  | ok =>
      simp only [fileRead, hdescriptor] at hfull ⊢
      have hle : (s.disk.content descriptor.file).length ≤ sizeofInfo := by
        rw [hcontent, ← record.length_bytes]
        exact List.length_take_le' k record.bytes
      rcases Disk.readAt_eq_content hle hfull (by decide) with ⟨hread, hlength⟩
      refine ⟨owner descriptor.file, record, hrecord, ?_, hmark⟩
      rw [hread, hcontent]
      rw [hcontent, List.length_take, record.length_bytes] at hlength
      exact List.take_of_length_le (by rw [record.length_bytes]; omega)
  | «exists» => simp [fileRead, cellFsErrorToFileStatus] at hok
  | other => simp [fileRead, cellFsErrorToFileStatus] at hok

/-- What a system call of `load_game_info` leads to is as it should be. -/
def Sound (floor mark : ℕ) (owner : ℕ → ℕ) (seen : List Step) (s : State) (outcome : Outcome) :
    Prop :=
  match outcome with
  | .next load => Underway floor mark owner seen s load ∧ load.info.length = sizeofInfo
  | .returned okay info => okay = 1 → Fresh mark seen info

/-- An open file is the one that has the name. -/
theorem Owned.opened (h : Owned floor owner seen s) (hmark : mark ≤ (starts seen).length)
    {fault : CellFsError} {fd : ℕ} {status : FileStatus} {descriptors : Descriptors}
    (hopen : fileOpen s.disk s.descriptors gameInfoPath fault fd = some (status, descriptors))
    (hok : status = .ok) (load : Option Load) :
    ReadsFrom floor mark owner { s with descriptors := descriptors, load := load } fd := by
  cases fault with
  | ok =>
      cases hfile : s.disk.directory gameInfoPath with
      | none =>
          simp only [fileOpen, hfile, Option.some_inj, Prod.mk.injEq] at hopen
          rw [← hopen.1] at hok
          cases hok
      | some file =>
          simp only [fileOpen, hfile] at hopen
          split at hopen
          · rcases Prod.mk.inj (Option.some.inj hopen) with ⟨-, rfl⟩
            rcases h.named file hfile with ⟨hfloor, howner⟩
            exact ⟨⟨file, 0⟩, Function.update_self .., hfloor,
              s.disk.named_lt gameInfoPath file hfile, hmark.trans (Nat.le_of_eq howner.symm)⟩
          · cases hopen
  | «exists» | other =>
      simp only [fileOpen, Option.some_inj, Prod.mk.injEq] at hopen
      rw [← hopen.1] at hok
      cases hok

/-- What one system call of `load_game_info` does. -/
theorem Owned.call (h : Owned floor owner seen s) (hmark : mark ≤ (starts seen).length)
    {load : Load} (hload : Underway floor mark owner seen s load)
    (hlength : load.info.length = sizeofInfo) {fault : CellFsError} {fd : ℕ} {outcome : Outcome}
    {descriptors : Descriptors}
    (hcall : loadCall s.disk s.descriptors load fault fd = some (outcome, descriptors))
    (after : Option Load) :
    Sound floor mark owner seen { s with descriptors := descriptors, load := after } outcome := by
  rcases load with ⟨point, info⟩
  cases point with
  | opening =>
      rcases Option.bind_eq_some_iff.mp hcall with ⟨⟨status, opened⟩, hopen, hcall⟩
      rcases Prod.mk.inj (Option.some.inj hcall) with ⟨rfl, rfl⟩
      refine ⟨?_, hlength⟩
      by_cases hok : status = .ok
      · simp only [if_pos hok]
        exact h.opened hmark hopen hok after
      · simp only [if_neg hok]
        exact nofun
  | telling handle =>
      rw [loadCall_telling] at hcall
      rcases Prod.mk.inj (Option.some.inj hcall) with ⟨rfl, rfl⟩
      refine ⟨?_, hlength⟩
      split
      · exact hload.seek .current 0 fault after
      · exact nofun
  | measuring handle tmp =>
      rw [loadCall_measuring] at hcall
      rcases Prod.mk.inj (Option.some.inj hcall) with ⟨rfl, rfl⟩
      refine ⟨?_, hlength⟩
      split
      · exact hload.seek .stop 0 fault after
      · exact nofun
  | rewinding handle tmp len =>
      rw [loadCall_rewinding] at hcall
      rcases Prod.mk.inj (Option.some.inj hcall) with ⟨rfl, rfl⟩
      refine ⟨?_, hlength⟩
      split
      · exact hload.seek .start tmp fault after
      · exact nofun
  | reading handle =>
      rw [loadCall_reading] at hcall
      rcases Prod.mk.inj (Option.some.inj hcall) with ⟨rfl, rfl⟩
      have hfresh : _ → _ → Fresh mark seen
          (fileRead s.disk s.descriptors handle sizeofInfo fault).2.1 := h.fresh_of_read hload
      have hle := length_fileRead_le s.disk s.descriptors handle sizeofInfo fault
      generalize (fileRead s.disk s.descriptors handle sizeofInfo fault).1 = status at hfresh ⊢
      generalize (fileRead s.disk s.descriptors handle sizeofInfo fault).2.1 = bytes
        at hfresh hle ⊢
      constructor
      · intro hokay
        dsimp only at hokay ⊢
        split at hokay
        · next hread =>
            rw [hread.2, ← hlength, List.drop_length, List.append_nil]
            exact hfresh hread.1 hread.2
        · cases hokay
      · dsimp only at hlength ⊢
        rw [List.length_append, List.length_drop, hlength]
        omega
  | closing handle okay =>
      rcases Prod.mk.inj (Option.some.inj hcall) with ⟨rfl, rfl⟩
      exact hload

/-! ## Runs -/

/-- What holds between the steps: every call of `load_game_info` that returns 1, from
the `base`-th on, returns the whole record of a game start that is late enough. -/
structure Handover (floor mark base : ℕ) (seen : List Step) (s : State) : Prop where
  owned : ∃ owner, Owned floor owner seen s ∧ ∀ load, s.load = some load →
    Underway floor mark owner seen s load ∧ load.info.length = sizeofInfo
  fresh : ∀ result ∈ s.loads.drop base, result.1 = 1 → Fresh mark seen result.2
  mark_le : mark ≤ (starts seen).length

theorem mark_le_append (h : mark ≤ (starts seen).length) (action : Step) :
    mark ≤ (starts (seen ++ [action])).length := by
  rw [starts_append, List.length_append]
  exact h.trans (Nat.le_add_right _ _)

/-- A step of the shell. -/
theorem Handover.shell (h : Handover floor mark base seen s) (action : Step)
    (hstep : ∀ owner, Owned floor owner seen s →
      ∃ owner', Owned floor owner' (seen ++ [action]) s' ∧
        ∀ file, floor ≤ file → file < s.disk.files → owner file ≤ owner' file)
    (hload : s'.load = s.load) (hloads : s'.loads = s.loads)
    (hdescriptors : s'.descriptors = s.descriptors) (hfiles : s.disk.files ≤ s'.disk.files) :
    Handover floor mark base (seen ++ [action]) s' := by
  rcases h.owned with ⟨owner, howned, hunderway⟩
  rcases hstep owner howned with ⟨owner', howned', hlater⟩
  refine ⟨⟨owner', howned', ?_⟩, ?_, mark_le_append h.mark_le action⟩
  · rw [hload]
    intro load hl
    exact ⟨(hunderway load hl).1.mono action hdescriptors hfiles hlater, (hunderway load hl).2⟩
  · rw [hloads]
    exact fun result hmem hokay => (h.fresh result hmem hokay).append action

theorem Handover.step (h : Handover floor mark base seen s) {action : Step}
    (hstep : step s action = some s') : Handover floor mark base (seen ++ [action]) s' := by
  cases action with
  | makeFolders =>
      cases hstep
      refine h.shell _ (fun owner howned => ⟨owner, ?_, fun _ _ _ => le_rfl⟩) rfl rfl rfl le_rfl
      exact howned.makeFolders
  | loadPluginMain record opened =>
      rw [GameInfo.step] at hstep
      split at hstep
      · cases hstep
      · cases opened with
        | false =>
            cases hstep
            refine h.shell _ (fun owner howned => ⟨owner, ?_, fun _ _ _ => le_rfl⟩) rfl rfl rfl
              le_rfl
            exact howned.keep rfl rfl rfl
        | true =>
            cases hstep
            have hgrows := (s.disk.created gameInfoPath).grows
            refine h.shell _ (fun owner howned => ⟨_, howned.loadPluginMain record, ?_⟩) rfl rfl
              rfl hgrows
            intro file hfloor hlt
            rcases howned.begun file hfloor hlt with ⟨_, _, hrecord, -⟩
            have hbound := (List.getElem?_eq_some_iff.mp hrecord).1
            by_cases hsame : file = (s.disk.create gameInfoPath).1
            · rw [hsame, Function.update_self, ← hsame]
              exact Nat.le_of_lt hbound
            · rw [Function.update_of_ne hsame]
  | flush n =>
      rcases Option.map_eq_some_iff.mp hstep with ⟨w, hw, rfl⟩
      refine h.shell _ (fun owner howned => ⟨owner, ?_, fun _ _ _ => le_rfl⟩) rfl rfl rfl le_rfl
      exact howned.flush n hw
  | fclose =>
      rcases Option.map_eq_some_iff.mp hstep with ⟨w, hw, rfl⟩
      refine h.shell _ (fun owner howned => ⟨owner, ?_, fun _ _ _ => le_rfl⟩) rfl rfl rfl le_rfl
      have hkept : Owned floor owner (seen ++ [.fclose]) s := howned.keep rfl rfl rfl
      exact ⟨hkept.begun, hkept.named, nofun, hkept.floor_le⟩
  | loadGameInfo =>
      rw [GameInfo.step] at hstep
      split at hstep
      · cases hstep
        rcases h.owned with ⟨owner, howned, -⟩
        refine ⟨⟨owner, howned.keep rfl rfl rfl, ?_⟩,
          fun result hmem hokay => (h.fresh result hmem hokay).append _,
          mark_le_append h.mark_le _⟩
        rintro load ⟨⟩
        exact ⟨trivial, List.length_replicate⟩
      · cases hstep
  | call fault fd =>
      rcases Option.bind_eq_some_iff.mp hstep with ⟨load, hload, hstep⟩
      rcases Option.bind_eq_some_iff.mp hstep with ⟨⟨outcome, descriptors⟩, hcall, hstep⟩
      rcases h.owned with ⟨owner, howned, hunderway⟩
      have hsound := fun after => howned.call h.mark_le (hunderway load hload).1
        (hunderway load hload).2 hcall after
      cases outcome with
      | next load' =>
          cases hstep
          refine ⟨⟨owner, howned.keep rfl rfl rfl, ?_⟩,
            fun result hmem hokay => (h.fresh result hmem hokay).append _,
            mark_le_append h.mark_le _⟩
          rintro load ⟨⟩
          exact ⟨(hsound _).1.mono _ rfl le_rfl fun _ _ _ => le_rfl, (hsound none).2⟩
      | returned okay info =>
          cases hstep
          refine ⟨⟨owner, howned.keep rfl rfl rfl, nofun⟩, ?_, mark_le_append h.mark_le _⟩
          intro result hmem hokay
          rw [List.drop_append] at hmem
          rcases List.mem_append.mp hmem with hmem | hmem
          · exact (h.fresh result hmem hokay).append _
          · obtain rfl := List.mem_singleton.mp (List.mem_of_mem_drop hmem)
            exact (hsound none hokay).append _

theorem Handover.run {steps : List Step} (h : Handover floor mark base seen s)
    (hrun : steps.foldlM GameInfo.step s = some s') :
    Handover floor mark base (seen ++ steps) s' :=
  invariant_of_run (P := fun _ _ => True) (Handover floor mark base)
    (fun _ _ _ _ hinv _ hstep => hinv.step hstep) seen h
    (everyStep_of_forall (fun _ _ => trivial) s) hrun

/-- A state before the first game start: `make_folders` has unlinked the file. -/
structure Unstarted (s : State) : Prop where
  unnamed : s.disk.directory gameInfoPath = none
  idle : s.writing = none
  unread : s.load = none

theorem Unstarted.handover {s : State} (h : Unstarted s) :
    Handover s.disk.files 0 s.loads.length [] s where
  owned := by
    refine ⟨fun _ => 0, ⟨?_, ?_, ?_, le_rfl⟩, ?_⟩
    · intro file hfloor hlt
      omega
    · intro file hfile
      rw [h.unnamed] at hfile
      cases hfile
    · intro w hw
      rw [h.idle] at hw
      cases hw
    · intro load hload
      rw [h.unread] at hload
      cases hload
  fresh := by
    rw [List.drop_length]
    exact nofun
  mark_le := Nat.zero_le _

/-- However the steps of the shell and of the game interleave, a call of
`load_game_info` that returns 1 has read the whole record of one game start: the last
one before the call, or one after it began. -/
theorem load_fresh {s₀ s₁ s₂ : State} {before during : List Step} (hstart : Unstarted s₀)
    (hbefore : before.foldlM step s₀ = some s₁)
    (hduring : (.loadGameInfo :: during).foldlM step s₁ = some s₂) :
    ∀ result ∈ s₂.loads.drop s₁.loads.length, result.1 = 1 →
      Fresh (starts before).length (before ++ .loadGameInfo :: during) result.2 := by
  rcases (hstart.handover.run hbefore).owned with ⟨owner, howned, -⟩
  rw [List.nil_append] at howned
  have hidle : s₁.load = none := by
    rcases foldlM_cons_eq_some.mp hduring with ⟨mid, hmid, -⟩
    rw [step] at hmid
    split at hmid
    · assumption
    · cases hmid
  have hinv : Handover s₀.disk.files (starts before).length s₁.loads.length before s₁ := by
    refine ⟨⟨owner, howned, ?_⟩, ?_, le_rfl⟩
    · intro load hload
      rw [hidle] at hload
      cases hload
    · rw [List.drop_length]
      exact nofun
  exact (hinv.run hduring).fresh

/-! ## A call that nothing disturbs -/

/-- What `load_game_info` should make of the disk. -/
def loadResult (disk : Disk CString Char) : ℤ × List Char :=
  match disk.find gameInfoPath with
  | some content => if content.length = sizeofInfo then (1, content) else (0, Load.start.info)
  | none => (0, Load.start.info)

/-- A call of `load_game_info` with `n` system calls, all of which succeed where they can. -/
def undisturbedLoad (fd n : ℕ) : List Step := .loadGameInfo :: List.replicate n (.call .ok fd)

section

variable {s : State} {fd file : ℕ}

/-- An open file is measured and rewound in three system calls. -/
theorem rewound_run (s : State) (fd file : ℕ) (descriptors : Descriptors) (info : List Char) :
    (List.replicate 3 (Step.call .ok fd)).foldlM step
        { s with
          descriptors := Function.update descriptors fd (some ⟨file, 0⟩)
          load := some ⟨.telling fd, info⟩ } =
      some
        { s with
          descriptors := Function.update descriptors fd (some ⟨file, 0⟩)
          load := some
            ⟨if (s.disk.content file).length = sizeofInfo then .reading fd else .closing fd 0,
              info⟩ } := by
  simp [List.replicate_succ, step, loadCall_telling, loadCall_measuring, loadCall_rewinding,
    fileTell, fileSeek]

/-- A file of the size of a record is read and closed. -/
theorem read_run (descriptors : Descriptors) (hfd : descriptors fd = none)
    (hsize : (s.disk.content file).length = sizeofInfo) :
    (List.replicate 2 (Step.call .ok fd)).foldlM step
        { s with
          descriptors := Function.update descriptors fd (some ⟨file, 0⟩)
          load := some ⟨.reading fd, Load.start.info⟩ } =
      some
        { s with
          descriptors := descriptors
          load := none
          loads := s.loads ++ [(1, s.disk.content file)] } := by
  have hread : s.disk.readAt file 0 sizeofInfo = s.disk.content file := by
    rw [Disk.readAt, List.drop_zero, List.take_of_length_le (Nat.le_of_eq hsize)]
  have hclosed : Function.update descriptors fd none = descriptors :=
    Function.update_eq_self_iff.mpr hfd.symm
  have hdrop : List.drop sizeofInfo Load.start.info = [] := by
    simp only [Load.start, List.drop_replicate, Nat.sub_self, List.replicate_zero]
  simp only [List.replicate_succ, List.replicate_zero, List.foldlM_cons, List.foldlM_nil, step,
    Option.bind_eq_bind, Option.bind_some, fileRead, Function.update_self,
    hread, hsize, and_self, ↓reduceIte, hdrop, List.append_nil, Option.pure_def, loadCall,
    fileClose, Function.update_idem, hclosed]

/-- A handle that was free is closed again. -/
theorem closed_run (descriptors : Descriptors) (hfd : descriptors fd = none)
    (descriptor : Option Descriptor) (info : List Char) :
    (List.replicate 1 (Step.call .ok fd)).foldlM step
        { s with
          descriptors := Function.update descriptors fd descriptor
          load := some ⟨.closing fd 0, info⟩ } =
      some
        { s with
          descriptors := descriptors
          load := none
          loads := s.loads ++ [(0, info)] } := by
  have hclosed : Function.update descriptors fd none = descriptors :=
    Function.update_eq_self_iff.mpr hfd.symm
  simp only [List.replicate_succ, List.replicate_zero, List.foldlM_cons, List.foldlM_nil, step,
    Option.bind_eq_bind, Option.bind_some, loadCall, fileClose, ↓reduceIte,
    Function.update_idem, hclosed, Option.pure_def]

end

/-- Without faults and without steps of the shell in between, `load_game_info` returns the
record exactly if the file is there and has the size of one, and leaves no file open. -/
theorem load_undisturbed (s : State) (fd : ℕ) (hload : s.load = none)
    (hfd : s.descriptors fd = none) :
    ∃ n, (undisturbedLoad fd n).foldlM step s =
      some { s with loads := s.loads ++ [loadResult s.disk] } := by
  have hstart : step s .loadGameInfo = some { s with load := some .start } := by
    rw [step, if_pos hload]
  cases hfile : s.disk.directory gameInfoPath with
  | none =>
      have hopen : step { s with load := some .start } (.call .ok fd) =
          some { s with load := some ⟨.closing fd 0, Load.start.info⟩ } := by
        simp [step, Load.start, loadCall, fileOpen, hfile, cellFsErrorToFileStatus]
      have hclosed : Function.update s.descriptors fd none = s.descriptors :=
        Function.update_eq_self_iff.mpr hfd.symm
      refine ⟨1 + 1, ?_⟩
      rw [undisturbedLoad, List.replicate_add, List.foldlM_cons, hstart]
      simp only [Option.bind_eq_bind, Option.bind_some, List.foldlM_append]
      rw [List.replicate_one, List.foldlM_cons, hopen]
      have hrun := closed_run (s := s) s.descriptors hfd none Load.start.info
      rw [hclosed, List.replicate_one] at hrun
      simpa [loadResult, Disk.find, hfile, hload] using hrun
  | some file =>
      have hopen : step { s with load := some .start } (.call .ok fd) =
          some
            { s with
              descriptors := Function.update s.descriptors fd (some ⟨file, 0⟩)
              load := some ⟨.telling fd, Load.start.info⟩ } := by
        simp [step, Load.start, loadCall, fileOpen, hfile, hfd]
      have hrewound := rewound_run s fd file s.descriptors Load.start.info
      by_cases hsize : (s.disk.content file).length = sizeofInfo
      · refine ⟨1 + (3 + 2), ?_⟩
        rw [if_pos hsize] at hrewound
        rw [undisturbedLoad, List.replicate_add, List.replicate_add, List.foldlM_cons, hstart]
        simp only [Option.bind_eq_bind, Option.bind_some, List.foldlM_append]
        rw [List.replicate_one, List.foldlM_cons, hopen]
        simp only [Option.bind_eq_bind, Option.bind_some, List.foldlM_nil, Option.pure_def]
        rw [hrewound, Option.bind_some, read_run s.descriptors hfd hsize]
        simp [loadResult, Disk.find, hfile, hsize, hload]
      · refine ⟨1 + (3 + 1), ?_⟩
        rw [if_neg hsize] at hrewound
        rw [undisturbedLoad, List.replicate_add, List.replicate_add, List.foldlM_cons, hstart]
        simp only [Option.bind_eq_bind, Option.bind_some, List.foldlM_append]
        rw [List.replicate_one, List.foldlM_cons, hopen]
        simp only [Option.bind_eq_bind, Option.bind_some, List.foldlM_nil, Option.pure_def]
        rw [hrewound, Option.bind_some]
        have hrun := closed_run (s := s) s.descriptors hfd (some ⟨file, 0⟩) Load.start.info
        rw [List.replicate_one] at hrun
        rw [hrun]
        simp [loadResult, Disk.find, hfile, hsize, hload]

/-! ## From the shell to the game -/

/-- The record of strings that leave room for a terminating zero. -/
def InfoRecord.ofStrings (info : GamePatchInfo) (htitleid : info.titleid.length < 16)
    (hversion : info.appVer.length < 8) : InfoRecord where
  titleid := info.titleid ++ List.replicate (16 - info.titleid.length) '\x00'
  appVer := info.appVer ++ List.replicate (8 - info.appVer.length) '\x00'
  length_titleid := by
    rw [List.length_append, List.length_replicate]
    omega
  length_appVer := by
    rw [List.length_append, List.length_replicate]
    omega

/-- The strings are read back from the record. -/
theorem infoOf_ofStrings {info : GamePatchInfo} (htitleid : info.titleid.length < 16)
    (hversion : info.appVer.length < 8) (hzero : '\x00' ∉ info.titleid)
    (hzero' : '\x00' ∉ info.appVer) :
    infoOf (InfoRecord.ofStrings info htitleid hversion).bytes = info := by
  obtain ⟨n, hn⟩ : ∃ n, 16 - info.titleid.length = n + 1 := ⟨15 - info.titleid.length, by omega⟩
  have hdrop : (InfoRecord.ofStrings info htitleid hversion).bytes.drop 16 =
      info.appVer ++ List.replicate (8 - info.appVer.length) '\x00' :=
    List.drop_left' (InfoRecord.ofStrings info htitleid hversion).length_titleid
  have htitle : cstring (InfoRecord.ofStrings info htitleid hversion).bytes = info.titleid := by
    have hbytes : (InfoRecord.ofStrings info htitleid hversion).bytes =
        info.titleid ++ List.replicate (16 - info.titleid.length) '\x00' ++
          (InfoRecord.ofStrings info htitleid hversion).appVer := rfl
    rw [hbytes, hn, List.replicate_succ, List.append_assoc, List.cons_append,
      cstring_append_zero, cstring_of_not_mem hzero]
  rw [infoOf, htitle, hdrop, cstring_padded hzero']

/-- The file of the shell gets all of its record, in whatever pieces it comes. -/
theorem flush_run (chunks : List ℕ) {s : State} {w : Writing} (hw : s.writing = some w)
    (hcontent : s.disk.content w.file = w.record.bytes.take w.written)
    (hwritten : w.written ≤ sizeofInfo) (hsum : sizeofInfo ≤ w.written + chunks.sum) :
    ∃ s', (chunks.map Step.flush).foldlM step s = some s' ∧
      s'.disk.content w.file = w.record.bytes ∧ s'.disk.directory = s.disk.directory ∧
      s'.writing ≠ none ∧ s'.descriptors = s.descriptors ∧ s'.load = s.load ∧
      s'.loads = s.loads := by
  induction chunks generalizing s w with
  | nil =>
      have hall : sizeofInfo ≤ w.written := by simpa using hsum
      refine ⟨s, rfl, ?_, rfl, by simp [hw], rfl, rfl, rfl⟩
      rw [hcontent]
      exact List.take_of_length_le (by rw [w.record.length_bytes]; exact hall)
  | cons n chunks ih =>
      rw [List.sum_cons] at hsum
      rcases content_flushed s.disk w.record hcontent hwritten n with ⟨hnow, hlength⟩
      generalize hadded : (w.record.bytes.drop w.written).take n = bytes at hnow hlength
      let next : State :=
        { s with
          disk := s.disk.writeAt w.file w.written bytes
          writing := some { w with written := w.written + bytes.length } }
      have hnext : step s (.flush n) = some next := by
        simp only [step, hw, Option.map_some, hadded, next]
      obtain ⟨s', hrun, hkept⟩ := ih (s := next) rfl hnow (by dsimp only; omega)
        (by dsimp only; omega)
      exact ⟨s', foldlM_cons_eq_some.mpr ⟨next, hnext, hrun⟩, hkept⟩

/-- A game start whose record reaches the file in these pieces. -/
def gameStart (record : InfoRecord) (chunks : List ℕ) : List Step :=
  .loadPluginMain record true :: (chunks.map Step.flush ++ [.fclose])

theorem gameStart_run (s : State) (hwriting : s.writing = none) (record : InfoRecord)
    {chunks : List ℕ} (hchunks : sizeofInfo ≤ chunks.sum) :
    ∃ s', (gameStart record chunks).foldlM step s = some s' ∧
      s'.disk.find gameInfoPath = some record.bytes ∧ s'.writing = none ∧
      s'.descriptors = s.descriptors ∧ s'.load = s.load ∧ s'.loads = s.loads := by
  have hcreated := s.disk.created gameInfoPath
  let opened : State :=
    { s with
      disk := (s.disk.create gameInfoPath).2
      writing := some ⟨(s.disk.create gameInfoPath).1, record, 0⟩ }
  have hopened : step s (.loadPluginMain record true) = some opened := by
    rw [step, if_neg (not_not.mpr hwriting), if_pos rfl]
  have hsum : sizeofInfo ≤ 0 + chunks.sum := by simpa using hchunks
  obtain ⟨full, hflushed, hcontent, hdirectory, hfull, hkept⟩ :=
    flush_run chunks (show opened.writing = _ from rfl) hcreated.empty (Nat.zero_le _) hsum
  refine ⟨{ full with writing := none }, ?_, ?_, rfl, hkept⟩
  · rcases Option.ne_none_iff_exists'.mp hfull with ⟨w, hw⟩
    rw [gameStart, foldlM_cons_eq_some]
    refine ⟨opened, hopened, ?_⟩
    rw [List.foldlM_append, hflushed]
    simp [step, hw]
  · rw [Disk.find, show full.disk.directory = opened.disk.directory from hdirectory,
      hcreated.named, Option.map_some]
    exact congrArg some hcontent

/-- A game start that reaches the file whole, in whatever pieces, and a call of
`load_game_info` behind it hand the title and the version of the game over. -/
theorem handed_over (s : State) (fd : ℕ) (info : GamePatchInfo) (chunks : List ℕ)
    (htitleid : info.titleid.length < 16) (hversion : info.appVer.length < 8)
    (hzero : '\x00' ∉ info.titleid) (hzero' : '\x00' ∉ info.appVer)
    (hchunks : sizeofInfo ≤ chunks.sum) (hwriting : s.writing = none) (hload : s.load = none)
    (hfd : s.descriptors fd = none) :
    ∃ n s' bytes,
      (gameStart (.ofStrings info htitleid hversion) chunks ++ undisturbedLoad fd n).foldlM step
          s = some s' ∧
        s'.loads = s.loads ++ [(1, bytes)] ∧ infoOf bytes = info ∧
        s'.descriptors = s.descriptors ∧ s'.load = none := by
  obtain ⟨started, hstart, hfind, -, hdescriptors, hidle, hloads⟩ :=
    gameStart_run s hwriting (.ofStrings info htitleid hversion) hchunks
  obtain ⟨n, hread⟩ := load_undisturbed started fd (hidle.trans hload)
    (by rw [hdescriptors]; exact hfd)
  have hresult : loadResult started.disk =
      (1, (InfoRecord.ofStrings info htitleid hversion).bytes) := by
    rw [loadResult, hfind]
    exact if_pos (InfoRecord.length_bytes _)
  refine ⟨n, { started with loads := started.loads ++ [loadResult started.disk] },
    (InfoRecord.ofStrings info htitleid hversion).bytes, ?_, ?_,
    infoOf_ofStrings htitleid hversion hzero hzero', hdescriptors, hidle.trans hload⟩
  · rw [List.foldlM_append, hstart]
    exact hread
  · dsimp only
    rw [hresult, hloads]

/-! ## A game that starts while the record is read -/

/-- A console after `make_folders`. -/
def freshState : State where
  disk := ⟨fun _ => none, fun _ => [], 0, nofun⟩
  writing := none
  descriptors := fun _ => none
  load := none
  loads := []

theorem unstarted_freshState : Unstarted freshState := ⟨rfl, rfl, rfl⟩

/-- The record of the title that ends in `c`. -/
def recordOf (c : Char) : InfoRecord where
  titleid := ("BLUS0000".toList ++ [c]) ++ List.replicate 7 '\x00'
  appVer := "01.00".toList ++ List.replicate 3 '\x00'
  length_titleid := rfl
  length_appVer := rfl

/-- The second game starts behind the first system call of `load_game_info`. -/
def restartedLoad : List Step :=
  [.call .ok 3, .loadPluginMain (recordOf '2') true, .flush 10, .call .ok 3, .flush 14,
    .call .ok 3, .call .ok 3, .call .ok 3, .call .ok 3]

theorem load_fresh_restarted :
    ∃ s₁ s₂, (gameStart (recordOf '1') [24]).foldlM step freshState = some s₁ ∧
      (.loadGameInfo :: restartedLoad).foldlM step s₁ = some s₂ ∧
      s₂.loads = [(1, (recordOf '2').bytes)] ∧
      ∀ result ∈ s₂.loads.drop s₁.loads.length, result.1 = 1 →
        Fresh (starts (gameStart (recordOf '1') [24])).length
          (gameStart (recordOf '1') [24] ++ .loadGameInfo :: restartedLoad) result.2 :=
  ⟨_, _, rfl, rfl, by decide +kernel, load_fresh unstarted_freshState rfl rfl⟩

end GamePatch.GameInfo
