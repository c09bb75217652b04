import GamePatch.Model.RunPatch
import GamePatch.Shared.Runs

/-! # What one line does to the context

The lines that open a block hand over to `handle_patch_complete`. Every other
line changes the block being read by its own text alone, and leaves the number
of the block, the request and the callbacks as they are. -/

namespace GamePatch

open Runs

/-! ## The kind of a line -/

/-- A line at indent 0 that contains `patch:`. -/
def OpensBlock (line : CString) : Prop := lineKind false line = .patch

/-- A line that starts the section of the entries. -/
def OpensEntries (line : CString) : Prop := lineKind false line = .patches

instance (line : CString) : Decidable (OpensBlock line) :=
  inferInstanceAs (Decidable (lineKind false line = .patch))

instance (line : CString) : Decidable (OpensEntries line) :=
  inferInstanceAs (Decidable (lineKind false line = .patches))

/-- Only the choice between an entry and an unknown line looks at the section. -/
theorem lineKind_cases (inPatches : Bool) (line : CString) :
    lineKind inPatches line = lineKind false line ∨
      lineKind inPatches line = .entry ∧ lineKind false line = .other := by
  cases inPatches with
  | false => exact Or.inl rfl
  | true =>
      cases hfind : Key.cascade.find? fun k => contains (trim line) k.text with
      | some k =>
          apply Or.inl
          simp only [lineKind, hfind]
      | none =>
          simp only [lineKind, hfind, true_and, Bool.false_eq_true, false_and, if_false]
          split_ifs <;> first | exact Or.inl rfl | exact Or.inr ⟨rfl, rfl⟩

theorem lineKind_eq_iff {inPatches : Bool} {line : CString} {kind : LineKind}
    (hentry : kind ≠ .entry) (hother : kind ≠ .other) :
    lineKind inPatches line = kind ↔ lineKind false line = kind := by
  rcases lineKind_cases inPatches line with h | ⟨h, hfalse⟩
  · rw [h]
  · rw [h, hfalse]
    exact iff_of_false hentry.symm hother.symm

theorem OpensBlock.lineKind_eq {line : CString} (h : OpensBlock line) (inPatches : Bool) :
    lineKind inPatches line = .patch :=
  (lineKind_eq_iff (by simp) (by simp)).mpr h

theorem OpensEntries.lineKind_eq {line : CString} (h : OpensEntries line) (inPatches : Bool) :
    lineKind inPatches line = .patches :=
  (lineKind_eq_iff (by simp) (by simp)).mpr h

/-- Outside the section no line is an entry. -/
theorem lineKind_false_ne_entry (line : CString) : lineKind false line ≠ .entry := by
  intro h
  cases hfind : Key.cascade.find? fun k => contains (trim line) k.text with
  | some k =>
      simp only [lineKind, hfind] at h
      split_ifs at h
  | none =>
      simp only [lineKind, hfind, Bool.false_eq_true, false_and, if_false] at h
      split_ifs at h

theorem lineKind_false_of_entry {inPatches : Bool} {line : CString}
    (h : lineKind inPatches line = .entry) : lineKind false line = .other := by
  rcases lineKind_cases inPatches line with h' | ⟨-, h'⟩
  · exact absurd (h'.symm.trans h) (lineKind_false_ne_entry line)
  · exact h'

theorem lineKind_false_of_other {inPatches : Bool} {line : CString}
    (h : lineKind inPatches line = .other) : lineKind false line = .other := by
  rcases lineKind_cases inPatches line with h' | ⟨h', -⟩
  · exact h'.symm.trans h
  · exact absurd (h.symm.trans h') (by simp)

/-! ## The block being read -/

/-- What a line writes into the block. -/
def Patch.readLine (patch : Patch) (line : CString) : Patch :=
  match lineKind false line with
  | .key k => patch.setKey k (parseQuotedString (trim line))
  | .appVer => patch.setAppVer (trim line)
  | _ => patch

/-- The block after some of its lines, read into a blank one. -/
def ownPatch (allocated : Bool) (lines : List CString) : Patch :=
  lines.foldl Patch.readLine (Patch.blank allocated)

theorem ownPatch_append_singleton (allocated : Bool) (lines : List CString) (line : CString) :
    ownPatch allocated (lines ++ [line]) = (ownPatch allocated lines).readLine line := by
  simp [ownPatch]

theorem Patch.setKey_appVer (patch : Patch) (k : Key) (value : Option CString) :
    (patch.setKey k value).appVer = patch.appVer := by
  cases k <;> rfl

/-- Versions are only stored where the array is allocated. -/
theorem Patch.readLine_appVer_isSome (patch : Patch) (line : CString) :
    (patch.readLine line).appVer.isSome = patch.appVer.isSome := by
  unfold readLine
  split
  · rw [setKey_appVer]
  · unfold setAppVer
    split <;> simp
  · rfl

theorem ownPatch_appVer_isSome (allocated : Bool) (lines : List CString) :
    (ownPatch allocated lines).appVer.isSome = allocated := by
  induction lines using List.reverseRecOn with
  | nil => cases allocated <;> rfl
  | append_singleton lines line ih =>
      rw [ownPatch_append_singleton, Patch.readLine_appVer_isSome, ih]

theorem allocated_of_mem_appVers {allocated : Bool} {lines : List CString} {v : CString}
    (h : v ∈ (ownPatch allocated lines).appVers) : allocated = true := by
  rw [← ownPatch_appVer_isSome allocated lines]
  cases hver : (ownPatch allocated lines).appVer with
  | none => simp [Patch.appVers, hver] at h
  | some vs => rfl

theorem Patch.readLine_of_opensEntries {line : CString} (h : OpensEntries line) (patch : Patch) :
    patch.readLine line = patch := by
  simp [readLine, show lineKind false line = .patches from h]

theorem Patch.readLine_of_entry {inPatches : Bool} {line : CString}
    (h : lineKind inPatches line = .entry) (patch : Patch) : patch.readLine line = patch := by
  simp [readLine, lineKind_false_of_entry h]

/-! ## The branches of `process_line` -/

variable {σ : Type} {env : Env} {ctx ctx' : ParseContext σ} {line : CString}

theorem processLine_ignored (h : lineKind ctx.inPatchesSection line = .ignored) :
    processLine env ctx line = some ctx := by
  simp [processLine, h]

theorem processLine_patch (h : lineKind ctx.inPatchesSection line = .patch) :
    processLine env ctx line = handlePatchComplete env ctx := by
  simp [processLine, h]

theorem processLine_key {k : Key} (h : lineKind ctx.inPatchesSection line = .key k) :
    processLine env ctx line =
      some { ctx with
        currentPatch := ctx.currentPatch.setKey k (parseQuotedString (trim line)) } := by
  simp [processLine, h]

theorem processLine_appVer (h : lineKind ctx.inPatchesSection line = .appVer) :
    processLine env ctx line =
      some { ctx with currentPatch := ctx.currentPatch.setAppVer (trim line) } := by
  simp [processLine, h]

theorem processLine_patches (h : lineKind ctx.inPatchesSection line = .patches) :
    processLine env ctx line =
      if ctx.mode = .lowMem then
        announceVersions env ctx.currentPatch.versions { ctx with inPatchesSection := true }
      else some { ctx with inPatchesSection := true } := by
  simp [processLine, h]

theorem processLine_entry (h : lineKind ctx.inPatchesSection line = .entry) :
    processLine env ctx line =
      processEntry env ctx (parsePatchEntry ((trim line).drop 2)) := by
  simp [processLine, h]

/-- A line that opens nothing and is no entry only writes into the block and into the
table of titles. -/
theorem processLine_quiet (env : Env) (ctx : ParseContext σ) (hopens : ¬ OpensBlock line)
    (hentries : ¬ OpensEntries line) (hentry : lineKind ctx.inPatchesSection line ≠ .entry) :
    ∃ titleids, processLine env ctx line =
      some { ctx with
        globalTitleids := titleids
        currentPatch := ctx.currentPatch.readLine line } := by
  cases hk : lineKind ctx.inPatchesSection line with
  | ignored =>
      have hfalse := (lineKind_eq_iff (by simp) (by simp)).mp hk
      exact ⟨ctx.globalTitleids, by simp [processLine_ignored hk, Patch.readLine, hfalse]⟩
  | titleid =>
      have hfalse := (lineKind_eq_iff (by simp) (by simp)).mp hk
      by_cases hlist : isListValue (trim line) = true
      · exact ⟨parseStringList (trim line) maxArrayLength,
          by simp [processLine, hk, hlist, Patch.readLine, hfalse]⟩
      · exact ⟨ctx.globalTitleids, by simp [processLine, hk, hlist, Patch.readLine, hfalse]⟩
  | patch => exact absurd ((lineKind_eq_iff (by simp) (by simp)).mp hk) hopens
  | key k =>
      have hfalse := (lineKind_eq_iff (by simp) (by simp)).mp hk
      exact ⟨ctx.globalTitleids, by simp [processLine_key hk, Patch.readLine, hfalse]⟩
  | appVer =>
      have hfalse := (lineKind_eq_iff (by simp) (by simp)).mp hk
      exact ⟨ctx.globalTitleids, by simp [processLine_appVer hk, Patch.readLine, hfalse]⟩
  | patches => exact absurd ((lineKind_eq_iff (by simp) (by simp)).mp hk) hentries
  | entry => exact absurd hk hentry
  | other =>
      have hfalse := lineKind_false_of_other hk
      exact ⟨ctx.globalTitleids, by simp [processLine, hk, Patch.readLine, hfalse]⟩

/-- The loop over the versions only touches the user data, the metadata kept and
the flag. -/
theorem announceVersions_frame {vs : List (Option CString × ℕ)} :
    ∀ {ctx ctx' : ParseContext σ}, announceVersions env vs ctx = some ctx' →
      ∃ data kept enabled, ctx' =
        { ctx with
          userData := data
          currentMeta := kept
          processingEnabledPatch := enabled } := by
  induction vs with
  | nil =>
      intro ctx ctx' h
      obtain rfl : ctx = ctx' := by simpa [announceVersions] using h
      exact ⟨_, _, _, rfl⟩
  | cons v vs ih =>
      intro ctx ctx' h
      simp only [announceVersions] at h
      obtain ⟨metadata, -, hrest⟩ := Option.bind_eq_some_iff.mp h
      rcases ih hrest with ⟨data, kept, enabled, rfl⟩
      refine ⟨data, kept, enabled, ?_⟩
      cases hcb : ctx.metaCallback with
      | none => split_ifs <;> simp [hcb]
      | some callback => split_ifs <;> simp [hcb]

theorem processEntry_short {entry : PatchEntry} (h : entry.params.length < minPatchParams) :
    processEntry env ctx entry = some ctx := by
  rw [processEntry, if_pos h]

/-- An entry reaches the callback as long as the flag is set. -/
theorem processEntry_lowMem {entry : PatchEntry} (hmode : ctx.mode = .lowMem)
    {callback : PatchMetadata → PatchEntry → σ → σ} (hcb : ctx.entryCallback = some callback)
    (h : ¬ entry.params.length < minPatchParams) :
    processEntry env ctx entry =
      some { ctx with
        userData :=
          if ctx.processingEnabledPatch then callback ctx.currentMeta entry ctx.userData
          else ctx.userData } := by
  cases ctx
  dsimp only at hmode hcb
  subst hmode hcb
  rw [processEntry, if_neg h]
  dsimp only
  split_ifs <;> rfl

theorem processEntry_metadata {entry : PatchEntry} (hmode : ctx.mode = .metadata) :
    processEntry env ctx entry = some ctx := by
  simp [processEntry, hmode]

theorem processEntry_all {entry : PatchEntry} (hmode : ctx.mode = .all) (hprx : env.prx = false)
    (h : ¬ entry.params.length < minPatchParams) :
    processEntry env ctx entry =
      if ctx.currentEntries.isFull ∧ env.alloc ctx.allocs = false then
        some { ctx with
          currentEntries := ctx.currentEntries.grow false
          allocs := ctx.allocs + 1 }
      else if ctx.currentEntries.isFull then
        ((ctx.currentEntries.grow true).push entry).map fun entries =>
          { ctx with currentEntries := entries, allocs := ctx.allocs + 1 }
      else (ctx.currentEntries.push entry).map fun entries =>
        { ctx with currentEntries := entries } := by
  cases ctx
  dsimp only at hmode
  subst hmode
  rw [processEntry, if_neg h]
  simp only [hprx, Bool.false_eq_true, if_false]
  split_ifs with hfail hfull
  · rfl
  · rw [Option.map_eq_bind]
    rfl
  · rw [Option.map_eq_bind]
    rfl

theorem processEntry_frame {entry : PatchEntry} (h : processEntry env ctx entry = some ctx') :
    ∃ data entries allocs, ctx' =
      { ctx with userData := data, currentEntries := entries, allocs := allocs } := by
  by_cases hshort : entry.params.length < minPatchParams
  · rw [processEntry_short hshort] at h
    obtain rfl := Option.some.inj h
    exact ⟨_, _, _, rfl⟩
  obtain hmode | hmode | hmode : ctx.mode = .all ∨ ctx.mode = .lowMem ∨ ctx.mode = .metadata := by
    cases ctx.mode <;> simp
  · by_cases hprx : env.prx = true
    · obtain rfl : ctx = ctx' := by simpa [processEntry, hshort, hmode, hprx] using h
      exact ⟨_, _, _, rfl⟩
    · rw [processEntry_all hmode (Bool.eq_false_iff.mpr hprx) hshort] at h
      split_ifs at h
      · obtain rfl := Option.some.inj h
        exact ⟨_, _, _, rfl⟩
      · obtain ⟨entries, -, rfl⟩ := Option.map_eq_some_iff.mp h
        exact ⟨_, _, _, rfl⟩
      · obtain ⟨entries, -, rfl⟩ := Option.map_eq_some_iff.mp h
        exact ⟨_, _, _, rfl⟩
  · cases hcb : ctx.entryCallback with
    | none =>
        obtain rfl : ctx = ctx' := by simpa [processEntry, hshort, hmode, hcb] using h
        exact ⟨_, _, _, by rw [← hcb]⟩
    | some callback =>
        rw [processEntry_lowMem hmode hcb hshort] at h
        obtain rfl := Option.some.inj h
        exact ⟨_, _, _, by rw [← hcb]⟩
  · rw [processEntry_metadata hmode] at h
    obtain rfl := Option.some.inj h
    exact ⟨_, _, _, rfl⟩

/-- What a line inside a block leaves behind. -/
structure InsideBlock (ctx ctx' : ParseContext σ) (line : CString) : Prop where
  currentPatch : ctx'.currentPatch = ctx.currentPatch.readLine line
  inPatchesSection :
    ctx'.inPatchesSection = (ctx.inPatchesSection || decide (OpensEntries line))
  currentPatchNumber : ctx'.currentPatchNumber = ctx.currentPatchNumber
  mode : ctx'.mode = ctx.mode
  gameInfo : ctx'.gameInfo = ctx.gameInfo
  title : ctx'.title = ctx.title
  metaCallback : ctx'.metaCallback = ctx.metaCallback
  entryCallback : ctx'.entryCallback = ctx.entryCallback
  allPatches : ctx'.allPatches = ctx.allPatches
  metadataArray : ctx'.metadataArray = ctx.metadataArray

theorem processLine_insideBlock (hline : ¬ OpensBlock line)
    (h : processLine env ctx line = some ctx') : InsideBlock ctx ctx' line := by
  by_cases hentries : OpensEntries line
  · have hread := Patch.readLine_of_opensEntries hentries ctx.currentPatch
    rw [processLine_patches (hentries.lineKind_eq _)] at h
    split_ifs at h
    · obtain ⟨data, kept, enabled, rfl⟩ := announceVersions_frame h
      constructor <;> simp [hread, hentries]
    · obtain rfl := Option.some.inj h
      constructor <;> simp [hread, hentries]
  · by_cases hentry : lineKind ctx.inPatchesSection line = .entry
    · have hread := Patch.readLine_of_entry hentry ctx.currentPatch
      rw [processLine_entry hentry] at h
      obtain ⟨data, entries, allocs, rfl⟩ := processEntry_frame h
      constructor <;> simp [hread, hentries]
    · obtain ⟨titleids, hquiet⟩ := processLine_quiet env ctx hline hentries hentry
      obtain rfl := Option.some.inj (hquiet.symm.trans h)
      constructor <;> simp [hentries]

/-- The metadata kept and the flag only change at a `patches:` line of the block. -/
theorem processLine_keeps_flag (hopens : ¬ OpensBlock line) (hentries : ¬ OpensEntries line)
    (h : processLine env ctx line = some ctx') :
    ctx'.currentMeta = ctx.currentMeta ∧
      ctx'.processingEnabledPatch = ctx.processingEnabledPatch := by
  by_cases hentry : lineKind ctx.inPatchesSection line = .entry
  · rw [processLine_entry hentry] at h
    obtain ⟨data, entries, allocs, rfl⟩ := processEntry_frame h
    exact ⟨rfl, rfl⟩
  · obtain ⟨titleids, hquiet⟩ := processLine_quiet env ctx hopens hentries hentry
    obtain rfl := Option.some.inj (hquiet.symm.trans h)
    exact ⟨rfl, rfl⟩

end GamePatch
