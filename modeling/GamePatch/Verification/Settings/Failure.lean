import GamePatch.Verification.Settings.Store

/-! # Failed writes

`fopen` truncates the file before anything is written, so output that is cut
off leaves a proper prefix of the new contents behind. -/

namespace GamePatch.Settings

open Words

/-- After a call that returns `-1`, every hash reads as it did before. -/
def FailureLosesNothing (order : ByteOrder) (malloc : ℕ → Bool) (io : WriteIo)
    (file : Option Bytes) (op : Operation) : Prop :=
  ∀ file', perform order malloc io file op = some (file', -1) →
    ∀ hash, readPatchState order allocates file' hash =
      readPatchState order allocates file hash

theorem fwrite_cut {cut : Option ℕ} {bs : Bytes} (h : (fwrite cut bs).2 = false) :
    ∃ k < bs.length, (fwrite cut bs).1 = bs.take k := by
  cases cut with
  | none => simp [fwrite] at h
  | some k => exact ⟨k, by simpa [fwrite] using h, rfl⟩

theorem fwrite_complete {cut : Option ℕ} {bs : Bytes} (h : ¬ (fwrite cut bs).2 = false) :
    (fwrite cut bs).1 = bs := by
  cases cut with
  | none => rfl
  | some k =>
      simp only [fwrite, Bool.not_eq_false, decide_eq_true_eq] at h
      exact List.take_of_length_le h

/-- The call fails before it writes: `fopen` fails, or the buffer cannot be enlarged for a
hash that the file does not have. -/
def FailsUnopened (order : ByteOrder) (malloc : ℕ → Bool) (io : WriteIo) (file : Option Bytes)
    (hash : UInt32) : Prop :=
  io.fopen = false ∨ io.realloc = false ∧
    ∀ s ∈ (readPatchStatesInternal order malloc file).1.getD [], s.hash ≠ hash

/-- A proper prefix of what some list of records is written as, in which no hash is set. -/
structure CutOff (order : ByteOrder) (file' : Option Bytes) : Prop where
  shorter : ∃ states : List PatchState, ∃ k < (contents order states).length,
    file' = some ((contents order states).take k)
  unset : ∀ hash, readPatchState order allocates file' hash = some (-1)

theorem cutOff_take (order : ByteOrder) {states : List PatchState} {k : ℕ}
    (hle : states.length ≤ 2 ^ 32) (hk : k < (contents order states).length) :
    CutOff order (some ((contents order states).take k)) := by
  refine ⟨⟨states, k, hk, rfl⟩, fun hash => ?_⟩
  rw [readPatchState, readPatchStatesInternal_take order allocates states k hle hk]
  rfl

/-- A failed call of the writer leaves the file alone if `fopen` fails, and otherwise
leaves a proper prefix of the new contents. -/
theorem writePatchStatesInternal_failed (order : ByteOrder) (io : WriteIo)
    (file file' : Option Bytes) (states : List PatchState)
    (h : writePatchStatesInternal order io file states states.length = (file', -1)) :
    io.fopen = false ∧ file' = file ∨ io.fopen = true ∧
      ∃ k < (contents order states).length, file' = some ((contents order states).take k) := by
  let header := encodeHeader order
    ⟨patchStateMagic, patchStateVersion, UInt32.ofNat states.length⟩
  have hheader : header.length = sizeofHeader := length_encodeHeader ..
  have hcontents : contents order states = header ++ encodeStates order states := rfl
  simp only [writePatchStatesInternal, List.take_length] at h
  split_ifs at h with hopen hcut hrecords
  · left
    exact ⟨hopen, (Prod.mk.inj h).1.symm⟩
  · right
    obtain ⟨k, hk, hwritten⟩ := fwrite_cut hcut
    refine ⟨by simpa using hopen, k, ?_, ?_⟩
    · rw [hcontents, List.length_append]
      exact Nat.lt_add_right _ hk
    · rw [← (Prod.mk.inj h).1, hwritten, hcontents, List.take_append_of_le_length hk.le]
  · right
    obtain ⟨k, hk, hwritten⟩ := fwrite_cut hrecords.2
    refine ⟨by simpa using hopen, sizeofHeader + k, ?_, ?_⟩
    · rw [hcontents, List.length_append, hheader]
      exact Nat.add_lt_add_left hk _
    · rw [← (Prod.mk.inj h).1, hwritten, fwrite_complete hcut, hcontents, ← hheader,
        List.take_length_add_append]
  · simp at h

/-- `write_patch_state` fails before it opens the file, or inside the writer
with a record list that the header can still count, up to a wrap to zero. -/
theorem writePatchState_failed (order : ByteOrder) (malloc : ℕ → Bool) (io : WriteIo)
    (file file' : Option Bytes) (hash : UInt32) (e : Bool)
    (h : writePatchState order malloc io file hash e = (file', -1)) :
    FailsUnopened order malloc io file hash ∧ file' = file ∨
      ¬ FailsUnopened order malloc io file hash ∧ CutOff order file' := by
  have hcount := readPatchStatesInternal_count order malloc file
  have hlt := length_readPatchStatesInternal_lt order malloc file
  have hwriter : ∀ states : List PatchState, states.length ≤ 2 ^ 32 →
      writePatchStatesInternal order io file states states.length = (file', -1) →
      ¬ (io.realloc = false ∧
        ∀ s ∈ (readPatchStatesInternal order malloc file).1.getD [], s.hash ≠ hash) →
      FailsUnopened order malloc io file hash ∧ file' = file ∨
        ¬ FailsUnopened order malloc io file hash ∧ CutOff order file' := by
    intro states hle hw hroom
    rcases writePatchStatesInternal_failed order io file file' states hw with
      ⟨hopen, rfl⟩ | ⟨hopen, k, hk, rfl⟩
    · exact .inl ⟨.inl hopen, rfl⟩
    · refine .inr ⟨?_, cutOff_take order hle hk⟩
      rintro (hclosed | hfull)
      · rw [hopen] at hclosed
        cases hclosed
      · exact hroom hfull
  simp only [writePatchState] at h
  rw [hcount] at h
  rw [FailsUnopened] at hwriter ⊢
  generalize (readPatchStatesInternal order malloc file).1.getD [] = states at *
  cases hu : FirstMatch.update? PatchState.hash hash (PatchState.setEnabled e) states with
  | none =>
      simp only [hu] at h
      split_ifs at h with hrealloc
      · exact .inl ⟨.inr ⟨hrealloc, FirstMatch.update?_eq_none_iff.mp hu⟩,
          (congrArg Prod.fst h).symm⟩
      · apply hwriter (states ++ [⟨hash, enabledByte e⟩]) (by simp; omega)
        · simpa using h
        · exact fun hfull => hrealloc hfull.1
  | some states' =>
      have hlen := FirstMatch.length_of_update? hu
      simp only [hu, ← hlen] at h
      refine hwriter states' (by omega) h fun hfull => ?_
      rw [FirstMatch.update?_eq_none_iff.mpr hfull.2] at hu
      cases hu

theorem writePatchState_result (order : ByteOrder) (malloc : ℕ → Bool) (io : WriteIo)
    (file : Option Bytes) (hash : UInt32) (e : Bool) :
    (writePatchState order malloc io file hash e).2 = 0 ∨
      (writePatchState order malloc io file hash e).2 = -1 := by
  simp only [writePatchState, writePatchStatesInternal]
  split <;> split_ifs <;> simp

/-- A toggle fails only if its write does. -/
theorem togglePatchState_failed (order : ByteOrder) (malloc : ℕ → Bool) (io : WriteIo)
    (file file' : Option Bytes) (hash : UInt32)
    (h : togglePatchState order malloc io file hash = some (file', -1)) :
    ∃ e, writePatchState order malloc io file hash e = (file', -1) := by
  simp only [togglePatchState, Option.bind_eq_bind, Option.bind_eq_some_iff] at h
  rcases h with ⟨current, -, h⟩
  have hfailed : ∀ (e : Bool) (good : ℤ), good ≠ -1 →
      ((writePatchState order malloc io file hash e).1,
        if (writePatchState order malloc io file hash e).2 = 0 then good else -1) =
          (file', (-1 : ℤ)) →
      writePatchState order malloc io file hash e = (file', -1) := by
    intro e good hgood heq
    obtain ⟨hfile, hresult⟩ := Prod.mk.inj heq
    rcases writePatchState_result order malloc io file hash e with hzero | hminus
    · rw [hzero] at hresult
      exact absurd hresult hgood
    · exact Prod.ext hfile hminus
  by_cases habsent : current = -1
  · rw [if_pos habsent] at h
    exact ⟨true, hfailed true 1 (by decide) (Option.some.inj h)⟩
  · rw [if_neg habsent] at h
    refine ⟨decide (current = 0), hfailed _ _ ?_ (Option.some.inj h)⟩
    split <;> decide

theorem perform_failed (order : ByteOrder) (malloc : ℕ → Bool) (io : WriteIo)
    (file file' : Option Bytes) (op : Operation)
    (h : perform order malloc io file op = some (file', -1)) :
    FailsUnopened order malloc io file op.hash ∧ file' = file ∨
      ¬ FailsUnopened order malloc io file op.hash ∧ CutOff order file' := by
  cases op with
  | write hash e =>
      exact writePatchState_failed order malloc io file file' hash e (Option.some.inj h)
  | toggle hash =>
      obtain ⟨e, hwrite⟩ := togglePatchState_failed order malloc io file file' hash h
      exact writePatchState_failed order malloc io file file' hash e hwrite

/-- A call that returns `-1` leaves the file alone, where `fopen` or the enlargement of the
buffer failed, or else leaves a prefix in which no hash reads as set any more. So it loses
nothing exactly when it left the file alone or when nothing was set. -/
theorem perform_failed_keeps_or_empties (order : ByteOrder) (malloc : ℕ → Bool) (io : WriteIo)
    (file file' : Option Bytes) (op : Operation)
    (h : perform order malloc io file op = some (file', -1)) :
    (FailsUnopened order malloc io file op.hash ∧ file' = file ∨
      ¬ FailsUnopened order malloc io file op.hash ∧ CutOff order file') ∧
      ((∀ hash, readPatchState order allocates file' hash =
          readPatchState order allocates file hash) ↔
        file' = file ∨ ∀ hash, readPatchState order allocates file hash = some (-1)) := by
  have hcases := perform_failed order malloc io file file' op h
  refine ⟨hcases, ?_, ?_⟩
  · intro hsame
    rcases hcases with ⟨-, hfile⟩ | ⟨-, hcut⟩
    · exact Or.inl hfile
    · right
      intro hash
      rw [← hsame hash, hcut.unset hash]
  · intro hkept hash
    rcases hkept with rfl | hunset
    · rfl
    · rcases hcases with ⟨-, rfl⟩ | ⟨-, hcut⟩
      · rfl
      · rw [hcut.unset hash, hunset hash]

/-- Output that stops after five records bytes, in a store with two switches. -/
theorem perform_failed_keeps_or_empties_cut :
    let file : Option Bytes := some (contents .big [⟨7, 1⟩, ⟨9, 0⟩])
    let file' : Option Bytes := some ((contents .big [⟨7, 1⟩, ⟨9, 1⟩]).take 17)
    CutOff .big file' ∧ ¬ ∀ hash, readPatchState .big allocates file' hash =
      readPatchState .big allocates file hash := by
  intro file file'
  obtain ⟨hcases, hsame⟩ := perform_failed_keeps_or_empties .big allocates
    ⟨true, true, none, some 5⟩ file file' (.toggle 9) (by decide)
  have hchanged : file' ≠ file := by decide
  refine ⟨(hcases.resolve_left fun h => hchanged h.2).2, fun hkept => ?_⟩
  rcases hsame.mp hkept with hfile | hunset
  · exact hchanged hfile
  · exact absurd (hunset 7) (by decide)

/-- The header is not written at all: the switch that was on is gone. -/
theorem not_failureLosesNothing :
    ¬ FailureLosesNothing .big allocates ⟨true, true, some 0, none⟩
      (some (contents .big [⟨7, 1⟩])) (.write 9 true) := by
  intro h
  have hread := h (some []) (by decide) 7
  revert hread
  decide

end GamePatch.Settings
