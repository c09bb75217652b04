import GamePatch.Model.LineReader
import GamePatch.Shared.Lines

/-! # What the line loop delivers

The cell under the cursor holds a zero or the last carriage return that was
skipped. A stale carriage return is harmless until the file ends: then it is
tested again and again. -/

namespace GamePatch.LineReader

open Lines

/-- The buffer that `process_line` sees for a line. -/
def lineBuffer (line : List Char) : List Char :=
  line ++ List.replicate (maxLineLength + 1 - line.length) '\x00'

def withoutReturns (line : List Char) : List Char := line.filter (· ≠ '\r')

/-- The buffers that should be delivered for a file. -/
def expectedBuffers (content : List Char) : List (List Char) :=
  (lines '\n' content).map fun line => lineBuffer (withoutReturns line)

/-- The loop over the file ends, having called `processLine` on its lines. -/
def DeliversLines (content : List Char) : Prop :=
  ∀ {σ : Type} (processLine : σ → List Char → σ) (s : σ),
    ∃ fuel, readLines processLine fuel content s =
      .finished ((expectedBuffers content).foldl processLine s)

/-! ## One line -/

/-- The buffer while a line is read: the characters kept so far, the cell under
the cursor, and zeros. -/
def partialBuffer (kept : List Char) (cell : Char) : List Char :=
  kept ++ cell :: List.replicate (maxLineLength - kept.length) '\x00'

/-- What the cell under the cursor may hold before a byte is read into it. -/
def Stale (cell : Char) : Prop := cell = '\x00' ∨ cell = '\r'

theorem zeroedBuffer_eq : zeroedBuffer = partialBuffer [] '\x00' := rfl

theorem length_partialBuffer (kept : List Char) (cell : Char)
    (hkept : kept.length ≤ maxLineLength) :
    (partialBuffer kept cell).length = maxLineLength + 1 := by
  simp only [partialBuffer, List.length_append, List.length_cons, List.length_replicate]
  omega

theorem partialBuffer_set (kept : List Char) (cell c : Char) :
    (partialBuffer kept cell).set kept.length c = partialBuffer kept c := by
  simp [partialBuffer]

theorem partialBuffer_get (kept : List Char) (cell : Char) :
    (partialBuffer kept cell)[kept.length]? = some cell := by
  simp [partialBuffer]

theorem partialBuffer_zero (kept : List Char) (hkept : kept.length ≤ maxLineLength) :
    partialBuffer kept '\x00' = lineBuffer kept := by
  have hlen : maxLineLength + 1 - kept.length = maxLineLength - kept.length + 1 := by omega
  rw [partialBuffer, lineBuffer, hlen, List.replicate_succ]

/-- Keeping a character moves the cursor onto a cell that is still zero. -/
theorem partialBuffer_keep (kept : List Char) (c : Char) (hkept : kept.length < maxLineLength) :
    partialBuffer kept c = partialBuffer (kept ++ [c]) '\x00' := by
  have hlen : maxLineLength - kept.length = maxLineLength - (kept ++ [c]).length + 1 := by
    rw [List.length_append, List.length_singleton]
    omega
  rw [partialBuffer, partialBuffer, hlen, List.replicate_succ]
  simp

theorem store_partialBuffer (kept : List Char) (cell c : Char)
    (hkept : kept.length ≤ maxLineLength) :
    store (partialBuffer kept cell) kept.length c = some (partialBuffer kept c) := by
  have hlen := length_partialBuffer kept cell hkept
  have hlt : kept.length < (partialBuffer kept cell).length := by omega
  rw [store, if_pos hlt, partialBuffer_set]

/-- The terminator written at the end of the file falls on a cell that is zero. -/
theorem store_partialBuffer_succ (kept : List Char) (hkept : kept.length < maxLineLength) :
    store (partialBuffer kept '\x00') (kept.length + 1) '\x00' =
      some (partialBuffer kept '\x00') := by
  have hlen := length_partialBuffer kept '\x00' (Nat.le_of_lt hkept)
  have hlt : kept.length + 1 < (partialBuffer kept '\x00').length := by omega
  have hset : (partialBuffer kept '\x00').set (kept.length + 1) '\x00' =
      partialBuffer kept '\x00' := by
    simp [partialBuffer]
  rw [store, if_pos hlt, hset]

theorem withoutReturns_cons (c : Char) (line : List Char) :
    withoutReturns (c :: line) =
      if c = '\r' then withoutReturns line else c :: withoutReturns line := by
  by_cases h : c = '\r' <;> simp [withoutReturns, h]

theorem length_withoutReturns_le (line : List Char) :
    (withoutReturns line).length ≤ line.length := List.length_filter_le _ _

/-- One round on a byte that ends neither the line nor the file. A carriage return
needs no room behind the cursor. -/
theorem fileReadLine_cons (fuel : ℕ) (kept : List Char) (cell c : Char) (file : List Char)
    (br bw : ℕ) (hc : c ≠ '\n')
    (hkept : kept.length + (withoutReturns [c]).length ≤ maxLineLength) :
    fileReadLine (fuel + 1) ⟨partialBuffer kept cell, kept.length, c :: file, br, bw⟩ =
      if c = '\r' then fileReadLine fuel ⟨partialBuffer kept c, kept.length, file, br + 1, bw⟩
      else
        fileReadLine fuel
          ⟨partialBuffer (kept ++ [c]) '\x00', (kept ++ [c]).length, file, br + 1, bw + 1⟩ := by
  have hle : kept.length ≤ maxLineLength := by omega
  by_cases hr : c = '\r'
  · subst hr
    simp [fileReadLine, fileRead, store_partialBuffer kept cell _ hle, partialBuffer_get]
  · rw [withoutReturns_cons, if_neg hr, List.length_cons] at hkept
    rw [← partialBuffer_keep kept c (by omega)]
    simp [fileReadLine, fileRead, store_partialBuffer kept cell c hle, partialBuffer_get, hr, hc]

/-- A line that ends in a newline is delivered. The induction carries the
characters kept so far and whatever is left in the cell under the cursor. -/
theorem fileReadLine_newline (line : List Char) (hline : '\n' ∉ line) (rest : List Char) :
    ∀ (fuel : ℕ) (kept : List Char) (cell : Char) (br bw : ℕ), line.length < fuel →
      kept.length + (withoutReturns line).length ≤ maxLineLength →
      ∃ cursor bw', fileReadLine fuel
          ⟨partialBuffer kept cell, kept.length, line ++ '\n' :: rest, br, bw⟩ =
        .returned ⟨lineBuffer (kept ++ withoutReturns line), cursor, rest,
          br + line.length + 1, bw'⟩ := by
  induction line with
  | nil =>
      intro fuel kept cell br bw hfuel hkept
      obtain ⟨fuel, rfl⟩ := Nat.exists_eq_add_one.mpr hfuel
      refine ⟨kept.length, bw, ?_⟩
      have hle : kept.length ≤ maxLineLength := by omega
      simp [fileReadLine, fileRead, store_partialBuffer kept cell '\n' hle, partialBuffer_get,
        partialBuffer_set, partialBuffer_zero kept hle, withoutReturns]
  | cons c line ih =>
      intro fuel kept cell br bw hfuel hkept
      obtain ⟨fuel, rfl⟩ := Nat.exists_eq_add_one.mpr (Nat.zero_lt_of_lt hfuel)
      have hc : c ≠ '\n' := fun h => hline (by simp [h])
      have hline' : '\n' ∉ line := fun h => hline (List.mem_cons_of_mem c h)
      rw [List.length_cons] at hfuel
      by_cases hr : c = '\r'
      · rw [withoutReturns_cons, if_pos hr] at hkept ⊢
        rcases ih hline' fuel kept c (br + 1) bw (by omega) hkept with ⟨cursor, bw', h⟩
        refine ⟨cursor, bw', ?_⟩
        rw [List.cons_append, fileReadLine_cons fuel kept cell c _ br bw hc
          (by simp [withoutReturns, hr]; omega), if_pos hr, h]
        simp [Nat.add_assoc, Nat.add_comm 1]
      · rw [withoutReturns_cons, if_neg hr] at hkept ⊢
        rw [List.length_cons] at hkept
        rcases ih hline' fuel (kept ++ [c]) '\x00' (br + 1) (bw + 1) (by omega)
          (by rw [List.length_append, List.length_singleton]; omega) with ⟨cursor, bw', h⟩
        refine ⟨cursor, bw', ?_⟩
        rw [List.cons_append, fileReadLine_cons fuel kept cell c _ br bw hc
          (by simp [withoutReturns, hr]; omega), if_neg hr, h]
        simp [Nat.add_assoc, Nat.add_comm 1]

/-- A call that is given fewer rounds than the line has bytes is still running. -/
theorem fileReadLine_short (line : List Char) (hline : '\n' ∉ line) (rest : List Char) :
    ∀ (fuel : ℕ) (kept : List Char) (cell : Char) (br bw : ℕ), fuel ≤ line.length →
      kept.length + (withoutReturns line).length ≤ maxLineLength →
      fileReadLine fuel ⟨partialBuffer kept cell, kept.length, line ++ rest, br, bw⟩ =
        .running := by
  induction line with
  | nil =>
      intro fuel kept cell br bw hfuel hkept
      obtain rfl : fuel = 0 := by simpa using hfuel
      rfl
  | cons c line ih =>
      intro fuel kept cell br bw hfuel hkept
      have hc : c ≠ '\n' := fun h => hline (by simp [h])
      have hline' : '\n' ∉ line := fun h => hline (List.mem_cons_of_mem c h)
      rw [List.length_cons] at hfuel
      cases fuel with
      | zero => rfl
      | succ fuel =>
          by_cases hr : c = '\r'
          · rw [withoutReturns_cons, if_pos hr] at hkept
            rw [List.cons_append, fileReadLine_cons fuel kept cell c _ br bw hc
              (by simp [withoutReturns, hr]; omega), if_pos hr]
            exact ih hline' fuel kept c (br + 1) bw (by omega) hkept
          · rw [withoutReturns_cons, if_neg hr, List.length_cons] at hkept
            rw [List.cons_append, fileReadLine_cons fuel kept cell c _ br bw hc
              (by simp [withoutReturns, hr]; omega), if_neg hr]
            exact ih hline' fuel (kept ++ [c]) '\x00' (br + 1) (bw + 1) (by omega)
              (by rw [List.length_append, List.length_singleton]; omega)

/-- The last character of a line with the cell under the cursor in front. -/
theorem getLast?_cons_keep {cell c : Char} {line : List Char}
    (hlast : (cell :: c :: line).getLast? ≠ some '\r') :
    ('\x00' :: line).getLast? ≠ some '\r' := by
  cases line with
  | nil => simp
  | cons d line => simpa [List.getLast?_cons_cons] using hlast

/-- A last line without a newline is delivered when no carriage return is left
in the cell under the cursor. -/
theorem fileReadLine_endOfFile (line : List Char) (hline : '\n' ∉ line) :
    ∀ (fuel : ℕ) (kept : List Char) (cell : Char) (br bw : ℕ), line.length < fuel →
      kept.length + (withoutReturns line).length < maxLineLength → Stale cell →
      (cell :: line).getLast? ≠ some '\r' →
      ∃ cursor bw', fileReadLine fuel ⟨partialBuffer kept cell, kept.length, line, br, bw⟩ =
        .returned ⟨lineBuffer (kept ++ withoutReturns line), cursor, [],
          br + line.length, bw'⟩ := by
  induction line with
  | nil =>
      intro fuel kept cell br bw hfuel hkept hstale hlast
      obtain ⟨fuel, rfl⟩ := Nat.exists_eq_add_one.mpr hfuel
      have hcell : cell = '\x00' := by
        rcases hstale with h | h
        · exact h
        · exact absurd (by simp [h]) hlast
      subst hcell
      have hlt : kept.length < maxLineLength := by omega
      refine ⟨kept.length + 1, bw, ?_⟩
      simp [fileReadLine, fileRead, partialBuffer_get, withoutReturns,
        store_partialBuffer_succ kept hlt, ← partialBuffer_zero kept (Nat.le_of_lt hlt)]
  | cons c line ih =>
      intro fuel kept cell br bw hfuel hkept hstale hlast
      obtain ⟨fuel, rfl⟩ := Nat.exists_eq_add_one.mpr (Nat.zero_lt_of_lt hfuel)
      have hc : c ≠ '\n' := fun h => hline (by simp [h])
      have hline' : '\n' ∉ line := fun h => hline (List.mem_cons_of_mem c h)
      rw [List.length_cons] at hfuel
      by_cases hr : c = '\r'
      · rw [withoutReturns_cons, if_pos hr] at hkept ⊢
        rw [List.getLast?_cons_cons] at hlast
        rcases ih hline' fuel kept c (br + 1) bw (by omega) hkept (Or.inr hr) hlast with
          ⟨cursor, bw', h⟩
        refine ⟨cursor, bw', ?_⟩
        rw [fileReadLine_cons fuel kept cell c _ br bw hc (by simp [withoutReturns, hr]; omega),
          if_pos hr, h]
        simp [Nat.add_assoc, Nat.add_comm 1]
      · rw [withoutReturns_cons, if_neg hr] at hkept ⊢
        rw [List.length_cons] at hkept
        rcases ih hline' fuel (kept ++ [c]) '\x00' (br + 1) (bw + 1) (by omega)
          (by rw [List.length_append, List.length_singleton]; omega) (Or.inl rfl)
          (getLast?_cons_keep hlast) with ⟨cursor, bw', h⟩
        refine ⟨cursor, bw', ?_⟩
        rw [fileReadLine_cons fuel kept cell c _ br bw hc (by simp [withoutReturns, hr]; omega),
          if_neg hr, h]
        simp [Nat.add_assoc, Nat.add_comm 1]

/-- With a carriage return under the cursor at the end of the file, every round
leaves everything as it is. -/
theorem fileReadLine_stuck (fuel : ℕ) (kept : List Char) (br bw : ℕ) :
    fileReadLine fuel ⟨partialBuffer kept '\r', kept.length, [], br, bw⟩ = .running := by
  induction fuel with
  | zero => rfl
  | succ fuel ih => simpa [fileReadLine, fileRead, partialBuffer_get] using ih

/-- A last line that ends in a carriage return is never returned. -/
theorem fileReadLine_running (line : List Char) (hline : '\n' ∉ line) :
    ∀ (fuel : ℕ) (kept : List Char) (cell : Char) (br bw : ℕ),
      kept.length + (withoutReturns line).length ≤ maxLineLength →
      (cell :: line).getLast? = some '\r' →
      fileReadLine fuel ⟨partialBuffer kept cell, kept.length, line, br, bw⟩ = .running := by
  induction line with
  | nil =>
      intro fuel kept cell br bw hkept hlast
      obtain rfl : cell = '\r' := by simpa using hlast
      exact fileReadLine_stuck fuel kept br bw
  | cons c line ih =>
      intro fuel kept cell br bw hkept hlast
      have hc : c ≠ '\n' := fun h => hline (by simp [h])
      have hline' : '\n' ∉ line := fun h => hline (List.mem_cons_of_mem c h)
      rw [List.getLast?_cons_cons] at hlast
      cases fuel with
      | zero => rfl
      | succ fuel =>
          by_cases hr : c = '\r'
          · rw [withoutReturns_cons, if_pos hr] at hkept
            rw [fileReadLine_cons fuel kept cell c _ br bw hc
              (by simp [withoutReturns, hr]; omega), if_pos hr]
            exact ih hline' fuel kept c (br + 1) bw hkept hlast
          · rw [withoutReturns_cons, if_neg hr, List.length_cons] at hkept
            rw [fileReadLine_cons fuel kept cell c _ br bw hc
              (by simp [withoutReturns, hr]; omega), if_neg hr]
            apply ih hline' fuel (kept ++ [c]) '\x00' (br + 1) (bw + 1)
              (by rw [List.length_append, List.length_singleton]; omega)
            cases line with
            | nil => simp [hr] at hlast
            | cons d line => simpa [List.getLast?_cons_cons] using hlast

/-! ## The whole file -/

theorem getLast?_append_newline (line rest : List Char) :
    (line ++ '\n' :: rest).getLast? = if rest = [] then some '\n' else rest.getLast? := by
  cases rest with
  | nil => simp
  | cons c rest =>
      rw [if_neg (by simp), List.getLast?_append, List.getLast?_cons_cons,
        List.getLast?_eq_some_getLast (List.cons_ne_nil c rest), Option.some_or]

/-- A round of the loop whose line is returned. -/
theorem lineLoop_returned {σ : Type*} (processLine : σ → List Char → σ) (fsz fuel add bw : ℕ)
    (file : List Char) (s : σ) (r : LineState) (hadd : add < fsz) (hr : r.bytesRead ≠ 0)
    (h : fileReadLine (fuel + 1) ⟨zeroedBuffer, 0, file, 0, bw⟩ = .returned r) :
    lineLoop processLine fsz (fuel + 1) add bw file s =
      lineLoop processLine fsz fuel (add + r.bytesRead) r.bytesWritten r.file
        (processLine s r.buffer) := by
  rw [lineLoop, if_pos hadd, h]
  simp only [hr, if_false]

/-- With fuel for every byte of the rest of the file, the loop delivers its
lines. The number of bytes counted so far and the bytes left make up the size. -/
theorem lineLoop_finished {σ : Type*} (processLine : σ → List Char → σ) (fsz : ℕ)
    (file : List Char) (hlast : file.getLast? ≠ some '\r')
    (hlines : ∀ line ∈ lines '\n' file, (withoutReturns line).length < maxLineLength) :
    ∀ (fuel add bw : ℕ) (s : σ), file.length < fuel → add + file.length = fsz →
      lineLoop processLine fsz fuel add bw file s =
        .finished ((expectedBuffers file).foldl processLine s) := by
  induction file using lines_induction '\n' with
  | nil =>
      intro fuel add bw s hfuel hsize
      obtain ⟨fuel, rfl⟩ := Nat.exists_eq_add_one.mpr hfuel
      have hadd : ¬ add < fsz := by simp at hsize; omega
      simp [lineLoop, hadd, expectedBuffers]
  | unterminated line hne hline =>
      intro fuel add bw s hfuel hsize
      have hpos : 0 < line.length := List.length_pos_iff.mpr hne
      obtain ⟨fuel, rfl⟩ := Nat.exists_eq_add_one.mpr (Nat.zero_lt_of_lt hfuel)
      have hlen : (withoutReturns line).length < maxLineLength :=
        hlines line (by simp [lines_of_not_mem '\n' hne hline])
      have hlast' : ('\x00' :: line).getLast? ≠ some '\r' := by
        obtain ⟨c, cs, rfl⟩ := List.exists_cons_of_ne_nil hne
        rwa [List.getLast?_cons_cons]
      obtain ⟨cursor, bw', hread⟩ := fileReadLine_endOfFile line hline (fuel + 1) [] '\x00' 0 bw
        hfuel (by simpa using hlen) (Or.inl rfl) hlast'
      rw [lineLoop_returned processLine fsz fuel add bw line s _ (by omega) (by simp; omega)
        hread]
      obtain ⟨fuel, rfl⟩ := Nat.exists_eq_add_one.mpr (show 0 < fuel by omega)
      have hadd : ¬ add + (0 + line.length) < fsz := by omega
      rw [lineLoop, if_neg hadd]
      simp [expectedBuffers, lines_of_not_mem '\n' hne hline]
  | terminated line rest hline ih =>
      intro fuel add bw s hfuel hsize
      obtain ⟨fuel, rfl⟩ := Nat.exists_eq_add_one.mpr (Nat.zero_lt_of_lt hfuel)
      rw [lines_append_sep '\n' hline] at hlines
      simp only [List.length_append, List.length_cons] at hfuel hsize
      obtain ⟨cursor, bw', hread⟩ := fileReadLine_newline line hline rest (fuel + 1) [] '\x00' 0 bw
        (by omega) (by simpa using Nat.le_of_lt (hlines line (by simp)))
      rw [lineLoop_returned processLine fsz fuel add bw _ s _ (by omega) (by simp) hread]
      rw [ih ?_ (fun l hl => hlines l (List.mem_cons_of_mem _ hl)) fuel _ bw' _ (by omega)
        (by simp; omega)]
      · simp [expectedBuffers, lines_append_sep '\n' hline]
      · rw [getLast?_append_newline] at hlast
        split_ifs at hlast with hrest
        · simp [hrest]
        · exact hlast

/-- A file that ends in a carriage return keeps the loop running for ever. -/
theorem lineLoop_running {σ : Type*} (processLine : σ → List Char → σ) (fsz : ℕ)
    (file : List Char) (hlast : file.getLast? = some '\r')
    (hlines : ∀ line ∈ lines '\n' file, (withoutReturns line).length ≤ maxLineLength) :
    ∀ (fuel add bw : ℕ) (s : σ), add + file.length = fsz →
      lineLoop processLine fsz fuel add bw file s = .running := by
  induction file using lines_induction '\n' with
  | nil => simp at hlast
  | unterminated line hne hline =>
      intro fuel add bw s hsize
      have hpos : 0 < line.length := List.length_pos_iff.mpr hne
      have hlen : (withoutReturns line).length ≤ maxLineLength :=
        hlines line (by simp [lines_of_not_mem '\n' hne hline])
      have hlast' : ('\x00' :: line).getLast? = some '\r' := by
        obtain ⟨c, cs, rfl⟩ := List.exists_cons_of_ne_nil hne
        rwa [List.getLast?_cons_cons]
      cases fuel with
      | zero => rfl
      | succ fuel =>
          have hread := fileReadLine_running line hline (fuel + 1) [] '\x00' 0 bw
            (by simpa using hlen) hlast'
          rw [lineLoop, if_pos (by omega), zeroedBuffer_eq]
          simp only [List.length_nil] at hread
          rw [hread]
  | terminated line rest hline ih =>
      intro fuel add bw s hsize
      rw [lines_append_sep '\n' hline] at hlines
      simp only [List.length_append, List.length_cons] at hsize
      have hrest : rest ≠ [] := by
        rintro rfl
        simp at hlast
      rw [getLast?_append_newline, if_neg hrest] at hlast
      cases fuel with
      | zero => rfl
      | succ fuel =>
          by_cases hfuel : line.length < fuel + 1
          · obtain ⟨cursor, bw', hread⟩ := fileReadLine_newline line hline rest (fuel + 1) []
              '\x00' 0 bw hfuel (by simpa using hlines line (by simp))
            rw [lineLoop_returned processLine fsz fuel add bw _ s _ (by omega) (by simp) hread]
            exact ih hlast (fun l hl => hlines l (List.mem_cons_of_mem _ hl)) fuel _ bw' _
              (by simp; omega)
          · rw [lineLoop, if_pos (by omega), zeroedBuffer_eq]
            have hread := fileReadLine_short line hline ('\n' :: rest) (fuel + 1) [] '\x00' 0 bw
              (Nat.le_of_not_lt hfuel) (by simpa using hlines line (by simp))
            simp only [List.length_nil] at hread
            rw [hread]

/-- Two loops over one file keep their states related if their steps do. -/
theorem lineLoop_related {σ τ : Type*} {R : σ → τ → Prop} {stepσ : σ → List Char → σ}
    {stepτ : τ → List Char → τ} (hstep : ∀ s t buffer, R s t → R (stepσ s buffer) (stepτ t buffer))
    (fsz : ℕ) :
    ∀ (fuel add bw : ℕ) (file : List Char) (s s' : σ) (t : τ), R s t →
      lineLoop stepσ fsz fuel add bw file s = .finished s' →
      ∃ t', lineLoop stepτ fsz fuel add bw file t = .finished t' ∧ R s' t' := by
  intro fuel
  induction fuel with
  | zero =>
      intro add bw file s s' t hrel hrun
      cases hrun
  | succ fuel ih =>
      intro add bw file s s' t hrel hrun
      rw [lineLoop] at hrun ⊢
      by_cases hadd : add < fsz
      · rw [if_pos hadd] at hrun ⊢
        cases hread : fileReadLine (fuel + 1) ⟨zeroedBuffer, 0, file, 0, bw⟩ with
        | overflow =>
            rw [hread] at hrun
            cases hrun
        | running =>
            rw [hread] at hrun
            cases hrun
        | returned r =>
            rw [hread] at hrun
            by_cases hzero : r.bytesRead = 0
            · simp only [if_pos hzero] at hrun ⊢
              cases hrun
              exact ⟨t, rfl, hrel⟩
            · simp only [if_neg hzero] at hrun ⊢
              exact ih _ _ _ _ _ _ (hstep s t r.buffer hrel) hrun
      · rw [if_neg hadd] at hrun ⊢
        cases hrun
        exact ⟨t, rfl, hrel⟩

/-- The loop delivers the lines of a file exactly when the file does not end in a
carriage return. -/
theorem deliversLines_iff (content : List Char)
    (hlines : ∀ line ∈ lines '\n' content, line.length < maxLineLength) :
    DeliversLines content ↔ content.getLast? ≠ some '\r' := by
  apply Iff.intro
  · intro h hlast
    rcases h (fun (calls : ℕ) _ => calls + 1) 0 with ⟨fuel, hfinished⟩
    have hkept : ∀ line ∈ lines '\n' content, (withoutReturns line).length ≤ maxLineLength :=
      fun line hline => (length_withoutReturns_le line).trans (Nat.le_of_lt (hlines line hline))
    rw [readLines, lineLoop_running _ content.length content hlast hkept fuel 0 0 0 (by simp)]
      at hfinished
    cases hfinished
  · intro hlast σ processLine s
    refine ⟨content.length + 1, ?_⟩
    have hkept : ∀ line ∈ lines '\n' content, (withoutReturns line).length < maxLineLength :=
      fun line hline => (length_withoutReturns_le line).trans_lt (hlines line hline)
    exact lineLoop_finished processLine content.length content hlast hkept _ 0 0 s (by omega)
      (by simp)

/-- Three lines, with a carriage return before a newline and one inside the last
line, which lacks its newline. -/
theorem deliversLines_iff_mixed :
    DeliversLines ['a', '\r', '\n', '\n', 'b', '\r', 'c'] ↔
      ['a', '\r', '\n', '\n', 'b', '\r', 'c'].getLast? ≠ some '\r' :=
  deliversLines_iff _ (by decide)

/-- One line that ends in a carriage return and lacks its newline. -/
theorem not_deliversLines : ¬ DeliversLines ['x', '\r'] := by
  intro h
  rcases h (fun (calls : ℕ) _ => calls + 1) 0 with ⟨fuel, hfinished⟩
  have hrunning := lineLoop_running (fun (calls : ℕ) _ => calls + 1) 2 ['x', '\r'] rfl
    (by decide) fuel 0 0 0 rfl
  cases hrunning.symm.trans hfinished

end GamePatch.LineReader
