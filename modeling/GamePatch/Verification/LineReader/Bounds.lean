import GamePatch.Verification.LineReader.Correctness

/-! # The cells of the line buffer

`fileReadLine` takes the size of its buffer and never looks at it. Only the
characters that are kept move the cursor, so the bound is on these, and at the end
of the file one cell more is needed for the terminator. -/

namespace GamePatch.LineReader

open Lines

/-! ## One line -/

/-- A cursor behind the last cell is fatal, whatever is left of the file. -/
theorem fileReadLine_full (fuel : ℕ) (buffer file : List Char) (br bw : ℕ) :
    fileReadLine (fuel + 1) ⟨buffer, buffer.length, file, br, bw⟩ = .overflow := by
  cases file with
  | nil => simp [fileReadLine, fileRead]
  | cons c file => simp [fileReadLine, fileRead, store]

/-- A character kept in the last cell moves the cursor behind it. -/
theorem fileReadLine_last (fuel : ℕ) (kept : List Char) (cell c : Char) (file : List Char)
    (br bw : ℕ) (hc : c ≠ '\n') (hr : c ≠ '\r') (hkept : kept.length = maxLineLength) :
    fileReadLine (fuel + 2) ⟨partialBuffer kept cell, kept.length, c :: file, br, bw⟩ =
      .overflow := by
  have hnext : kept.length + 1 = (partialBuffer kept c).length := by
    rw [length_partialBuffer kept c (Nat.le_of_eq hkept), hkept]
  rw [fileReadLine]
  simp only [fileRead, store_partialBuffer kept cell c (Nat.le_of_eq hkept), Option.map_some,
    partialBuffer_get, hr, hc, if_false, Nat.one_ne_zero]
  rw [hnext]
  exact fileReadLine_full fuel _ _ _ _

/-- A line with more characters than cells leaves the buffer, whatever follows. -/
theorem fileReadLine_overlong (line : List Char) (hline : '\n' ∉ line) (rest : List Char) :
    ∀ (fuel : ℕ) (kept : List Char) (cell : Char) (br bw : ℕ), line.length < fuel →
      kept.length ≤ maxLineLength → maxLineLength < kept.length + (withoutReturns line).length →
      fileReadLine fuel ⟨partialBuffer kept cell, kept.length, line ++ rest, br, bw⟩ =
        .overflow := by
  induction line with
  | nil =>
      intro fuel kept cell br bw hfuel hkept hlong
      rw [withoutReturns, List.filter_nil, List.length_nil] at hlong
      omega
  | cons c line ih =>
      intro fuel kept cell br bw hfuel hkept hlong
      have hc : c ≠ '\n' := fun h => hline (by simp [h])
      have hline' : '\n' ∉ line := fun h => hline (List.mem_cons_of_mem c h)
      rw [List.length_cons] at hfuel
      obtain ⟨fuel, rfl⟩ := Nat.exists_eq_add_of_lt hfuel
      have hfuel' : line.length < line.length + fuel + 1 := by omega
      rw [List.cons_append, show line.length + 1 + fuel + 1 = (line.length + fuel + 1) + 1 by omega]
      by_cases hr : c = '\r'
      · rw [withoutReturns_cons, if_pos hr] at hlong
        rw [fileReadLine_cons _ kept cell c _ br bw hc (by simpa [withoutReturns, hr]), if_pos hr]
        exact ih hline' _ kept c (br + 1) bw hfuel' hkept hlong
      · rw [withoutReturns_cons, if_neg hr, List.length_cons] at hlong
        by_cases hfull : kept.length = maxLineLength
        · exact fileReadLine_last _ kept cell c _ br bw hc hr hfull
        · have hroom : (kept ++ [c]).length ≤ maxLineLength := by
            rw [List.length_append, List.length_singleton]
            omega
          rw [fileReadLine_cons _ kept cell c _ br bw hc (by simp [withoutReturns, hr]; omega),
            if_neg hr]
          apply ih hline' _ (kept ++ [c]) '\x00' (br + 1) (bw + 1) hfuel' hroom
          rw [List.length_append, List.length_singleton]
          omega

/-- A last line that fills the buffer leaves no cell for the terminator. -/
theorem fileReadLine_unterminated (line : List Char) (hline : '\n' ∉ line) :
    ∀ (fuel : ℕ) (kept : List Char) (cell : Char) (br bw : ℕ), line.length < fuel →
      kept.length + (withoutReturns line).length = maxLineLength → Stale cell →
      (cell :: line).getLast? ≠ some '\r' →
      fileReadLine fuel ⟨partialBuffer kept cell, kept.length, line, br, bw⟩ = .overflow := by
  induction line with
  | nil =>
      intro fuel kept cell br bw hfuel hkept hstale hlast
      obtain ⟨fuel, rfl⟩ := Nat.exists_eq_add_one.mpr hfuel
      have hcell : cell = '\x00' := by
        rcases hstale with h | h
        · exact h
        · exact absurd (by simp [h]) hlast
      subst hcell
      have hfull : kept.length = maxLineLength := hkept
      have hnone : store (partialBuffer kept '\x00') (kept.length + 1) '\x00' = none := by
        rw [store, length_partialBuffer kept _ (Nat.le_of_eq hfull), if_neg (by omega)]
      simp [fileReadLine, fileRead, partialBuffer_get, hnone]
  | cons c line ih =>
      intro fuel kept cell br bw hfuel hkept hstale hlast
      obtain ⟨fuel, rfl⟩ := Nat.exists_eq_add_one.mpr (Nat.zero_lt_of_lt hfuel)
      have hc : c ≠ '\n' := fun h => hline (by simp [h])
      have hline' : '\n' ∉ line := fun h => hline (List.mem_cons_of_mem c h)
      rw [List.length_cons] at hfuel
      by_cases hr : c = '\r'
      · rw [withoutReturns_cons, if_pos hr] at hkept
        rw [List.getLast?_cons_cons] at hlast
        rw [fileReadLine_cons fuel kept cell c _ br bw hc (by simp [withoutReturns, hr]; omega),
          if_pos hr]
        exact ih hline' fuel kept c (br + 1) bw (by omega) hkept (Or.inr hr) hlast
      · rw [withoutReturns_cons, if_neg hr, List.length_cons] at hkept
        rw [fileReadLine_cons fuel kept cell c _ br bw hc (by simp [withoutReturns, hr]; omega),
          if_neg hr]
        apply ih hline' fuel (kept ++ [c]) '\x00' (br + 1) (bw + 1) (by omega) _ (Or.inl rfl)
          (getLast?_cons_keep hlast)
        rw [List.length_append, List.length_singleton]
        omega

/-! ## The whole file -/

/-- No store of the loop falls outside of the buffer, however many rounds are made. -/
def StaysInBuffer (content : List Char) : Prop :=
  ∀ {σ : Type} (processLine : σ → List Char → σ) (fuel : ℕ) (s : σ),
    readLines processLine fuel content s ≠ .overflow

/-- Every line leaves a cell for its newline, and a last line without one leaves
another for the terminator, unless it ends in a carriage return: then the loop never
comes to write it. -/
structure FitsBuffer (content : List Char) : Prop where
  line : ∀ line ∈ lines '\n' content, (withoutReturns line).length ≤ maxLineLength
  last : content.getLast? ≠ some '\n' → content.getLast? ≠ some '\r' →
    ∀ line ∈ (lines '\n' content).getLast?, (withoutReturns line).length < maxLineLength

theorem fitsBuffer_unterminated {line : List Char} (hne : line ≠ []) (hline : '\n' ∉ line) :
    FitsBuffer line ↔ (withoutReturns line).length ≤ maxLineLength ∧
      (line.getLast? ≠ some '\r' → (withoutReturns line).length < maxLineLength) := by
  have hlast : line.getLast? ≠ some '\n' :=
    fun h => hline (List.mem_of_getLast? h)
  apply Iff.intro
  · intro h
    exact ⟨h.line line (by simp [lines_of_not_mem '\n' hne hline]), fun hr =>
      h.last hlast hr line (by simp [lines_of_not_mem '\n' hne hline])⟩
  · intro h
    constructor
    · simpa [lines_of_not_mem '\n' hne hline] using h.1
    · intro _ hr
      simpa [lines_of_not_mem '\n' hne hline] using h.2 hr

theorem lines_ne_nil {content : List Char} (h : content ≠ []) : lines '\n' content ≠ [] := by
  induction content using lines_induction '\n' with
  | nil => exact absurd rfl h
  | unterminated line hne hline => simp [lines_of_not_mem '\n' hne hline]
  | terminated line rest hline => simp [lines_append_sep '\n' hline]

theorem fitsBuffer_terminated {line rest : List Char} (hline : '\n' ∉ line) :
    FitsBuffer (line ++ '\n' :: rest) ↔
      (withoutReturns line).length ≤ maxLineLength ∧ FitsBuffer rest := by
  have hlines := lines_append_sep '\n' hline rest
  have hend := getLast?_append_newline line rest
  by_cases hrest : rest = []
  · subst hrest
    rw [if_pos rfl] at hend
    apply Iff.intro
    · intro h
      refine ⟨h.line line (by simp [hlines]), ?_⟩
      exact ⟨by simp [lines_nil], by simp [lines_nil]⟩
    · intro h
      exact ⟨by simpa [hlines, lines_nil] using h.1, fun hn => absurd hend hn⟩
  · rw [if_neg hrest] at hend
    have hlast : (lines '\n' (line ++ '\n' :: rest)).getLast? = (lines '\n' rest).getLast? := by
      rw [hlines, List.getLast?_cons_of_ne_nil (lines_ne_nil hrest)]
    apply Iff.intro
    · intro h
      refine ⟨h.line line (by simp [hlines]), ?_⟩
      exact ⟨fun l hl => h.line l (by simp [hlines, hl]), by simpa [hend, hlast] using h.last⟩
    · intro h
      constructor
      · intro l hl
        rw [hlines, List.mem_cons] at hl
        rcases hl with hl | hl
        · exact hl ▸ h.1
        · exact h.2.line l hl
      · simpa [hend, hlast] using h.2.last

theorem lineLoop_overflow {σ : Type} (processLine : σ → List Char → σ) (fsz : ℕ)
    (file : List Char) (hfits : ¬ FitsBuffer file) :
    ∀ (fuel add bw : ℕ) (s : σ), file.length < fuel → add + file.length = fsz →
      lineLoop processLine fsz fuel add bw file s = .overflow := by
  induction file using lines_induction '\n' with
  | nil => exact absurd ⟨by simp, by simp⟩ hfits
  | unterminated line hne hline =>
      intro fuel add bw s hfuel hsize
      have hpos : 0 < line.length := List.length_pos_iff.mpr hne
      obtain ⟨fuel, rfl⟩ := Nat.exists_eq_add_one.mpr (Nat.zero_lt_of_lt hfuel)
      have hread : fileReadLine (fuel + 1) ⟨partialBuffer [] '\x00', 0, line, 0, bw⟩ =
          .overflow := by
        by_cases hlong : maxLineLength < (withoutReturns line).length
        · have h := fileReadLine_overlong line hline [] (fuel + 1) [] '\x00' 0 bw hfuel
            (Nat.zero_le _) (by simpa using hlong)
          rwa [List.append_nil] at h
        · rw [fitsBuffer_unterminated hne hline, not_and, Classical.not_imp] at hfits
          rcases hfits (Nat.le_of_not_lt hlong) with ⟨hr, hfull⟩
          have hr' : ('\x00' :: line).getLast? ≠ some '\r' := by
            rwa [List.getLast?_cons_of_ne_nil hne]
          exact fileReadLine_unterminated line hline (fuel + 1) [] '\x00' 0 bw hfuel
            (by rw [List.length_nil]; omega) (Or.inl rfl) hr'
      rw [lineLoop, if_pos (by omega), zeroedBuffer_eq, hread]
  | terminated line rest hline ih =>
      intro fuel add bw s hfuel hsize
      obtain ⟨fuel, rfl⟩ := Nat.exists_eq_add_one.mpr (Nat.zero_lt_of_lt hfuel)
      simp only [List.length_append, List.length_cons] at hfuel hsize
      rw [fitsBuffer_terminated hline, not_and] at hfits
      by_cases hlong : maxLineLength < (withoutReturns line).length
      · have hread := fileReadLine_overlong line hline ('\n' :: rest) (fuel + 1) [] '\x00' 0 bw
          (by omega) (Nat.zero_le _) (by simpa using hlong)
        rw [List.length_nil] at hread
        rw [lineLoop, if_pos (by omega), zeroedBuffer_eq, hread]
      · rcases fileReadLine_newline line hline rest (fuel + 1) [] '\x00' 0 bw (by omega)
          (by simpa using Nat.le_of_not_lt hlong) with ⟨cursor, bw', hread⟩
        rw [lineLoop_returned processLine fsz fuel add bw _ s _ (by omega) (by simp) hread]
        exact ih (hfits (Nat.le_of_not_lt hlong)) fuel _ bw' _ (by omega) (by simp; omega)

theorem lineLoop_done {σ : Type} (processLine : σ → List Char → σ) {fsz add : ℕ}
    (h : ¬ add < fsz) (fuel bw : ℕ) (file : List Char) (s : σ) :
    lineLoop processLine fsz fuel add bw file s ≠ .overflow := by
  cases fuel with
  | zero => simp [lineLoop]
  | succ fuel => simp [lineLoop, h]

theorem lineLoop_ne_overflow {σ : Type} (processLine : σ → List Char → σ) (fsz : ℕ)
    (file : List Char) (hfits : FitsBuffer file) :
    ∀ (fuel add bw : ℕ) (s : σ), add + file.length = fsz →
      lineLoop processLine fsz fuel add bw file s ≠ .overflow := by
  induction file using lines_induction '\n' with
  | nil =>
      intro fuel add bw s hsize
      exact lineLoop_done processLine (by simp at hsize; omega) fuel bw [] s
  | unterminated line hne hline =>
      intro fuel add bw s hsize
      have hpos : 0 < line.length := List.length_pos_iff.mpr hne
      rw [fitsBuffer_unterminated hne hline] at hfits
      cases fuel with
      | zero => simp [lineLoop]
      | succ fuel =>
          by_cases hfuel : line.length < fuel + 1
          · by_cases hr : line.getLast? = some '\r'
            · have hread := fileReadLine_running line hline (fuel + 1) [] '\x00' 0 bw
                (by simpa using hfits.1) (by rwa [List.getLast?_cons_of_ne_nil hne])
              rw [List.length_nil] at hread
              rw [lineLoop, if_pos (by omega), zeroedBuffer_eq, hread]
              simp
            · rcases fileReadLine_endOfFile line hline (fuel + 1) [] '\x00' 0 bw hfuel
                (by simpa using hfits.2 hr) (Or.inl rfl)
                (by rwa [List.getLast?_cons_of_ne_nil hne]) with ⟨cursor, bw', hread⟩
              rw [lineLoop_returned processLine fsz fuel add bw line s _ (by omega)
                (by simp; omega) hread]
              exact lineLoop_done processLine (by simp; omega) fuel _ _ _
          · have hread := fileReadLine_short line hline [] (fuel + 1) [] '\x00' 0 bw
              (Nat.le_of_not_lt hfuel) (by simpa using hfits.1)
            rw [List.append_nil, List.length_nil] at hread
            rw [lineLoop, if_pos (by omega), zeroedBuffer_eq, hread]
            simp
  | terminated line rest hline ih =>
      intro fuel add bw s hsize
      simp only [List.length_append, List.length_cons] at hsize
      rw [fitsBuffer_terminated hline] at hfits
      cases fuel with
      | zero => simp [lineLoop]
      | succ fuel =>
          by_cases hfuel : line.length < fuel + 1
          · rcases fileReadLine_newline line hline rest (fuel + 1) [] '\x00' 0 bw hfuel
              (by simpa using hfits.1) with ⟨cursor, bw', hread⟩
            rw [lineLoop_returned processLine fsz fuel add bw _ s _ (by omega) (by simp) hread]
            exact ih hfits.2 fuel _ bw' _ (by simp; omega)
          · have hread := fileReadLine_short line hline ('\n' :: rest) (fuel + 1) [] '\x00' 0 bw
              (Nat.le_of_not_lt hfuel) (by simpa using hfits.1)
            rw [List.length_nil] at hread
            rw [lineLoop, if_pos (by omega), zeroedBuffer_eq, hread]
            simp

/-- The reader stays in its buffer exactly on the files whose lines fit. -/
theorem staysInBuffer_iff (content : List Char) : StaysInBuffer content ↔ FitsBuffer content := by
  apply Iff.intro
  · intro h
    by_contra hfits
    apply h (fun (calls : ℕ) _ => calls + 1) (content.length + 1) 0
    exact lineLoop_overflow _ content.length content hfits _ 0 0 0 (by omega) (by simp)
  · intro hfits σ processLine fuel s
    exact lineLoop_ne_overflow processLine content.length content hfits fuel 0 0 s (by simp)

/-- A single line of 1024 characters without a newline: the terminator is stored in
cell 1025. -/
theorem not_staysInBuffer : ¬ StaysInBuffer (List.replicate maxLineLength 'a') := by
  intro h
  have hfits : ¬ FitsBuffer (List.replicate maxLineLength 'a') := by
    have hkept : withoutReturns (List.replicate maxLineLength 'a') =
        List.replicate maxLineLength 'a' := List.filter_replicate_of_pos (by decide)
    have hline : '\n' ∉ List.replicate maxLineLength 'a' := by
      rw [List.mem_replicate]
      exact fun h => absurd h.2 (by decide)
    have hne : List.replicate maxLineLength 'a' ≠ [] := by
      rw [Ne, List.replicate_eq_nil_iff]
      decide
    rw [fitsBuffer_unterminated hne hline, hkept, List.length_replicate, List.getLast?_replicate]
    intro hfits
    exact absurd (hfits.2 (by decide)) (lt_irrefl _)
  apply h (fun (calls : ℕ) _ => calls + 1) (maxLineLength + 1) 0
  exact lineLoop_overflow _ _ _ hfits _ 0 0 0 (by simp) (by simp)

end GamePatch.LineReader
