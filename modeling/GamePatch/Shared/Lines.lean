import Mathlib.Data.List.Basic

/-! # Lines of a text

A text is cut at a separator. The last line may lack it, and no empty line
follows a final separator. -/

namespace GamePatch.Lines

variable {α : Type*} [DecidableEq α] (sep : α)

/-- The lines of a text, without their separators. -/
def lines : List α → List (List α)
  | [] => []
  | c :: cs =>
      if c = sep then [] :: lines cs
      else
        match lines cs with
        | [] => [[c]]
        | l :: ls => (c :: l) :: ls

@[simp] theorem lines_nil : lines sep [] = [] := rfl

theorem lines_append_sep {l : List α} (hl : sep ∉ l) (rest : List α) :
    lines sep (l ++ sep :: rest) = l :: lines sep rest := by
  induction l with
  | nil => simp [lines]
  | cons c l ih =>
      have hc : c ≠ sep := fun h => hl (by simp [h])
      simp [lines, hc, ih (fun h => hl (List.mem_cons_of_mem c h))]

theorem lines_of_not_mem {l : List α} (hne : l ≠ []) (hl : sep ∉ l) : lines sep l = [l] := by
  induction l with
  | nil => exact absurd rfl hne
  | cons c l ih =>
      have hc : c ≠ sep := fun h => hl (by simp [h])
      have hl' : sep ∉ l := fun h => hl (List.mem_cons_of_mem c h)
      cases l with
      | nil => simp [lines, hc]
      | cons d l =>
          rw [lines, if_neg hc, ih (by simp) hl']

/-- A text is empty, a single unterminated line, or a terminated line before
another text. -/
theorem lines_induction {motive : List α → Prop} (nil : motive [])
    (unterminated : ∀ l, l ≠ [] → sep ∉ l → motive l)
    (terminated : ∀ l rest, sep ∉ l → motive rest → motive (l ++ sep :: rest)) :
    ∀ text, motive text := by
  -- The case of a first character needs the statement for every prefix of its line.
  suffices h : ∀ text l, sep ∉ l → motive (l ++ text) from
    fun text => by simpa using h text [] (by simp)
  intro text
  induction text with
  | nil =>
      intro l hl
      rw [List.append_nil]
      by_cases hne : l = []
      · rw [hne]
        exact nil
      · exact unterminated l hne hl
  | cons c text ih =>
      intro l hl
      by_cases hc : c = sep
      · rw [hc]
        exact terminated l text hl (by simpa using ih [] (by simp))
      · have hl' : sep ∉ l ++ [c] := by
          simpa using ⟨hl, fun h => hc h.symm⟩
        simpa using ih (l ++ [c]) hl'

end GamePatch.Lines
