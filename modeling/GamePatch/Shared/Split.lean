import Mathlib.Data.List.Infix

/-! # Texts and separators

A separator that occurs once cuts a text in one way only, so a needle that ends
in it can only be found right before it. A needle without the separator is found on
one side of it. -/

namespace GamePatch.Split

variable {α : Type*} {sep : α}

theorem append_cons_unique {a b c d : List α} (ha : sep ∉ a) (hc : sep ∉ c)
    (h : a ++ sep :: b = c ++ sep :: d) : a = c ∧ b = d := by
  induction a generalizing c with
  | nil =>
      cases c with
      | nil => exact ⟨rfl, by simpa using h⟩
      | cons y c =>
          obtain ⟨rfl, -⟩ := List.cons.inj h
          exact absurd List.mem_cons_self hc
  | cons x a ih =>
      cases c with
      | nil =>
          obtain ⟨rfl, -⟩ := List.cons.inj h
          exact absurd List.mem_cons_self ha
      | cons y c =>
          obtain ⟨rfl, hrest⟩ := List.cons.inj h
          obtain ⟨rfl, hbd⟩ := ih (fun hm => ha (List.mem_cons_of_mem x hm))
            (fun hm => hc (List.mem_cons_of_mem x hm)) hrest
          exact ⟨rfl, hbd⟩

/-- A needle that ends in the separator is found exactly when the text ends in it up
to the separator. -/
theorem infix_iff_suffix {w a b : List α} (ha : sep ∉ a) (hb : sep ∉ b) :
    w ++ [sep] <:+: a ++ sep :: b ↔ w <:+ a := by
  constructor
  · rintro ⟨s, t, h⟩
    have hsplit : (s ++ w) ++ sep :: t = a ++ sep :: b := by simpa using h
    have hsw : sep ∉ s ++ w := by
      intro hm
      -- A separator before the needle's own would leave another one behind the first.
      obtain ⟨u, v, huv, hu⟩ := List.eq_append_cons_of_mem hm
      rw [huv, List.append_assoc, List.cons_append] at hsplit
      obtain ⟨-, rfl⟩ := append_cons_unique hu ha hsplit
      exact hb (by simp)
    obtain ⟨rfl, -⟩ := append_cons_unique hsw ha hsplit
    exact List.suffix_append s w
  · rintro ⟨s, rfl⟩
    exact ⟨s, b, by simp⟩

/-- A needle without the separator lies on one of its sides. -/
theorem infix_append_cons_iff {w : List α} (hw : sep ∉ w) (a b : List α) :
    w <:+: a ++ sep :: b ↔ w <:+: a ∨ w <:+: b := by
  constructor
  · intro h
    rcases h with ⟨s, t, h⟩
    rcases List.append_eq_append_iff.1 h with ⟨u, ha, -⟩ | ⟨u, hsw, hu⟩
    · exact .inl ⟨s, u, ha.symm⟩
    · cases u with
      | nil => exact .inl ⟨s, [], by simpa using hsw⟩
      | cons x u =>
          rcases List.cons.inj hu with ⟨rfl, rfl⟩
          -- The separator lies in the part before the needle.
          rcases List.append_eq_append_iff.1 hsw with ⟨v, -, hv⟩ | ⟨v, hs, hv⟩
          · exact absurd (by rw [hv]; simp) hw
          · cases v with
            | nil => exact absurd (by rw [← List.nil_append w, ← hv]; simp) hw
            | cons y v =>
                rcases List.cons.inj hv with ⟨rfl, rfl⟩
                exact .inr ⟨v, t, rfl⟩
  · intro h
    rcases h with h | h
    · exact h.trans (List.prefix_append a _).isInfix
    · exact h.trans ((List.suffix_cons sep b).trans (List.suffix_append a _)).isInfix

end GamePatch.Split
