import Mathlib.Data.Nat.Notation
import Mathlib.Data.Option.Basic

/-! # Runs of a machine and forward simulation

A machine takes one step at a time and may get stuck. A run that leaves a region is
followed by another machine when each of its steps is. -/

namespace GamePatch.Simulation

variable {σ τ : Type} {step : σ → Option σ} {step' : τ → Option τ}

/-- The state after `n` steps. -/
def run (step : σ → Option σ) : ℕ → σ → Option σ
  | 0, s => some s
  | n + 1, s => (step s).bind (run step n)

theorem run_succ_of_step {n : ℕ} {s mid : σ} (h : step s = some mid) :
    run step (n + 1) s = run step n mid := by
  rw [run, h, Option.bind_some]

theorem run_add (m n : ℕ) (s : σ) : run step (m + n) s = (run step m s).bind (run step n) := by
  induction m generalizing s with
  | zero => rw [Nat.zero_add, run, Option.bind_some]
  | succ m ih =>
      rw [Nat.add_right_comm, run, run, Option.bind_assoc]
      exact Option.bind_congr fun mid _ => ih mid

theorem run_trans {m n : ℕ} {s mid s' : σ} (h : run step m s = some mid)
    (h' : run step n mid = some s') : run step (m + n) s = some s' := by
  rw [run_add, h, Option.bind_some, h']

/-- The run from the first state ends in the second, the first one outside the region. -/
inductive Leaves (step : σ → Option σ) (inside : σ → Prop) : σ → σ → Prop where
  | out {s} : ¬ inside s → Leaves step inside s s
  | step {s mid s'} : inside s → step s = some mid → Leaves step inside mid s' →
      Leaves step inside s s'

/-- The run from the first state comes to the second before or when it leaves the region. -/
inductive Passes (step : σ → Option σ) (inside : σ → Prop) : σ → σ → Prop where
  | here {s} : Passes step inside s s
  | step {s mid s'} : inside s → step s = some mid → Passes step inside mid s' →
      Passes step inside s s'

variable {inside P : σ → Prop} {R : σ → τ → Prop} {s s' : σ}

theorem passes_iff_of_step {mid : σ} (hinside : inside s) (hstep : step s = some mid) :
    Passes step inside s s' ↔ s' = s ∨ Passes step inside mid s' := by
  constructor
  · intro h
    cases h with
    | here => exact .inl rfl
    | step _ hmid hrest =>
        obtain rfl := Option.some_inj.mp (hstep.symm.trans hmid)
        exact .inr hrest
  · rintro (rfl | h)
    · exact .here
    · exact .step hinside hstep h

theorem passes_iff_of_out (h : ¬ inside s) : Passes step inside s s' ↔ s' = s := by
  constructor
  · intro hpasses
    cases hpasses with
    | here => rfl
    | step hinside => exact absurd hinside h
  · rintro rfl
    exact .here

/-- When every step inside the region is followed by some run that restores the
relation, so is every run that leaves the region. What is known of the states that are
passed may be used. -/
theorem Leaves.simulated
    (hstep : ∀ s t mid, R s t → P s → inside s → step s = some mid →
      ∃ n t', run step' n t = some t' ∧ R mid t')
    {t : τ} (hleaves : Leaves step inside s s') (hpasses : ∀ u, Passes step inside s u → P u)
    (hrel : R s t) :
    ¬ inside s' ∧ P s' ∧ ∃ n t', run step' n t = some t' ∧ R s' t' := by
  induction hleaves generalizing t with
  | out houtside => exact ⟨houtside, hpasses _ .here, 0, t, rfl, hrel⟩
  | step hinside hmid _ ih =>
      obtain ⟨m, t₁, hrun, hrel'⟩ := hstep _ _ _ hrel (hpasses _ .here) hinside hmid
      obtain ⟨houtside, hP, n, t', hrun', hlast⟩ :=
        ih (fun u hu => hpasses u (.step hinside hmid hu)) hrel'
      exact ⟨houtside, hP, m + n, t', run_trans hrun hrun', hlast⟩

end GamePatch.Simulation
