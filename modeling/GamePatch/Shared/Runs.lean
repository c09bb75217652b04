import Mathlib.Data.List.Basic

/-! # Runs of a step function that may fail

A run feeds a list of inputs to a step function. An invariant may speak about
the inputs read so far, and the steps may be known to meet a condition. -/

namespace GamePatch.Runs

variable {σ ι : Type*} {step : σ → ι → Option σ}

/-- Every step that the run takes meets `P`. -/
def EveryStep (step : σ → ι → Option σ) (P : σ → ι → Prop) : σ → List ι → Prop
  | _, [] => True
  | s, i :: is => P s i ∧ ∀ s', step s i = some s' → EveryStep step P s' is

instance decidableEveryStep {P : σ → ι → Prop} [∀ s i, Decidable (P s i)] :
    ∀ (s : σ) (is : List ι), Decidable (EveryStep step P s is)
  | _, [] => isTrue trivial
  | s, i :: is =>
      match h : step s i with
      | none => decidable_of_iff (P s i) (by simp [EveryStep, h])
      | some s' =>
          have := decidableEveryStep (P := P) s' is
          decidable_of_iff (P s i ∧ EveryStep step P s' is) (by simp [EveryStep, h])

theorem foldlM_cons_eq_some {s s' : σ} {i : ι} {is : List ι} :
    (i :: is).foldlM step s = some s' ↔
      ∃ mid, step s i = some mid ∧ is.foldlM step mid = some s' := by
  rw [List.foldlM_cons]
  exact Option.bind_eq_some_iff

/-- What holds of the state and the inputs before the run, and is carried over by
every step, holds after the run. -/
theorem invariant_of_run {P : σ → ι → Prop} (inv : List ι → σ → Prop)
    (hstep : ∀ seen s i s', inv seen s → P s i → step s i = some s' → inv (seen ++ [i]) s')
    {is : List ι} : ∀ (seen : List ι) {s s'}, inv seen s → EveryStep step P s is →
      is.foldlM step s = some s' → inv (seen ++ is) s' := by
  induction is with
  | nil =>
      intro seen s s' hinv _ hrun
      obtain rfl : s = s' := by simpa using hrun
      simpa using hinv
  | cons i is ih =>
      intro seen s s' hinv hevery hrun
      obtain ⟨mid, hmid, hrest⟩ := foldlM_cons_eq_some.mp hrun
      have hinv' := hstep seen s i mid hinv hevery.1 hmid
      simpa using ih (seen ++ [i]) hinv' (hevery.2 mid hmid) hrest

theorem everyStep_of_mem {P : σ → ι → Prop} {is : List ι} (h : ∀ i ∈ is, ∀ s, P s i) :
    ∀ s, EveryStep step P s is := by
  induction is with
  | nil => exact fun _ => trivial
  | cons i is ih =>
      rw [List.forall_mem_cons] at h
      exact fun s => ⟨h.1 s, fun s' _ => ih h.2 s'⟩

theorem everyStep_of_forall {P : σ → ι → Prop} (h : ∀ s i, P s i) {is : List ι} :
    ∀ s, EveryStep step P s is :=
  everyStep_of_mem fun i _ s => h s i

theorem everyStep_append {P : σ → ι → Prop} {is js : List ι} :
    ∀ {s}, EveryStep step P s (is ++ js) ↔ EveryStep step P s is ∧
      ∀ s', is.foldlM step s = some s' → EveryStep step P s' js := by
  induction is with
  | nil =>
      intro s
      simp [EveryStep]
  | cons i is ih =>
      intro s
      simp only [List.cons_append, EveryStep, foldlM_cons_eq_some, ih]
      constructor
      · rintro ⟨hP, hrest⟩
        refine ⟨⟨hP, fun mid hmid => (hrest mid hmid).1⟩, ?_⟩
        rintro s' ⟨mid, hmid, hrun⟩
        exact (hrest mid hmid).2 s' hrun
      · rintro ⟨⟨hP, hleft⟩, hright⟩
        exact ⟨hP, fun mid hmid => ⟨hleft mid hmid, fun s' hrun => hright s' ⟨mid, hmid, hrun⟩⟩⟩

end GamePatch.Runs
