import Mathlib.Algebra.Ring.Nat
import Mathlib.Data.List.Basic
import Mathlib.Data.List.Flatten

/-! # Sums and concatenations over a list

Each element contributes a number or a list. The whole tells what the elements
contribute as far as a bound or a key sets them apart. -/

namespace GamePatch.Parts

/-! ## Counting -/

section

variable {α : Type*} (w : α → Prop) [DecidablePred w] (h : α → ℕ)

theorem countP_le_sum {l : List α} (hle : ∀ x ∈ l, w x → 1 ≤ h x) :
    l.countP (fun x => decide (w x)) ≤ (l.map h).sum := by
  induction l with
  | nil => simp
  | cons x l ih =>
      have ih' := ih fun y hy => hle y (List.mem_cons_of_mem x hy)
      by_cases hx : w x
      · have := hle x (by simp) hx
        simp [hx]
        omega
      · simp [hx]
        omega

/-- Counts that are positive where `w` holds add up to the number of its instances
exactly when each of them is one there and zero elsewhere. -/
theorem sum_eq_countP_iff {l : List α} (hle : ∀ x ∈ l, w x → 1 ≤ h x) :
    (l.map h).sum = l.countP (fun x => decide (w x)) ↔
      ∀ x ∈ l, h x = if w x then 1 else 0 := by
  induction l with
  | nil => simp
  | cons x l ih =>
      have hle' : ∀ y ∈ l, w y → 1 ≤ h y := fun y hy => hle y (List.mem_cons_of_mem x hy)
      have hrest := countP_le_sum w h hle'
      rw [List.forall_mem_cons, ← ih hle', List.map_cons, List.sum_cons]
      by_cases hx : w x
      · have hfirst := hle x (by simp) hx
        simp only [hx, decide_true, List.countP_cons_of_pos, if_true]
        omega
      · simp only [hx, decide_false, Bool.false_eq_true, not_false_eq_true,
          List.countP_cons_of_neg, if_false]
        omega

end

/-! ## Concatenations -/

theorem zipIdx_take_succ {α : Type*} {xs : List α} {i : ℕ} {x : α} (h : xs[i]? = some x) :
    (xs.take (i + 1)).zipIdx = (xs.take i).zipIdx ++ [(x, i)] := by
  have hlt : i < xs.length := (List.getElem?_eq_some_iff.mp h).1
  rw [List.take_add_one, h, List.zipIdx_append, List.length_take,
    Nat.min_eq_left (Nat.le_of_lt hlt), Nat.zero_add]
  rfl

/-- Concatenations whose parts carry their position agree part by part. -/
theorem flatMap_zipIdx_inj {α β : Type*} (key : α → ℕ) {f g : β × ℕ → List α} (xs : List β) :
    ∀ {k : ℕ}, (∀ p ∈ xs.zipIdx k, ∀ x ∈ f p, key x = p.2) →
      (∀ p ∈ xs.zipIdx k, ∀ x ∈ g p, key x = p.2) →
      (xs.zipIdx k).flatMap f = (xs.zipIdx k).flatMap g → ∀ p ∈ xs.zipIdx k, f p = g p := by
  induction xs with
  | nil => simp
  | cons b xs ih =>
      intro k hf hg h
      rw [List.zipIdx_cons] at hf hg h ⊢
      rw [List.forall_mem_cons] at hf hg ⊢
      rw [List.flatMap_cons, List.flatMap_cons] at h
      -- The parts that follow have keys above `k`.
      have hrest : ∀ e : β × ℕ → List α, (∀ p ∈ xs.zipIdx (k + 1), ∀ x ∈ e p, key x = p.2) →
          ((xs.zipIdx (k + 1)).flatMap e).filter (fun x => decide (key x = k)) = [] := by
        intro e he
        rw [List.filter_eq_nil_iff]
        intro x hx hkey
        obtain ⟨p, hp, hxp⟩ := List.mem_flatMap.mp hx
        have hle := List.le_snd_of_mem_zipIdx hp
        have hpos := he p hp x hxp
        have hk : key x = k := by simpa using hkey
        omega
      have hfirst : ∀ e : β × ℕ → List α, (∀ x ∈ e (b, k), key x = k) →
          (e (b, k)).filter (fun x => decide (key x = k)) = e (b, k) := by
        intro e he
        rw [List.filter_eq_self]
        intro x hx
        simpa using he x hx
      have hfilter := congrArg (List.filter fun x => decide (key x = k)) h
      rw [List.filter_append, List.filter_append, hfirst f hf.1, hfirst g hg.1, hrest f hf.2,
        hrest g hg.2, List.append_nil, List.append_nil] at hfilter
      refine ⟨hfilter, ih hf.2 hg.2 ?_⟩
      rw [hfilter] at h
      exact List.append_cancel_left h

/-- Values computed at two places, whose index can be read off, agree exactly when the
indices do and the values for each of them. -/
theorem flatMap_map_eq_map_iff {α β ι : Type*} (key : β → ι) {f : α → List ι}
    {g : α → ι → β} {h : ι → β} {l : List α} {m : List ι} (hg : ∀ a ∈ l, ∀ i ∈ f a, key (g a i) = i)
    (hh : ∀ i ∈ m, key (h i) = i) :
    (l.flatMap fun a => (f a).map (g a)) = m.map h ↔
      l.flatMap f = m ∧ ∀ a ∈ l, ∀ i ∈ f a, g a i = h i := by
  have hkeys (e : ι → β) (is : List ι) (he : ∀ i ∈ is, key (e i) = i) :
      (is.map e).map key = is := by
    rw [List.map_map]
    exact (List.map_congr_left he).trans is.map_id
  constructor
  · intro heq
    have hindices : l.flatMap f = m := by
      have hmapped := congrArg (List.map key) heq
      rw [hkeys h m hh, List.map_flatMap] at hmapped
      rw [← hmapped]
      exact List.flatMap_congr fun a ha => (hkeys (g a) (f a) (hg a ha)).symm
    refine ⟨hindices, ?_⟩
    subst hindices
    clear hg hh hkeys
    rw [List.map_flatMap] at heq
    induction l with
    | nil => exact fun a ha => absurd ha List.not_mem_nil
    | cons b l ih =>
        rw [List.flatMap_cons, List.flatMap_cons] at heq
        obtain ⟨hfirst, hrest⟩ := List.append_inj heq (by simp)
        exact List.forall_mem_cons.mpr ⟨List.map_inj_left.mp hfirst, ih hrest⟩
  · rintro ⟨rfl, hvalues⟩
    rw [List.map_flatMap]
    exact List.flatMap_congr fun a ha => List.map_congr_left (hvalues a ha)

/-- Keeping more elements changes a concatenation unless they contribute nothing. -/
theorem flatMap_filter_eq_iff {α β : Type*} (f : α → List β) {p q : α → Prop} [DecidablePred p]
    [DecidablePred q] (hqp : ∀ a, q a → p a) (l : List α) :
    (l.filter p).flatMap f = (l.filter q).flatMap f ↔ ∀ a ∈ l, p a → ¬ q a → f a = [] := by
  induction l with
  | nil => simp
  | cons a l ih =>
      by_cases hq : q a
      · have hp := hqp a hq
        simp [hp, hq, ih]
      · by_cases hp : p a
        · have hsub : ((l.filter q).flatMap f).Sublist ((l.filter p).flatMap f) := by
            apply List.Sublist.flatMap
            apply List.monotone_filter_right
            intro a
            simpa using hqp a
          rw [List.filter_cons_of_pos (by simpa using hp),
            List.filter_cons_of_neg (by simpa using hq), List.flatMap_cons]
          apply Iff.intro
          · intro h
            have hnil : f a = [] := by
              have hcount := congrArg List.length h
              have hle := hsub.length_le
              rw [List.length_append] at hcount
              exact List.length_eq_zero_iff.1 (by omega)
            rw [hnil, List.nil_append] at h
            simpa [hnil] using ih.1 h
          · intro h
            have hnil : f a = [] := h a (by simp) hp hq
            rw [hnil, List.nil_append]
            exact ih.2 fun b hb => h b (List.mem_cons_of_mem a hb)
        · simp [hp, hq, ih]

end GamePatch.Parts
