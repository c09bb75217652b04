import Mathlib.Data.List.Basic

/-! # First-match record lists

A list of records is searched for the first record with a given key, and is
updated at that record or at its end. Duplicate keys may be present: later
records with the same key are shadowed and never touched. -/

namespace GamePatch.FirstMatch

variable {ρ κ : Type*} [DecidableEq κ] (key : ρ → κ)

/-- The first record with key `k`. -/
def lookup (k : κ) : List ρ → Option ρ
  | [] => none
  | r :: rs => if key r = k then some r else lookup k rs

/-- Changes the first record with key `k`, if there is one. -/
def update? (k : κ) (change : ρ → ρ) : List ρ → Option (List ρ)
  | [] => none
  | r :: rs => if key r = k then some (change r :: rs) else (update? k change rs).map (r :: ·)

/-- Changes the first record with key `k`, or appends `fresh`. -/
def upsert (k : κ) (change : ρ → ρ) (fresh : ρ) (rs : List ρ) : List ρ :=
  (update? key k change rs).getD (rs ++ [fresh])

@[simp] theorem upsert_nil (k : κ) (change : ρ → ρ) (fresh : ρ) :
    upsert key k change fresh [] = [fresh] := rfl

theorem upsert_cons_self {k : κ} {r : ρ} (change : ρ → ρ) (fresh : ρ) (rs : List ρ)
    (h : key r = k) : upsert key k change fresh (r :: rs) = change r :: rs := by
  simp [upsert, update?, h]

theorem upsert_cons_ne {k : κ} {r : ρ} (change : ρ → ρ) (fresh : ρ) (rs : List ρ)
    (h : key r ≠ k) :
    upsert key k change fresh (r :: rs) = r :: upsert key k change fresh rs := by
  cases hu : update? key k change rs <;> simp [upsert, update?, h, hu]

/-! ## What an update does to later searches -/

variable {key}

theorem length_of_update? {k : κ} {change : ρ → ρ} {rs rs' : List ρ}
    (h : update? key k change rs = some rs') : rs'.length = rs.length := by
  induction rs generalizing rs' with
  | nil => simp [update?] at h
  | cons r rs ih =>
      by_cases hr : key r = k
      · simp only [update?, hr, if_true, Option.some.injEq] at h
        simp [← h]
      · simp only [update?, hr, if_false, Option.map_eq_some_iff] at h
        rcases h with ⟨tail, htail, rfl⟩
        simp [ih htail]

theorem update?_eq_none_iff {k : κ} {change : ρ → ρ} {rs : List ρ} :
    update? key k change rs = none ↔ ∀ r ∈ rs, key r ≠ k := by
  induction rs with
  | nil => simp [update?]
  | cons r rs ih =>
      by_cases hr : key r = k
      · simp [update?, hr]
      · simp [update?, hr, ih]

/-- The updated key answers with the changed record, or with the appended one. -/
theorem lookup_upsert_self {k : κ} {change : ρ → ρ} {fresh : ρ} (rs : List ρ)
    (hchange : ∀ r, key (change r) = key r) (hfresh : key fresh = k) :
    lookup key k (upsert key k change fresh rs) =
      some ((lookup key k rs).elim fresh change) := by
  induction rs with
  | nil => simp [lookup, hfresh]
  | cons r rs ih =>
      by_cases h : key r = k
      · rw [upsert_cons_self key change fresh rs h]
        simp [lookup, hchange, h]
      · rw [upsert_cons_ne key change fresh rs h]
        simpa [lookup, h] using ih

/-- No other key is affected. -/
theorem lookup_upsert_ne {k k' : κ} {change : ρ → ρ} {fresh : ρ} (rs : List ρ)
    (hchange : ∀ r, key (change r) = key r) (hfresh : key fresh = k) (hne : k' ≠ k) :
    lookup key k' (upsert key k change fresh rs) = lookup key k' rs := by
  induction rs with
  | nil => simp [lookup, hfresh, hne.symm]
  | cons r rs ih =>
      by_cases h : key r = k
      · rw [upsert_cons_self key change fresh rs h]
        simp [lookup, hchange, h, hne.symm]
      · rw [upsert_cons_ne key change fresh rs h]
        simp only [lookup, ih]

/-- The keys stay as they are when the key is present, and gain it at the end
otherwise. -/
theorem map_key_upsert {k : κ} {change : ρ → ρ} {fresh : ρ} (rs : List ρ)
    (hchange : ∀ r, key (change r) = key r) (hfresh : key fresh = k) :
    (upsert key k change fresh rs).map key =
      if k ∈ rs.map key then rs.map key else rs.map key ++ [k] := by
  induction rs with
  | nil => simp [hfresh]
  | cons r rs ih =>
      by_cases h : key r = k
      · rw [upsert_cons_self key change fresh rs h]
        simp [hchange, h]
      · rw [upsert_cons_ne key change fresh rs h, List.map_cons, ih]
        by_cases hm : k ∈ rs.map key
        · simp [hm]
        · simp [hm, Ne.symm h]

/-! ## Searching by a test -/

/-- The first hit is `k` when `k` passes and nothing before it does. -/
theorem find?_eq_some_iff_takeWhile {α : Type*} [DecidableEq α] (p : α → Bool) {k : α} {l : List α}
    (hk : k ∈ l) :
    l.find? p = some k ↔ p k = true ∧ ∀ x ∈ l.takeWhile (· ≠ k), p x = false := by
  induction l with
  | nil => cases hk
  | cons x l ih =>
      by_cases hx : x = k
      · subst hx
        rw [List.takeWhile_cons_of_neg (by simp)]
        cases hp : p x with
        | true => simp [hp]
        | false =>
            rw [List.find?_cons_of_neg (by simp [hp])]
            exact iff_of_false (fun h => by simp [List.find?_some h] at hp) (by simp)
      · have hk' : k ∈ l := (List.mem_cons.1 hk).resolve_left (Ne.symm hx)
        rw [List.takeWhile_cons_of_pos (by simp [hx]), List.forall_mem_cons]
        cases hp : p x with
        | true =>
            rw [List.find?_cons_of_pos hp]
            exact iff_of_false (by simp [hx]) (by simp)
        | false =>
            rw [List.find?_cons_of_neg (by simp [hp]), ih hk']
            simp

end GamePatch.FirstMatch
