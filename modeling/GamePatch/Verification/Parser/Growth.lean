import GamePatch.Verification.Parser.Missing
import GamePatch.Verification.Parser.Stored

/-! # Failed enlargements

A growing array doubles its capacity before it asks for the memory, and keeps the
doubled capacity when `realloc` fails. From then on the capacity speaks of elements
that the buffer does not have. -/

namespace GamePatch

open Runs

/-! ## The stores into one array -/

namespace GrowArray

variable {α : Type}

/-- The buffer was allocated for as many elements as the capacity says. -/
def Backed (a : GrowArray α) : Prop := a.capacity ≤ a.allocated

/-- Where the next store goes: its index, and the number of elements that the buffer
was allocated for by then. A store that needs memory and gets none is left out. -/
def nextStore (a : GrowArray α) (ok : Bool) : Option (ℕ × ℕ) :=
  if a.isFull then
    if ok then some (a.elems.length, (a.grow true).allocated) else none
  else some (a.elems.length, a.allocated)

/-- With `n` more stores the array is found full at its capacity, at twice its
capacity and so on, and each time `realloc` succeeds. The allocations are counted from
`next`, and `copies` of other memory come with every store. -/
def GrowthSucceeds (alloc : ℕ → Bool) (copies : ℕ) (a : GrowArray α) (next n : ℕ) : Prop :=
  ∀ g, a.capacity * 2 ^ g < a.elems.length + n →
    alloc (next + copies * (a.capacity * 2 ^ g - a.elems.length) + g) = true

/-- No more than one enlargement is asked for. -/
theorem growthSucceeds_of_once {alloc : ℕ → Bool} {copies next n : ℕ} {a : GrowArray α}
    (honce : a.elems.length + n ≤ a.capacity * 2)
    (hgrows : alloc (next + copies * (a.capacity - a.elems.length)) = true) :
    a.GrowthSucceeds alloc copies next n := by
  intro g hg
  cases g with
  | zero => simpa using hgrows
  | succ g =>
      have hpos := Nat.one_le_two_pow (n := g)
      have hmore : a.capacity * 2 ≤ a.capacity * 2 ^ (g + 1) := by
        rw [Nat.pow_succ']
        exact Nat.mul_le_mul_left _ (Nat.le_mul_of_pos_right 2 hpos)
      omega

/-- One store, the allocations being counted from `next` before it and from `next'`
after it. -/
structure StoreStep (alloc : ℕ → Bool) (copies : ℕ) (a : GrowArray α) (next : ℕ)
    (a' : GrowArray α) (next' : ℕ) : Prop where
  wellFormed : a'.WellFormed
  length : a'.elems.length = a.elems.length + 1
  room : ¬ a.isFull = true → a'.capacity = a.capacity ∧ next' = next + copies
  full : a.isFull = true →
    alloc next = true ∧ a'.capacity = a.capacity * 2 ∧ next' = next + 1 + copies

variable {a a' : GrowArray α} {alloc : ℕ → Bool} {copies next next' : ℕ}

theorem WellFormed.backed (h : a.WellFormed) : a.Backed := h.allocated.ge

theorem WellFormed.not_backed_grow (h : a.WellFormed) : ¬ (a.grow false).Backed := by
  have hpos := h.pos
  have hallocated := h.allocated
  simp only [Backed, grow, Bool.false_eq_true, if_false]
  omega

theorem isFull_iff : a.isFull = true ↔ a.capacity ≤ a.elems.length := by
  simp [isFull]

theorem WellFormed.le_capacity_pow (h : a.WellFormed) (g : ℕ) :
    a.elems.length ≤ a.capacity * 2 ^ g :=
  h.fits.trans (Nat.le_mul_of_pos_right _ (Nat.two_pow_pos g))

theorem WellFormed.growthSucceeds_zero (h : a.WellFormed) :
    GrowthSucceeds alloc copies a next 0 := by
  intro g hlt
  exact absurd hlt (Nat.not_lt_of_le (h.le_capacity_pow g))

/-- A store that succeeds leaves the other enlargements to the stores after it. -/
theorem StoreStep.growthSucceeds_iff (hwell : a.WellFormed)
    (h : StoreStep alloc copies a next a' next') (n : ℕ) :
    GrowthSucceeds alloc copies a next (n + 1) ↔ GrowthSucceeds alloc copies a' next' n := by
  have hlen := h.length
  have hpos := hwell.pos
  by_cases hfull : a.isFull = true
  · obtain ⟨halloc, hcap, hnext⟩ := h.full hfull
    have heq : a.elems.length = a.capacity := le_antisymm hwell.fits (isFull_iff.mp hfull)
    have hbound : ∀ g, a.capacity * 2 ^ (g + 1) = a.capacity * 2 * 2 ^ g := by
      intro g
      rw [pow_succ]
      ring
    have hindex : ∀ g, next + copies * (a.capacity * 2 ^ (g + 1) - a.capacity) + (g + 1) =
        next' + copies * (a.capacity * 2 * 2 ^ g - (a.capacity + 1)) + g := by
      intro g
      have hge : a.capacity * 2 ≤ a.capacity * 2 * 2 ^ g :=
        Nat.le_mul_of_pos_right _ (Nat.two_pow_pos g)
      obtain ⟨d, hd⟩ := Nat.exists_eq_add_of_le
        (show a.capacity + 1 ≤ a.capacity * 2 * 2 ^ g by omega)
      rw [hbound, hnext, show a.capacity * 2 * 2 ^ g - a.capacity = d + 1 by omega,
        show a.capacity * 2 * 2 ^ g - (a.capacity + 1) = d by omega]
      ring
    simp only [GrowthSucceeds, hlen, hcap, heq]
    apply Iff.intro
    · intro hgrow g hlt
      rw [← hindex]
      apply hgrow
      rw [hbound]
      omega
    · intro hgrow g hlt
      cases g with
      | zero => simpa using halloc
      | succ g =>
          rw [hindex]
          apply hgrow
          rw [← hbound]
          omega
  · obtain ⟨hcap, hnext⟩ := h.room hfull
    have hlt : a.elems.length < a.capacity := by
      rw [isFull_iff] at hfull
      omega
    have hindex : ∀ g, next + copies * (a.capacity * 2 ^ g - a.elems.length) + g =
        next' + copies * (a.capacity * 2 ^ g - (a.elems.length + 1)) + g := by
      intro g
      have hge : a.capacity ≤ a.capacity * 2 ^ g :=
        Nat.le_mul_of_pos_right _ (Nat.two_pow_pos g)
      obtain ⟨d, hd⟩ := Nat.exists_eq_add_of_le
        (show a.elems.length + 1 ≤ a.capacity * 2 ^ g by omega)
      rw [hnext, show a.capacity * 2 ^ g - a.elems.length = d + 1 by omega,
        show a.capacity * 2 ^ g - (a.elems.length + 1) = d by omega]
      ring
    simp only [GrowthSucceeds, hlen, hcap, hindex, Nat.add_right_comm _ 1 n, Nat.add_assoc]

/-- Where the next enlargement fails, not even one store succeeds. -/
theorem WellFormed.not_growthSucceeds (hwell : a.WellFormed) (hfull : a.isFull = true)
    (halloc : alloc next = false) (n : ℕ) : ¬ GrowthSucceeds alloc copies a next (n + 1) := by
  intro hgrow
  have heq : a.elems.length = a.capacity := le_antisymm hwell.fits (isFull_iff.mp hfull)
  have hfirst := hgrow 0 (by simp [heq])
  simp [heq, halloc] at hfirst

theorem StoreStep.of_room (hwell : a.WellFormed) (hfull : ¬ a.isFull = true) {x : α}
    (h : a.push x = some a') : StoreStep alloc copies a next a' (next + copies) := by
  obtain ⟨a'', hpush, helems, hwell'⟩ := hwell.push hfull x
  obtain rfl := Option.some.inj (hpush.symm.trans h)
  refine ⟨hwell', by simp [helems], fun _ => ⟨?_, rfl⟩, fun hf => absurd hf hfull⟩
  rw [push] at h
  split at h
  · rw [← Option.some.inj h]
  · cases h

theorem StoreStep.of_full (hwell : a.WellFormed) (hfull : a.isFull = true)
    (halloc : alloc next = true) {x : α} (h : (a.grow true).push x = some a') :
    StoreStep alloc copies a next a' (next + 1 + copies) := by
  obtain ⟨a'', hpush, helems, hwell'⟩ := hwell.push_grow hfull x
  obtain rfl := Option.some.inj (hpush.symm.trans h)
  refine ⟨hwell', by simp [helems], fun hf => absurd hfull hf, fun _ => ⟨halloc, ?_, rfl⟩⟩
  rw [push] at h
  split at h
  · rw [← Option.some.inj h]
    rfl
  · cases h

/-- Every store goes into the buffer. -/
theorem WellFormed.nextStore_lt (hwell : a.WellFormed) {ok : Bool} {s : ℕ × ℕ}
    (h : a.nextStore ok = some s) : s.1 < s.2 := by
  have hfits := hwell.fits
  have hpos := hwell.pos
  have hallocated := hwell.allocated
  unfold nextStore at h
  by_cases hfull : a.isFull = true
  · rw [if_pos hfull] at h
    split at h
    · rw [← Option.some.inj h]
      show a.elems.length < a.capacity * 2
      omega
    · cases h
  · rw [if_neg hfull] at h
    rw [← Option.some.inj h]
    rw [isFull_iff] at hfull
    show a.elems.length < a.allocated
    omega

end GrowArray

/-! ## The stores of a completion -/

variable {σ : Type} {env : Env} {ctx ctx' : ParseContext σ}

namespace ParseContext

/-- No capacity exceeds what its buffer was allocated for. -/
structure Backed (ctx : ParseContext σ) : Prop where
  allPatches : ctx.allPatches.Backed
  currentEntries : ctx.currentEntries.Backed
  metadataArray : ctx.metadataArray.Backed

/-- Whether the mode stores something for a version of the block being read. -/
def storesVersion (ctx : ParseContext σ) (appVer : Option CString) : Bool :=
  match ctx.mode with
  | .all => decide (appVer = some ctx.gameInfo.appVer ∧ ctx.title ≠ none ∧
      ctx.title = ctx.currentPatch.title)
  | .metadata => true
  | .lowMem => false

/-- Every enlargement that the completion of the block asks for succeeds. -/
def CompletionGrows (env : Env) (ctx : ParseContext σ) : Prop :=
  env.prx = false → ctx.currentPatch.title ≠ none →
    let stores := ctx.currentPatch.versions.countP fun v => ctx.storesVersion v.1
    match ctx.mode with
    | .all => ctx.allPatches.GrowthSucceeds env.alloc 1 ctx.allocs stores
    | .metadata => ctx.metadataArray.GrowthSucceeds env.alloc 0 ctx.allocs stores
    | .lowMem => True

/-- The store of a round: its index, and the size of the buffer it goes to. -/
def versionStore (env : Env) (ctx : ParseContext σ) (appVer : Option CString) :
    Option (ℕ × ℕ) :=
  if env.prx = false ∧ ctx.storesVersion appVer then
    if ctx.mode = .all then ctx.allPatches.nextStore (env.alloc ctx.allocs)
    else ctx.metadataArray.nextStore (env.alloc ctx.allocs)
  else none

/-- The stores of the loop over the versions. -/
def versionStores (env : Env) : List (Option CString × ℕ) → ParseContext σ → List (ℕ × ℕ)
  | [], _ => []
  | v :: vs, ctx =>
      (ctx.versionStore env v.1).toList ++
        match completeVersion env ctx v.1 v.2 with
        | some (.next ctx') => versionStores env vs ctx'
        | _ => []

/-- The stores of the completion of the block being read. -/
def completionStores (env : Env) (ctx : ParseContext σ) : List (ℕ × ℕ) :=
  if ctx.currentPatch.title = none then []
  else versionStores env ctx.currentPatch.versions ctx

end ParseContext

/-- What holds of the arrays as long as no enlargement has failed. -/
structure Intact (ctx : ParseContext σ) : Prop where
  storing : Storing ctx
  backed : ctx.Backed

/-- A step that leaves each array alone or well formed keeps them intact. -/
theorem Intact.of_arrays (h : Intact ctx) (hmode : ctx'.mode = ctx.mode)
    (hentries : ctx'.currentEntries = ctx.currentEntries ∨ ctx'.currentEntries.WellFormed)
    (hpatches : ctx'.allPatches = ctx.allPatches ∨ ctx'.allPatches.WellFormed)
    (hmetadata : ctx'.metadataArray = ctx.metadataArray ∨ ctx'.metadataArray.WellFormed) :
    Intact ctx' where
  storing :=
    ⟨fun hall => hentries.elim (· ▸ h.storing.entries (hmode ▸ hall)) id,
      fun hall => hpatches.elim (· ▸ h.storing.patches (hmode ▸ hall)) id,
      fun hmeta => hmetadata.elim (· ▸ h.storing.metadata (hmode ▸ hmeta)) id⟩
  backed :=
    ⟨hpatches.elim (· ▸ h.backed.allPatches) (·.backed),
      hentries.elim (· ▸ h.backed.currentEntries) (·.backed),
      hmetadata.elim (· ▸ h.backed.metadataArray) (·.backed)⟩

theorem SameBlock.storesVersion (h : SameBlock ctx ctx') (v : Option CString) :
    ctx'.storesVersion v = ctx.storesVersion v := by
  rw [ParseContext.storesVersion, h.mode, h.gameInfo, h.title, h.currentPatch]
  rfl

/-- How a round ends that may store into the array `arr`. -/
inductive RoundEnd {α : Type} (env : Env) (arr : ParseContext σ → GrowArray α) (copies : ℕ)
    (stores : Bool) (ctx : ParseContext σ) : Flow σ → Prop
  | skipped : stores = false → RoundEnd env arr copies stores ctx (.next ctx)
  | stored {after : ParseContext σ} : stores = true → SameBlock ctx after → Intact after →
      (arr ctx).StoreStep env.alloc copies ctx.allocs (arr after) after.allocs →
      RoundEnd env arr copies stores ctx (.next after)
  | failed {after : ParseContext σ} : stores = true → (arr ctx).isFull = true →
      env.alloc ctx.allocs = false → ¬ after.Backed →
      RoundEnd env arr copies stores ctx (.done after)

theorem completeMetadata_roundEnd (hmode : ctx.mode = .metadata) (hctx : Intact ctx)
    {v : Option CString} {i : ℕ} {flow : Flow σ} (h : completeMetadata env ctx v i = some flow) :
    RoundEnd env ParseContext.metadataArray 0 true ctx flow := by
  have hwell := hctx.storing.metadata hmode
  rw [completeMetadata] at h
  by_cases hfail : ctx.metadataArray.isFull = true ∧ env.alloc ctx.allocs = false
  · rw [if_pos hfail] at h
    cases h
    exact .failed rfl hfail.1 hfail.2 fun hbacked => hwell.not_backed_grow hbacked.metadataArray
  rw [if_neg hfail] at h
  obtain ⟨metadata, -, h⟩ := Option.bind_eq_some_iff.1 h
  obtain ⟨array, hpush, h⟩ := Option.bind_eq_some_iff.1 h
  cases h
  by_cases hfull : ctx.metadataArray.isFull = true
  · have halloc : env.alloc ctx.allocs = true := by
      simpa [hfull] using hfail
    simp only [if_pos hfull] at hpush ⊢
    have hstep : GrowArray.StoreStep env.alloc 0 _ ctx.allocs array (ctx.allocs + 1) :=
      .of_full hwell hfull halloc hpush
    exact .stored rfl ⟨rfl, rfl, rfl, rfl⟩
      (hctx.of_arrays rfl (.inl rfl) (.inl rfl) (.inr hstep.wellFormed)) hstep
  · simp only [if_neg hfull] at hpush ⊢
    have hstep : GrowArray.StoreStep env.alloc 0 _ ctx.allocs array ctx.allocs :=
      .of_room hwell hfull hpush
    exact .stored rfl ⟨rfl, rfl, rfl, rfl⟩
      (hctx.of_arrays rfl (.inl rfl) (.inl rfl) (.inr hstep.wellFormed)) hstep

theorem completeAll_roundEnd (hmode : ctx.mode = .all) (hctx : Intact ctx) {v : CString} {i : ℕ}
    {flow : Flow σ} (h : completeAll env ctx v i = some flow) :
    RoundEnd env ParseContext.allPatches 1
      (decide (ctx.title ≠ none ∧ ctx.title = ctx.currentPatch.title)) ctx flow := by
  have hwell := hctx.storing.patches hmode
  obtain ⟨metadata, hmetadata, h⟩ := Option.bind_eq_some_iff.1 h
  obtain ⟨-, rfl⟩ := (processPatchMetadata_eq_some (v := (some v, i))).1 hmetadata
  split at h
  · next hother =>
      cases h
      refine .skipped (decide_eq_false ?_)
      rintro ⟨htitle, hsame⟩
      exact hother.elim htitle fun hne => hne hsame
  next hother =>
    have hwanted : decide (ctx.title ≠ none ∧ ctx.title = ctx.currentPatch.title) = true :=
      decide_eq_true ⟨fun hnone => hother (.inl hnone), not_not.1 fun hne => hother (.inr hne)⟩
    by_cases hfail : ctx.allPatches.isFull = true ∧ env.alloc ctx.allocs = false
    · rw [if_pos hfail] at h
      cases h
      exact .failed hwanted hfail.1 hfail.2 fun hbacked => hwell.not_backed_grow hbacked.allPatches
    rw [if_neg hfail] at h
    by_cases hfull : ctx.allPatches.isFull = true
    · have halloc : env.alloc ctx.allocs = true := by
        simpa [hfull] using hfail
      simp only [if_pos hfull] at h
      obtain ⟨array, hpush, h⟩ := Option.bind_eq_some_iff.1 h
      -- Without the copy of the entries the round is not finished.
      split at h
      · cases h
      cases h
      have hstep : GrowArray.StoreStep env.alloc 1 _ ctx.allocs array (ctx.allocs + 1 + 1) :=
        .of_full hwell hfull halloc hpush
      exact .stored hwanted ⟨rfl, rfl, rfl, rfl⟩
        (hctx.of_arrays rfl (.inl rfl) (.inr hstep.wellFormed) (.inl rfl)) hstep
    · simp only [if_neg hfull] at h
      obtain ⟨array, hpush, h⟩ := Option.bind_eq_some_iff.1 h
      split at h
      · cases h
      cases h
      have hstep : GrowArray.StoreStep env.alloc 1 _ ctx.allocs array (ctx.allocs + 1) :=
        .of_room hwell hfull hpush
      exact .stored hwanted ⟨rfl, rfl, rfl, rfl⟩
        (hctx.of_arrays rfl (.inl rfl) (.inr hstep.wellFormed) (.inl rfl)) hstep

theorem completeVersion_all_roundEnd (hprx : env.prx = false) (hmode : ctx.mode = .all)
    (hctx : Intact ctx) {v : Option CString} {i : ℕ} {flow : Flow σ}
    (h : completeVersion env ctx v i = some flow) :
    RoundEnd env ParseContext.allPatches 1 (ctx.storesVersion v) ctx flow := by
  unfold completeVersion at h
  rw [if_neg (by simp [hprx])] at h
  cases v with
  | none => simp [hmode] at h
  | some v =>
      simp only [hmode] at h
      split at h
      · next hver =>
          have hstores : ctx.storesVersion (some v) =
              decide (ctx.title ≠ none ∧ ctx.title = ctx.currentPatch.title) := by
            simp [ParseContext.storesVersion, hmode, hver]
          rw [hstores]
          exact completeAll_roundEnd hmode hctx h
      · next hver =>
          cases h
          exact .skipped (by simp [ParseContext.storesVersion, hmode, hver])

theorem completeVersion_metadata_roundEnd (hprx : env.prx = false) (hmode : ctx.mode = .metadata)
    (hctx : Intact ctx) {v : Option CString} {i : ℕ} {flow : Flow σ}
    (h : completeVersion env ctx v i = some flow) :
    RoundEnd env ParseContext.metadataArray 0 (ctx.storesVersion v) ctx flow := by
  unfold completeVersion at h
  rw [if_neg (by simp [hprx])] at h
  simp only [hmode] at h
  rw [show ctx.storesVersion v = true by simp [ParseContext.storesVersion, hmode]]
  exact completeMetadata_roundEnd hmode hctx h

/-- The loop ends early at an enlargement that fails, and only then. -/
theorem completeVersions_end {α : Type} {arr : ParseContext σ → GrowArray α} {copies : ℕ}
    {mode : ParseMode}
    (hwell : ∀ {ctx : ParseContext σ}, ctx.mode = mode → Intact ctx → (arr ctx).WellFormed)
    (hround : ∀ {ctx : ParseContext σ} {v : Option CString} {i : ℕ} {flow : Flow σ},
      ctx.mode = mode → Intact ctx → completeVersion env ctx v i = some flow →
        RoundEnd env arr copies (ctx.storesVersion v) ctx flow)
    (vs : List (Option CString × ℕ)) :
    ∀ {ctx : ParseContext σ} {flow : Flow σ}, ctx.mode = mode → Intact ctx →
      completeVersions env vs ctx = some flow →
      (∃ ctx', flow = .next ctx' ∧ ctx'.mode = mode ∧ Intact ctx' ∧
        (arr ctx).GrowthSucceeds env.alloc copies ctx.allocs
          (vs.countP fun v => ctx.storesVersion v.1)) ∨
      (∃ ctx', flow = .done ctx' ∧ ¬ ctx'.Backed ∧
        ¬ (arr ctx).GrowthSucceeds env.alloc copies ctx.allocs
          (vs.countP fun v => ctx.storesVersion v.1)) := by
  induction vs with
  | nil =>
      intro ctx flow hmode hctx h
      cases h
      exact .inl ⟨ctx, rfl, hmode, hctx, (hwell hmode hctx).growthSucceeds_zero⟩
  | cons v vs ih =>
      intro ctx flow hmode hctx h
      obtain ⟨first, hfirst, hrest⟩ := Option.bind_eq_some_iff.1 h
      cases hround hmode hctx hfirst with
      | skipped hskip =>
          rw [List.countP_cons_of_neg (by simp [hskip])]
          exact ih hmode hctx hrest
      | stored hstores hsame hafter hstep =>
          rw [List.countP_cons_of_pos (by simp [hstores]),
            hstep.growthSucceeds_iff (hwell hmode hctx)]
          simp only [← hsame.storesVersion]
          exact ih (hsame.mode.trans hmode) hafter hrest
      | failed hstores hfull halloc hbroken =>
          cases hrest
          rw [List.countP_cons_of_pos (by simp [hstores])]
          exact .inr ⟨_, rfl, hbroken, (hwell hmode hctx).not_growthSucceeds hfull halloc _⟩

theorem completeVersions_grows (hmode : ctx.mode ≠ .lowMem) (hctx : Intact ctx)
    (htitle : ctx.currentPatch.title ≠ none) {flow : Flow σ}
    (h : completeVersions env ctx.currentPatch.versions ctx = some flow) :
    (∃ ctx', flow = .next ctx' ∧ ctx'.mode = ctx.mode ∧ Intact ctx' ∧ ctx.CompletionGrows env) ∨
      (∃ ctx', flow = .done ctx' ∧ ¬ ctx'.Backed ∧ ¬ ctx.CompletionGrows env) := by
  by_cases hprx : env.prx = true
  · rw [completeVersions_prx hprx] at h
    cases h
    exact .inl ⟨ctx, rfl, rfl, hctx, fun hhost => by simp [hprx] at hhost⟩
  have hhost : env.prx = false := Bool.eq_false_iff.mpr hprx
  rcases ParseMode.eq_all_or_metadata hmode with hall | hmeta
  · have hgrows : ctx.CompletionGrows env ↔ ctx.allPatches.GrowthSucceeds env.alloc 1 ctx.allocs
        (ctx.currentPatch.versions.countP fun v => ctx.storesVersion v.1) := by
      simp [ParseContext.CompletionGrows, hhost, htitle, hall]
    rw [hgrows, hall]
    exact completeVersions_end (fun hm hintact => hintact.storing.patches hm)
      (fun hm hintact hr => completeVersion_all_roundEnd hhost hm hintact hr) _ hall hctx h
  · have hgrows : ctx.CompletionGrows env ↔ ctx.metadataArray.GrowthSucceeds env.alloc 0 ctx.allocs
        (ctx.currentPatch.versions.countP fun v => ctx.storesVersion v.1) := by
      simp [ParseContext.CompletionGrows, hhost, htitle, hmeta]
    rw [hgrows, hmeta]
    exact completeVersions_end (fun hm hintact => hintact.storing.metadata hm)
      (fun hm hintact hr => completeVersion_metadata_roundEnd hhost hm hintact hr) _ hmeta hctx h

/-- A completion leaves the arrays intact exactly when its enlargements succeed. -/
theorem handlePatchComplete_grows (hmode : ctx.mode ≠ .lowMem) (hctx : Intact ctx)
    (h : handlePatchComplete env ctx = some ctx') :
    (ctx.CompletionGrows env ∧ ctx'.mode = ctx.mode ∧ Intact ctx') ∨
      (¬ ctx.CompletionGrows env ∧ ¬ ctx'.Backed) := by
  by_cases htitle : ctx.currentPatch.title = none
  · rw [handlePatchComplete_untitled htitle] at h
    cases h
    exact .inl ⟨fun _ htitled => absurd htitle htitled, rfl, hctx⟩
  rw [handlePatchComplete, if_neg htitle] at h
  obtain ⟨flow, hflow, h⟩ := Option.bind_eq_some_iff.1 h
  rcases completeVersions_grows hmode hctx htitle hflow with
    ⟨mid, rfl, hmid, hintact, hgrows⟩ | ⟨mid, rfl, hbroken, hgrows⟩
  · cases h
    exact .inl ⟨hgrows, hmid,
      ⟨fun hall => (hintact.storing.entries hall).clear, hintact.storing.patches,
        hintact.storing.metadata⟩,
        ⟨hintact.backed.allPatches, hintact.backed.currentEntries,
          hintact.backed.metadataArray⟩⟩
  · cases h
    exact .inr ⟨hgrows, hbroken⟩

/-! ## Calls -/

namespace ParseContext

/-- Where an entry is stored. -/
def entryStore (env : Env) (ctx : ParseContext σ) (entry : PatchEntry) : Option (ℕ × ℕ) :=
  if env.prx = false ∧ ctx.mode = .all ∧ minPatchParams ≤ entry.params.length then
    ctx.currentEntries.nextStore (env.alloc ctx.allocs)
  else none

/-- The enlargement that an entry asks for, if it does, succeeds. -/
def EntryGrows (env : Env) (ctx : ParseContext σ) (entry : PatchEntry) : Prop :=
  env.prx = false → ctx.mode = .all → minPatchParams ≤ entry.params.length →
    ctx.currentEntries.GrowthSucceeds env.alloc 0 ctx.allocs 1

end ParseContext

theorem processEntry_grows (hmode : ctx.mode ≠ .lowMem) (hctx : Intact ctx) {entry : PatchEntry}
    (h : processEntry env ctx entry = some ctx') :
    (ctx.EntryGrows env entry ∧ ctx'.mode = ctx.mode ∧ Intact ctx') ∨
      (¬ ctx.EntryGrows env entry ∧ ¬ ctx'.Backed) := by
  by_cases hstores : env.prx = false ∧ ctx.mode = .all ∧ minPatchParams ≤ entry.params.length
  · obtain ⟨hprx, hall, hlong⟩ := hstores
    have hwell := hctx.storing.entries hall
    have hgrows : ctx.EntryGrows env entry ↔
        ctx.currentEntries.GrowthSucceeds env.alloc 0 ctx.allocs (0 + 1) := by
      simp [ParseContext.EntryGrows, hprx, hall, hlong]
    rw [hgrows]
    rw [processEntry_all hall hprx (Nat.not_lt_of_le hlong)] at h
    by_cases hfull : ctx.currentEntries.isFull = true
    · by_cases halloc : env.alloc ctx.allocs = true
      · rw [if_neg (by simp [halloc]), if_pos hfull] at h
        obtain ⟨entries, hpush, rfl⟩ := Option.map_eq_some_iff.1 h
        have hstep : GrowArray.StoreStep env.alloc 0 _ ctx.allocs entries (ctx.allocs + 1) :=
          .of_full hwell hfull halloc hpush
        refine .inl ⟨(hstep.growthSucceeds_iff hwell 0).mpr hstep.wellFormed.growthSucceeds_zero,
          rfl, ?_⟩
        exact hctx.of_arrays rfl (.inr hstep.wellFormed) (.inl rfl) (.inl rfl)
      · rw [if_pos ⟨hfull, Bool.eq_false_iff.mpr halloc⟩] at h
        cases h
        exact .inr ⟨hwell.not_growthSucceeds hfull (Bool.eq_false_iff.mpr halloc) 0,
          fun hbacked => hwell.not_backed_grow hbacked.currentEntries⟩
    · rw [if_neg (by simp [hfull]), if_neg hfull] at h
      obtain ⟨entries, hpush, rfl⟩ := Option.map_eq_some_iff.1 h
      have hstep : GrowArray.StoreStep env.alloc 0 _ ctx.allocs entries ctx.allocs :=
        .of_room hwell hfull hpush
      refine .inl ⟨(hstep.growthSucceeds_iff hwell 0).mpr hstep.wellFormed.growthSucceeds_zero,
        rfl, ?_⟩
      exact hctx.of_arrays rfl (.inr hstep.wellFormed) (.inl rfl) (.inl rfl)
  · have hsame : ctx' = ctx := by
      by_cases hshort : entry.params.length < minPatchParams
      · rw [processEntry_short hshort] at h
        exact (Option.some.inj h).symm
      rcases ParseMode.eq_all_or_metadata hmode with hall | hmeta
      · have hprx : env.prx = true := by
          rw [← Bool.not_eq_false]
          exact fun hprx => hstores ⟨hprx, hall, Nat.le_of_not_lt hshort⟩
        simpa [processEntry, hshort, hall, hprx, eq_comm] using h
      · rw [processEntry_metadata hmeta] at h
        exact (Option.some.inj h).symm
    subst hsame
    exact .inl ⟨fun hprx hall hlong => absurd ⟨hprx, hall, hlong⟩ hstores, rfl, hctx⟩

/-- A call of the parser on a context. A file is a line call for each of its lines
and a completion at its end. -/
inductive Call where
  | line (text : CString)
  | complete
  deriving DecidableEq, Repr

def Call.perform (env : Env) (ctx : ParseContext σ) : Call → Option (ParseContext σ)
  | .line text => processLine env ctx text
  | .complete => handlePatchComplete env ctx

/-- The calls that a file with these lines leads to. -/
def fileCalls (lines : List CString) : List Call := lines.map .line ++ [.complete]

theorem parseLines_eq_calls (env : Env) (ctx : ParseContext σ) (lines : List CString) :
    parseLines env ctx lines = (fileCalls lines).foldlM (Call.perform env) ctx := by
  rw [fileCalls, List.foldlM_append, List.foldlM_map, parseLines]
  simp [Call.perform, runLines]

/-- Every enlargement that a call asks for succeeds. -/
def Call.Grows (env : Env) (ctx : ParseContext σ) : Call → Prop
  | .line text =>
      match lineKind ctx.inPatchesSection text with
      | .patch => ctx.CompletionGrows env
      | .entry => ctx.EntryGrows env (parsePatchEntry ((trim text).drop 2))
      | _ => True
  | .complete => ctx.CompletionGrows env

/-- The stores into the growing arrays that a call makes. -/
def Call.stores (env : Env) (ctx : ParseContext σ) : Call → List (ℕ × ℕ)
  | .line text =>
      match lineKind ctx.inPatchesSection text with
      | .patch => ctx.completionStores env
      | .entry => (ctx.entryStore env (parsePatchEntry ((trim text).drop 2))).toList
      | _ => []
  | .complete => ctx.completionStores env

/-- A call stores inside the buffers and leaves no capacity behind that exceeds its
buffer. -/
structure Call.Safe (env : Env) (ctx : ParseContext σ) (call : Call) : Prop where
  inside : ∀ s ∈ call.stores env ctx, s.1 < s.2
  backed : ∀ ctx', call.perform env ctx = some ctx' → ctx'.Backed

theorem processLine_grows (hmode : ctx.mode ≠ .lowMem) (hctx : Intact ctx) {line : CString}
    (h : processLine env ctx line = some ctx') :
    ((Call.line line).Grows env ctx ∧ ctx'.mode = ctx.mode ∧ Intact ctx') ∨
      (¬ (Call.line line).Grows env ctx ∧ ¬ ctx'.Backed) := by
  by_cases hopens : OpensBlock line
  · have hkind := hopens.lineKind_eq ctx.inPatchesSection
    rw [processLine_patch hkind] at h
    simpa only [Call.Grows, hkind] using handlePatchComplete_grows hmode hctx h
  by_cases hentry : lineKind ctx.inPatchesSection line = .entry
  · rw [processLine_entry hentry] at h
    simpa only [Call.Grows, hentry] using processEntry_grows hmode hctx h
  -- Any other line leaves the arrays alone.
  left
  have hgrows : (Call.line line).Grows env ctx := by
    have hkind : lineKind ctx.inPatchesSection line ≠ .patch := by
      intro hpatch
      exact hopens ((lineKind_eq_iff (by simp) (by simp)).mp hpatch)
    cases hother : lineKind ctx.inPatchesSection line with
    | patch => exact absurd hother hkind
    | entry => exact absurd hother hentry
    | ignored | titleid | key | appVer | patches | other => simp only [Call.Grows, hother]
  have hinside := processLine_insideBlock hopens h
  by_cases hentries : OpensEntries line
  · rw [processLine_patches (hentries.lineKind_eq _), if_neg hmode] at h
    cases h
    exact ⟨hgrows, hinside.mode, hctx.of_arrays rfl (.inl rfl) (.inl rfl) (.inl rfl)⟩
  · obtain ⟨titleids, hquiet⟩ := processLine_quiet env ctx hopens hentries hentry
    rw [hquiet] at h
    cases h
    exact ⟨hgrows, hinside.mode, hctx.of_arrays rfl (.inl rfl) (.inl rfl) (.inl rfl)⟩

/-- What one call does to intact arrays. -/
theorem Call.perform_grows (hmode : ctx.mode ≠ .lowMem) (hctx : Intact ctx) {call : Call}
    (h : call.perform env ctx = some ctx') :
    (call.Grows env ctx ∧ ctx'.mode = ctx.mode ∧ Intact ctx') ∨
      (¬ call.Grows env ctx ∧ ¬ ctx'.Backed) := by
  cases call with
  | line text => exact processLine_grows hmode hctx h
  | complete => exact handlePatchComplete_grows hmode hctx h

/-! ## The stores fall inside -/

theorem completeVersion_intact (hmode : ctx.mode ≠ .lowMem) (hctx : Intact ctx)
    {v : Option CString} {i : ℕ} (h : completeVersion env ctx v i = some (.next ctx')) :
    ctx'.mode = ctx.mode ∧ Intact ctx' := by
  by_cases hprx : env.prx = true
  · unfold completeVersion at h
    rw [if_pos hprx] at h
    cases h
    exact ⟨rfl, hctx⟩
  have hhost : env.prx = false := Bool.eq_false_iff.mpr hprx
  rcases ParseMode.eq_all_or_metadata hmode with hall | hmeta
  · cases completeVersion_all_roundEnd hhost hall hctx h with
    | skipped => exact ⟨rfl, hctx⟩
    | stored _ hsame hafter => exact ⟨hsame.mode, hafter⟩
  · cases completeVersion_metadata_roundEnd hhost hmeta hctx h with
    | skipped => exact ⟨rfl, hctx⟩
    | stored _ hsame hafter => exact ⟨hsame.mode, hafter⟩

theorem versionStore_inside (hmode : ctx.mode ≠ .lowMem) (hctx : Intact ctx)
    {v : Option CString} {s : ℕ × ℕ} (h : ctx.versionStore env v = some s) : s.1 < s.2 := by
  rw [ParseContext.versionStore] at h
  split at h
  · rcases ParseMode.eq_all_or_metadata hmode with hall | hmeta
    · rw [if_pos hall] at h
      exact (hctx.storing.patches hall).nextStore_lt h
    · rw [if_neg (by simp [hmeta])] at h
      exact (hctx.storing.metadata hmeta).nextStore_lt h
  · cases h

theorem versionStores_inside (vs : List (Option CString × ℕ)) :
    ∀ {ctx : ParseContext σ}, ctx.mode ≠ .lowMem → Intact ctx →
      ∀ s ∈ ctx.versionStores env vs, s.1 < s.2 := by
  induction vs with
  | nil =>
      intro ctx _ _ s hs
      cases hs
  | cons v vs ih =>
      intro ctx hmode hctx s hs
      rw [ParseContext.versionStores, List.mem_append] at hs
      rcases hs with hs | hs
      · exact versionStore_inside hmode hctx (Option.mem_toList.mp hs)
      · split at hs
        · next ctx' hnext =>
            obtain ⟨hsame, hintact⟩ := completeVersion_intact hmode hctx hnext
            exact ih (hsame ▸ hmode) hintact s hs
        · cases hs

theorem Call.stores_inside (hmode : ctx.mode ≠ .lowMem) (hctx : Intact ctx) (call : Call) :
    ∀ s ∈ call.stores env ctx, s.1 < s.2 := by
  have hcompletion : ∀ s ∈ ctx.completionStores env, s.1 < s.2 := by
    intro s hs
    rw [ParseContext.completionStores] at hs
    split at hs
    · cases hs
    · exact versionStores_inside _ hmode hctx s hs
  cases call with
  | complete => exact hcompletion
  | line text =>
      intro s hs
      simp only [Call.stores] at hs
      split at hs
      · exact hcompletion s hs
      · rw [Option.mem_toList, ParseContext.entryStore] at hs
        split at hs
        · next hstores => exact (hctx.storing.entries hstores.2.1).nextStore_lt hs
        · cases hs
      · cases hs

/-! ## Runs -/

theorem intact_createParseContext (game : GamePatchInfo) (mode : ParseMode)
    (title : Option CString) (data : σ) : Intact (createParseContext game mode title data) := by
  cases mode with
  | all =>
      exact ⟨⟨fun _ => GrowArray.wellFormed_ofCapacity (by decide),
        fun _ => GrowArray.wellFormed_ofCapacity (by decide), (nomatch ·)⟩,
        ⟨le_rfl, le_rfl, le_rfl⟩⟩
  | lowMem =>
      exact ⟨⟨(nomatch ·), (nomatch ·), (nomatch ·)⟩, ⟨le_rfl, le_rfl, le_rfl⟩⟩
  | metadata =>
      exact ⟨⟨(nomatch ·), (nomatch ·),
        fun _ => GrowArray.wellFormed_ofCapacity (by decide)⟩, ⟨le_rfl, le_rfl, le_rfl⟩⟩

theorem everyStep_safe (calls : List Call) :
    ∀ {ctx : ParseContext σ}, ctx.mode ≠ .lowMem → Intact ctx →
      EveryStep (Call.perform env) (fun ctx call => call.Grows env ctx) ctx calls →
      EveryStep (Call.perform env) (fun ctx call => call.Safe env ctx) ctx calls := by
  induction calls with
  | nil => exact fun _ _ _ => trivial
  | cons call calls ih =>
      intro ctx hmode hctx hevery
      have hafter : ∀ {ctx'}, call.perform env ctx = some ctx' →
          ctx'.mode = ctx.mode ∧ Intact ctx' := by
        intro ctx' h
        rcases Call.perform_grows hmode hctx h with ⟨-, hsame, hintact⟩ | ⟨hfailed, -⟩
        · exact ⟨hsame, hintact⟩
        · exact absurd hevery.1 hfailed
      refine ⟨⟨call.stores_inside hmode hctx, fun ctx' h => (hafter h).2.backed⟩, ?_⟩
      intro ctx' h
      exact ih ((hafter h).1 ▸ hmode) (hafter h).2 (hevery.2 ctx' h)

/-- In a run that comes to its end an enlargement that fails shows in a capacity. -/
theorem everyStep_grows (calls : List Call) :
    ∀ {ctx ctx' : ParseContext σ}, ctx.mode ≠ .lowMem → Intact ctx →
      calls.foldlM (Call.perform env) ctx = some ctx' →
      EveryStep (Call.perform env) (fun ctx call => call.Safe env ctx) ctx calls →
      EveryStep (Call.perform env) (fun ctx call => call.Grows env ctx) ctx calls := by
  induction calls with
  | nil => exact fun _ _ _ _ => trivial
  | cons call calls ih =>
      intro ctx ctx' hmode hctx hrun hevery
      obtain ⟨mid, hmid, hrest⟩ := foldlM_cons_eq_some.mp hrun
      rcases Call.perform_grows hmode hctx hmid with ⟨hgrows, hsame, hintact⟩ | ⟨-, hbroken⟩
      · refine ⟨hgrows, fun next hnext => ?_⟩
        obtain rfl := Option.some.inj (hmid.symm.trans hnext)
        exact ih (hsame ▸ hmode) hintact hrest (hevery.2 mid hmid)
      · exact absurd (hevery.1.backed mid hmid) hbroken

/-- Whatever the calls are, the arrays survive as long as every enlargement that they
ask for succeeds; and in a run that comes to its end no further. -/
theorem calls_safe_iff (env : Env) (game : GamePatchInfo) (mode : ParseMode)
    (hmode : mode = .all ∨ mode = .metadata) (title : Option CString) (data : σ)
    (calls : List Call) :
    let start := createParseContext game mode title data
    (EveryStep (Call.perform env) (fun ctx call => call.Grows env ctx) start calls →
      EveryStep (Call.perform env) (fun ctx call => call.Safe env ctx) start calls) ∧
    ((calls.foldlM (Call.perform env) start).isSome →
      EveryStep (Call.perform env) (fun ctx call => call.Safe env ctx) start calls →
      EveryStep (Call.perform env) (fun ctx call => call.Grows env ctx) start calls) := by
  intro start
  have hstart : start.mode ≠ .lowMem := by
    rcases hmode with rfl | rfl
    · exact (nomatch ·)
    · exact (nomatch ·)
  have hintact : Intact start := intact_createParseContext game mode title data
  refine ⟨everyStep_safe calls hstart hintact, fun hrun => ?_⟩
  obtain ⟨ctx', hrun⟩ := Option.isSome_iff_exists.1 hrun
  exact everyStep_grows calls hstart hintact hrun

/-! ## A ninth version -/

/-- A host on which the `n`-th allocation fails. -/
def hostFailing (n : ℕ) : Env :=
  { hostWith [] with strdupNull := false, alloc := fun k => decide (k ≠ n) }

def nineVersionLines : List CString :=
  ["title: \"A\"", "name: \"B\"", "author: \"C\"", "version: \"1.0\"", "app_bin: \"EBOOT.BIN\"",
    "app_ver: [ \"1\", \"2\", \"3\", \"4\", \"5\", \"6\", \"7\", \"8\", \"9\" ]"].map
      String.toList

/-- A line that neither completes a block nor stores an entry asks for nothing. -/
theorem Call.grows_line {ctx : ParseContext σ} {text : CString}
    (h : ∀ inPatches, lineKind inPatches text ≠ .patch ∧ lineKind inPatches text ≠ .entry) :
    (Call.line text).Grows env ctx := by
  obtain ⟨hpatch, hentry⟩ := h ctx.inPatchesSection
  simp only [Grows]

/-- The array is enlarged once for the nine versions, by the first allocation. -/
theorem nineVersions_grow : EveryStep (Call.perform (hostFailing 1))
    (fun ctx call => call.Grows (hostFailing 1) ctx)
    (createParseContext runningGame .metadata none ()) (fileCalls nineVersionLines) := by
  have hkinds : ∀ text ∈ nineVersionLines, ∀ inPatches,
      lineKind inPatches text ≠ .patch ∧ lineKind inPatches text ≠ .entry := by decide +kernel
  have hsizes : ((nineVersionLines.map Call.line).foldlM (Call.perform (hostFailing 1))
      (createParseContext runningGame .metadata none ())).map (fun ctx =>
        (ctx.mode, ctx.metadataArray.capacity, ctx.metadataArray.elems.length, ctx.allocs,
          ctx.currentPatch.versions.length)) = some (.metadata, 8, 0, 0, 9) := by decide +kernel
  refine everyStep_append.mpr ⟨everyStep_of_mem (fun call hcall ctx => ?_) _, fun ctx hrun => ?_⟩
  · obtain ⟨text, htext, rfl⟩ := List.mem_map.mp hcall
    exact Call.grows_line (hkinds text htext)
  · rw [hrun, Option.map_some, Option.some_inj] at hsizes
    simp only [Prod.mk.injEq] at hsizes
    obtain ⟨hmode, hcapacity, hlength, hallocs, hversions⟩ := hsizes
    refine ⟨fun _ _ => ?_, fun _ _ => trivial⟩
    simp only [hmode]
    apply GrowArray.growthSucceeds_of_once
    · rw [hlength, hcapacity, Nat.zero_add]
      exact List.countP_le_length.trans (by rw [hversions]; decide)
    · rw [hcapacity, hlength, hallocs]
      decide

theorem calls_safe_iff_nineVersions :
    let start := createParseContext runningGame .metadata none ()
    let calls := fileCalls nineVersionLines
    let env := hostFailing 1
    EveryStep (Call.perform env) (fun ctx call => call.Safe env ctx) start calls ∧
      EveryStep (Call.perform env) (fun ctx call => call.Grows env ctx) start calls := by
  intro start calls env
  obtain ⟨hsafe, hgrows⟩ := calls_safe_iff env runningGame .metadata (Or.inr rfl) none () calls
  have hsafe' := hsafe nineVersions_grow
  exact ⟨hsafe', hgrows (by decide +kernel) hsafe'⟩

theorem backed_of_everyStep {calls : List Call} (hctx : ctx.Backed)
    (hevery : EveryStep (Call.perform env) (fun ctx call => call.Safe env ctx) ctx calls)
    (hrun : calls.foldlM (Call.perform env) ctx = some ctx') : ctx'.Backed :=
  invariant_of_run (fun _ ctx => ctx.Backed) (fun _ _ _ _ _ hsafe hstep => hsafe.backed _ hstep)
    [] hctx hevery hrun

theorem nineVersions_capacity :
    ((fileCalls nineVersionLines).foldlM (Call.perform (hostFailing 0))
      (createParseContext runningGame .metadata none ())).map
        (fun ctx => (ctx.metadataArray.capacity, ctx.metadataArray.allocated)) = some (16, 8) := by
  decide +kernel

/-- The capacity says sixteen where the buffer holds eight. -/
theorem not_calls_safe :
    ¬ EveryStep (Call.perform (hostFailing 0))
      (fun ctx call => call.Safe (hostFailing 0) ctx)
      (createParseContext runningGame .metadata none ()) (fileCalls nineVersionLines) := by
  intro hevery
  obtain ⟨ctx', hrun, hsizes⟩ := Option.map_eq_some_iff.1 nineVersions_capacity
  have hbacked := (backed_of_everyStep
    (intact_createParseContext runningGame .metadata none ()).backed hevery hrun).metadataArray
  obtain ⟨hcap, hallocated⟩ := Prod.mk.inj hsizes
  rw [GrowArray.Backed, hcap, hallocated] at hbacked
  exact absurd hbacked (by decide)

end GamePatch
