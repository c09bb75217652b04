import Mathlib.Algebra.Group.Pointwise.Set.Basic
import Mathlib.Algebra.Order.Group.Multiset
import Mathlib.Data.Multiset.Filter
import Mathlib.Tactic.Abel

/-! # Programs with pointers

A heap hands out every address once, and `free` and `load` fail on an address that is not
live. An assertion is a set of collections of live cells, and the sum of two assertions says
that the cells fall into two parts. A program follows a partial function when it fails where
the function does and otherwise ends in what is said of the result; what else is live is left
alone. -/

namespace GamePatch

open scoped Pointwise

/-- The live blocks with their addresses. -/
structure Heap (β : Type) where
  next : ℕ
  blocks : List (ℕ × β)
  below : ∀ cell ∈ blocks, cell.1 < next
  nodup : (blocks.map Prod.fst).Nodup

abbrev HeapM (β : Type) := StateT (Heap β) Option

namespace Heap

variable {α α' β γ γ' : Type}

theorem below_nil : ∀ cell ∈ ([] : List (ℕ × β)), cell.1 < 0 := List.forall_mem_nil _

def empty : Heap β := ⟨0, [], below_nil, List.nodup_nil⟩

theorem below_malloc (h : Heap β) (b : β) :
    ∀ cell ∈ (h.next, b) :: h.blocks, cell.1 < h.next + 1 := by
  rw [List.forall_mem_cons]
  exact ⟨Nat.lt_succ_self _, fun cell hcell => Nat.lt_succ_of_lt (h.below cell hcell)⟩

theorem nodup_malloc (h : Heap β) (b : β) : (((h.next, b) :: h.blocks).map Prod.fst).Nodup := by
  rw [List.map_cons, List.nodup_cons]
  refine ⟨fun hmem => ?_, h.nodup⟩
  rcases List.mem_map.mp hmem with ⟨cell, hcell, hnext⟩
  exact (h.below cell hcell).ne hnext

def malloc (b : β) : HeapM β ℕ := fun h =>
  some (h.next, ⟨h.next + 1, (h.next, b) :: h.blocks, h.below_malloc b, h.nodup_malloc b⟩)

theorem below_filter (h : Heap β) (keep : ℕ × β → Bool) :
    ∀ cell ∈ h.blocks.filter keep, cell.1 < h.next :=
  fun cell hcell => h.below cell (List.mem_of_mem_filter hcell)

theorem nodup_filter (h : Heap β) (keep : ℕ × β → Bool) :
    ((h.blocks.filter keep).map Prod.fst).Nodup :=
  h.nodup.sublist (List.filter_sublist.map _)

def free (p : ℕ) : HeapM β Unit := fun h =>
  if p ∈ h.blocks.map Prod.fst then
    some ((), ⟨h.next, h.blocks.filter (·.1 ≠ p), h.below_filter _, h.nodup_filter _⟩)
  else none

def load (p : ℕ) : HeapM β β := fun h => (h.blocks.lookup p).map fun b => (b, h)

theorem bind_apply (prog : HeapM β α) (k : α → HeapM β α') (h : Heap β) :
    (prog >>= k) h = (prog h).bind fun x => k x.1 x.2 := rfl

/-! ## Assertions -/

abbrev Assertion (β : Type) := Set (Multiset (ℕ × β))

def cell (p : ℕ) (b : β) : Assertion β := {{(p, b)}}

/-- A pointer that is null where there is no value. -/
def optional (P : ℕ → γ → Assertion β) : Option ℕ → Option γ → Assertion β
  | none, none => 0
  | some p, some c => P p c
  | _, _ => ∅

/-- The elements of the second list are stored in those of the first. -/
def each (P : α → γ → Assertion β) : List α → List γ → Assertion β
  | [], [] => 0
  | a :: as, c :: cs => P a c + each P as cs
  | _, _ => ∅

section

variable (P : ℕ → γ → Assertion β) (Q : α → γ → Assertion β)

@[simp] theorem optional_none : optional P none none = 0 := rfl

@[simp] theorem optional_some (p : ℕ) (c : γ) : optional P (some p) (some c) = P p c := rfl

@[simp] theorem optional_none_some (c : γ) : optional P none (some c) = ∅ := rfl

@[simp] theorem optional_some_none (p : ℕ) : optional P (some p) none = ∅ := rfl

@[simp] theorem each_nil : each Q [] [] = 0 := rfl

@[simp] theorem each_cons (a : α) (as : List α) (c : γ) (cs : List γ) :
    each Q (a :: as) (c :: cs) = Q a c + each Q as cs := rfl

@[simp] theorem each_nil_cons (c : γ) (cs : List γ) : each Q [] (c :: cs) = ∅ := rfl

@[simp] theorem each_cons_nil (a : α) (as : List α) : each Q (a :: as) [] = ∅ := rfl

end

/-- An assertion under a condition. -/
def only (p : Prop) (A : Assertion β) : Assertion β := {m | p ∧ m ∈ A}

/-- Any `n` live blocks. -/
def live (β : Type) (n : ℕ) : Assertion β := {m | m.card = n}

variable {A A' A₁ R : Assertion β} {B B' : α → γ → Assertion β} {C : α' → γ' → Assertion β}
  {prog : HeapM β α} {spec : Option γ}

theorem only_add (p : Prop) (A R : Assertion β) : only p A + R = only p (A + R) := by
  ext m
  constructor
  · rintro ⟨m₁, ⟨hp, hm₁⟩, m₂, hm₂, rfl⟩
    exact ⟨hp, Set.add_mem_add hm₁ hm₂⟩
  · rintro ⟨hp, m₁, hm₁, m₂, hm₂, rfl⟩
    exact Set.add_mem_add ⟨hp, hm₁⟩ hm₂

theorem subset_only {p : Prop} (hp : p) (h : A ⊆ A') : A ⊆ only p A' := fun _ hm => ⟨hp, h hm⟩

theorem live_zero : live β 0 = 0 := by
  ext m
  exact Multiset.card_eq_zero

theorem live_add (m n : ℕ) : live β m + live β n ⊆ live β (m + n) := by
  rintro _ ⟨m₁, hm₁, m₂, hm₂, rfl⟩
  exact (Multiset.card_add m₁ m₂).trans (congrArg₂ (· + ·) hm₁ hm₂)

theorem cell_live (p : ℕ) (b : β) : cell p b ⊆ live β 1 := by
  rintro _ rfl
  exact Multiset.card_singleton _

theorem optional_live {P : ℕ → γ → Assertion β} (hP : ∀ p c, P p c ⊆ live β 1) (p : Option ℕ)
    (c : Option γ) : optional P p c ⊆ live β c.toList.length := by
  cases p with
  | none =>
      cases c with
      | none => exact live_zero.ge
      | some c => exact Set.empty_subset _
  | some p =>
      cases c with
      | none => exact Set.empty_subset _
      | some c => exact hP p c

theorem each_live {P : α → γ → Assertion β} {size : γ → ℕ} (hP : ∀ a c, P a c ⊆ live β (size c))
    (as : List α) (cs : List γ) : each P as cs ⊆ live β (cs.map size).sum := by
  induction as generalizing cs with
  | nil =>
      cases cs with
      | nil => exact live_zero.ge
      | cons c cs => exact Set.empty_subset _
  | cons a as ih =>
      cases cs with
      | nil => exact Set.empty_subset _
      | cons c cs =>
          rw [List.map_cons, List.sum_cons]
          exact (Set.add_subset_add (hP a c) (ih cs)).trans (live_add _ _)

theorem each_append (P : α → γ → Assertion β) (as as' : List α) (cs cs' : List γ) :
    each P as cs + each P as' cs' ⊆ each P (as ++ as') (cs ++ cs') := by
  induction as generalizing cs with
  | nil =>
      cases cs with
      | nil => exact (zero_add _).le
      | cons c cs =>
          rw [each_nil_cons, Set.empty_add]
          exact Set.empty_subset _
  | cons a as ih =>
      cases cs with
      | nil =>
          rw [each_cons_nil, Set.empty_add]
          exact Set.empty_subset _
      | cons c cs =>
          rw [List.cons_append, List.cons_append, each_cons, each_cons, add_assoc]
          exact Set.add_subset_add_left (ih cs)

/-- One element and the others. -/
theorem each_of_mem_zip (P : α → γ → Assertion β) {as : List α} {cs : List γ} {a : α} {c : γ}
    (hmem : (a, c) ∈ as.zip cs) : ∃ R, each P as cs = P a c + R := by
  induction as generalizing cs with
  | nil => exact absurd hmem (by simp)
  | cons a' as ih =>
      cases cs with
      | nil => exact absurd hmem (by simp)
      | cons c' cs =>
          rw [List.zip_cons_cons, List.mem_cons] at hmem
          rcases hmem with heq | hmem
          · cases heq
            exact ⟨_, each_cons P a as c cs⟩
          · rcases ih hmem with ⟨R, hR⟩
            refine ⟨P a' c' + R, ?_⟩
            rw [each_cons, hR, add_left_comm]

theorem length_of_each {P : α → γ → Assertion β} {as : List α} {cs : List γ}
    {m : Multiset (ℕ × β)} (hm : m ∈ each P as cs) : as.length = cs.length := by
  induction as generalizing cs m with
  | nil =>
      cases cs with
      | nil => rfl
      | cons c cs => exact hm.elim
  | cons a as ih =>
      cases cs with
      | nil => exact hm.elim
      | cons c cs =>
          rcases hm with ⟨_, _, m', hm', _⟩
          exact congrArg Nat.succ (ih hm')

/-! ## Programs that follow a function -/

def Follows (A : Assertion β) (prog : HeapM β α) (spec : Option γ) (B : α → γ → Assertion β) :
    Prop :=
  ∀ ⦃h : Heap β⦄ ⦃m r : Multiset (ℕ × β)⦄, m ∈ A → (h.blocks : Multiset (ℕ × β)) = m + r →
    match spec with
    | none => prog h = none
    | some c => ∃ a h' m', prog h = some (a, h') ∧ m' ∈ B a c ∧
        (h'.blocks : Multiset (ℕ × β)) = m' + r

/-- A program that fails or gives a value and leaves the heap as it is. -/
def Reads (A : Assertion β) (prog : HeapM β α) (value : Option α) : Prop :=
  ∀ ⦃h : Heap β⦄ ⦃m r : Multiset (ℕ × β)⦄, m ∈ A → (h.blocks : Multiset (ℕ × β)) = m + r →
    prog h = value.map fun a => (a, h)

/-- The cells of the second assertion are among those of the first. -/
def Has (A A₁ : Assertion β) : Prop := A ⊆ A₁ + Set.univ

namespace Has

theorem of_subset (h : A ⊆ A₁ + R) : Has A A₁ :=
  h.trans (Set.add_subset_add_left (Set.subset_univ R))

theorem refl (A : Assertion β) : Has A A := of_subset (add_zero A).ge

theorem left (h : Has A A₁) (R : Assertion β) : Has (A + R) A₁ := by
  have hsum : A + R ⊆ A₁ + (Set.univ + R) := by
    rw [← add_assoc]
    exact Set.add_subset_add_right h
  exact of_subset hsum

theorem right (h : Has A A₁) (R : Assertion β) : Has (R + A) A₁ := by
  rw [add_comm]
  exact h.left R

theorem trans {A₂ : Assertion β} (h : Has A A₁) (h' : Has A₁ A₂) : Has A A₂ := by
  have hsum : A₁ + Set.univ ⊆ A₂ + (Set.univ + Set.univ) := by
    rw [← add_assoc]
    exact Set.add_subset_add_right h'
  exact of_subset (Set.Subset.trans h hsum)

theorem under (p : Prop) (h : Has A A₁) : Has (only p A) A₁ := fun _ hm => h hm.2

/-- What the cells of a part show. -/
theorem show_of {p : Prop} (hA : Has A A₁) (h : ∀ m ∈ A₁, p) : ∀ m ∈ A, p := by
  intro m hm
  rcases hA hm with ⟨m₁, hm₁, _⟩
  exact h m₁ hm₁

end Has

/-! ## Programs that only look -/

namespace Reads

variable {prog' : HeapM β α'} {a : α} {value' : Option α'}

theorem pure (A : Assertion β) (a : α) : Reads A (Pure.pure a) (some a) :=
  fun _ _ _ _ _ => rfl

theorem lift (A : Assertion β) (value : Option α) : Reads A (liftM value : HeapM β α) value := by
  intro h m r _ _
  cases value with
  | none => rfl
  | some a => rfl

theorem empty {value : Option α} : Reads ∅ prog value := fun _ _ _ hm => hm.elim

theorem of_has {value : Option α} (h : Reads A₁ prog value) (hA : Has A A₁) :
    Reads A prog value := by
  intro heap m r hm hblocks
  rcases hA hm with ⟨m₁, hm₁, m₂, _, rfl⟩
  exact h hm₁ (hblocks.trans (add_assoc m₁ m₂ r))

theorem step {k : α → HeapM β α'} (hA : Has A A₁) (h : Reads A₁ prog (some a))
    (hk : Reads A (k a) value') : Reads A (prog >>= k) value' := by
  intro heap m r hm hblocks
  rw [bind_apply, h.of_has hA hm hblocks]
  exact hk hm hblocks

theorem of_only {p : Prop} {value : Option α} (h : p → Reads A prog value) :
    Reads (only p A) prog value :=
  fun _ _ _ hm => h hm.1 hm.2

theorem mapM {P : α → γ → Assertion β} {f : α → HeapM β γ}
    (hf : ∀ a c, Reads (P a c) (f a) (some c)) (as : List α) (cs : List γ) :
    Reads (each P as cs) (as.mapM f) (some cs) := by
  induction as generalizing cs with
  | nil =>
      cases cs with
      | nil => exact pure _ _
      | cons c cs => exact empty
  | cons a as ih =>
      cases cs with
      | nil => exact empty
      | cons c cs =>
          rw [List.mapM_cons, each_cons]
          refine step ((Has.refl _).left _) (hf a c) ?_
          refine step ((Has.refl _).right _) (ih cs) ?_
          exact pure _ _

end Reads

/-! ## Programs that take both along -/

namespace Follows

theorem pure {a : α} {c : γ} (h : A ⊆ B a c) : Follows A (Pure.pure a) (some c) B :=
  fun heap m _ hm hblocks => ⟨a, heap, m, rfl, h hm, hblocks⟩

theorem failure : Follows A (Alternative.failure : HeapM β α) (none : Option γ) B :=
  fun _ _ _ _ _ => rfl

theorem empty : Follows ∅ prog spec B := fun _ _ _ hm => hm.elim

theorem empty_add (R : Assertion β) : Follows (∅ + R) prog spec B := by
  rw [Set.empty_add]
  exact empty

theorem of_only {p : Prop} (h : p → Follows A prog spec B) : Follows (only p A) prog spec B :=
  fun _ _ _ hm => h hm.1 hm.2

/-- What the cells show may be used. -/
theorem of_mem {p : Prop} (hA : ∀ m ∈ A, p) (h : p → Follows A prog spec B) :
    Follows A prog spec B := fun _ m _ hm => h (hA m hm) hm

theorem of_eq {spec' : Option γ} (hspec : spec = spec') (h : Follows A prog spec' B) :
    Follows A prog spec B := hspec ▸ h

theorem mono (h : Follows A prog spec B) (hA : A' ⊆ A) (hB : ∀ a c, B a c ⊆ B' a c) :
    Follows A' prog spec B' := by
  intro heap m r hm hblocks
  have hrun := h (hA hm) hblocks
  cases spec with
  | none => exact hrun
  | some c =>
      rcases hrun with ⟨a, heap', m', hprog, hm', hblocks'⟩
      exact ⟨a, heap', m', hprog, hB a c hm', hblocks'⟩

/-- The value is the one the function gives. -/
theorem known (h : Follows A prog spec B) :
    Follows A prog spec fun a c => only (spec = some c) (B a c) := by
  intro heap m r hm hblocks
  have hrun := h hm hblocks
  cases spec with
  | none => exact hrun
  | some c =>
      rcases hrun with ⟨a, heap', m', hprog, hm', hblocks'⟩
      exact ⟨a, heap', m', hprog, ⟨rfl, hm'⟩, hblocks'⟩

/-- A pointer is null exactly where there is no value. -/
theorem of_optional {P : ℕ → γ' → Assertion β} {p : Option ℕ} {v : Option γ'}
    (hnone : p = none → v = none → Follows R prog spec B)
    (hsome : ∀ a c, p = some a → v = some c → Follows (P a c + R) prog spec B) :
    Follows (optional P p v + R) prog spec B := by
  cases p with
  | none =>
      cases v with
      | none =>
          rw [optional_none, zero_add]
          exact hnone rfl rfl
      | some c =>
          rw [optional_none_some, Set.empty_add]
          exact empty
  | some a =>
      cases v with
      | none =>
          rw [optional_some_none, Set.empty_add]
          exact empty
      | some c => exact hsome a c rfl rfl

/-- The same program beside another value. -/
theorem giving {c : γ} {c' : γ'} {B' : α → γ' → Assertion β} (h : Follows A prog (some c) B)
    (hB : ∀ a, B a c ⊆ B' a c') : Follows A prog (some c') B' := by
  intro heap m r hm hblocks
  rcases h hm hblocks with ⟨a, heap', m', hprog, hm', hblocks'⟩
  exact ⟨a, heap', m', hprog, hB a hm', hblocks'⟩

theorem frame (h : Follows A prog spec B) (R : Assertion β) :
    Follows (A + R) prog spec fun a c => B a c + R := by
  rintro heap _ r ⟨m₁, hm₁, m₂, hm₂, rfl⟩ hblocks
  have hrun := h hm₁ (hblocks.trans (add_assoc m₁ m₂ r))
  cases spec with
  | none => exact hrun
  | some c =>
      rcases hrun with ⟨a, heap', m', hprog, hm', hblocks'⟩
      exact ⟨a, heap', m' + m₂, hprog, Set.add_mem_add hm' hm₂,
        hblocks'.trans (add_assoc m' m₂ r).symm⟩

theorem bind {k : α → HeapM β α'} {k' : γ → Option γ'} (h : Follows A prog spec B)
    (hk : ∀ a c, Follows (B a c) (k a) (k' c) C) : Follows A (prog >>= k) (spec >>= k') C := by
  intro heap m r hm hblocks
  have hrun := h hm hblocks
  cases spec with
  | none =>
      change (prog >>= k) heap = none
      rw [bind_apply, hrun, Option.bind_none]
  | some c =>
      rcases hrun with ⟨a, heap', m', hprog, hm', hblocks'⟩
      rw [bind_apply, hprog, Option.bind_some]
      exact hk a c hm' hblocks'

/-- A step of both, with what it leaves alone. -/
theorem step {k : α → HeapM β α'} {k' : γ → Option γ'} (hA : A ⊆ A₁ + R)
    (h : Follows A₁ prog spec B) (hk : ∀ a c, Follows (B a c + R) (k a) (k' c) C) :
    Follows A (prog >>= k) (spec >>= k') C :=
  ((h.frame R).mono hA fun _ _ => subset_rfl).bind hk

/-- A step on the first part, which then stands behind the others. -/
theorem turn {k : α → HeapM β α'} {k' : γ → Option γ'} (h : Follows A₁ prog spec B)
    (hk : ∀ a c, Follows (R + B a c) (k a) (k' c) C) :
    Follows (A₁ + R) (prog >>= k) (spec >>= k') C := by
  refine step subset_rfl h fun a c => ?_
  rw [add_comm]
  exact hk a c

/-- A step that only the program takes. -/
theorem silent {k : α → HeapM β α'} {c : γ} {spec' : Option γ'} (hA : A ⊆ A₁ + R)
    (h : Follows A₁ prog (some c) B) (hk : ∀ a, Follows (B a c + R) (k a) spec' C) :
    Follows A (prog >>= k) spec' C := by
  have hprog : Follows A₁ prog (some ()) fun a _ => B a c := h.giving fun _ => subset_rfl
  have hboth : Follows A (prog >>= k) (some () >>= fun _ => spec') C :=
    step hA hprog fun a _ => hk a
  exact hboth

/-- A step of both that only looks. -/
theorem look {k : γ → HeapM β α'} {k' : γ → Option γ'} {prog : HeapM β γ} (hA : Has A A₁)
    (h : Reads A₁ prog spec) (hk : ∀ c, spec = some c → Follows A (k c) (k' c) C) :
    Follows A (prog >>= k) (spec >>= k') C := by
  intro heap m r hm hblocks
  have hrun := h.of_has hA hm hblocks
  cases spec with
  | none =>
      change (prog >>= k) heap = none
      rw [bind_apply, hrun]
      rfl
  | some c =>
      rw [bind_apply, hrun]
      exact hk c rfl hm hblocks

/-- A step in which both fail. -/
theorem fails {k : α → HeapM β α'} (hA : Has A A₁) (h : Reads A₁ prog none) :
    Follows A (prog >>= k) (none : Option γ') C := by
  intro heap m r hm hblocks
  change (prog >>= k) heap = none
  rw [bind_apply, h.of_has hA hm hblocks]
  rfl

/-- A step that only the program takes, and that only looks. -/
theorem read {k : α → HeapM β α'} {a : α} {spec' : Option γ'} (hA : Has A A₁)
    (h : Reads A₁ prog (some a)) (hk : Follows A (k a) spec' C) :
    Follows A (prog >>= k) spec' C := by
  intro heap m r hm hblocks
  rw [bind_apply, h.of_has hA hm hblocks]
  exact hk hm hblocks

end Follows

theorem follows_malloc (b : β) : Follows 0 (malloc b) (some ()) fun p _ => cell p b := by
  rintro heap m r rfl hblocks
  refine ⟨heap.next, _, {(heap.next, b)}, rfl, rfl, ?_⟩
  rw [zero_add] at hblocks
  rw [Multiset.singleton_add, ← hblocks]
  rfl

/-- A cell of a heap, and what is left without it. -/
theorem blocks_of_cell {h : Heap β} {p : ℕ} {b : β} {r : Multiset (ℕ × β)}
    (hblocks : (h.blocks : Multiset (ℕ × β)) = {(p, b)} + r) :
    (p, b) ∈ h.blocks ∧ ∀ cell ∈ r, cell.1 ≠ p := by
  rw [Multiset.singleton_add] at hblocks
  have hmem : (p, b) ∈ (h.blocks : Multiset (ℕ × β)) := by
    rw [hblocks]
    exact Multiset.mem_cons_self _ _
  refine ⟨hmem, fun cell hcell heq => ?_⟩
  have hnodup : (Multiset.map Prod.fst ((p, b) ::ₘ r)).Nodup := by
    rw [← hblocks, Multiset.map_coe, Multiset.coe_nodup]
    exact h.nodup
  rw [Multiset.map_cons, Multiset.nodup_cons] at hnodup
  exact hnodup.1 (Multiset.mem_map.mpr ⟨cell, hcell, heq⟩)

theorem follows_free (p : ℕ) (b : β) : Follows (cell p b) (free p) (some ()) fun _ _ => 0 := by
  rintro heap m r rfl hblocks
  obtain ⟨hmem, hother⟩ := blocks_of_cell hblocks
  refine ⟨(), _, 0, if_pos (List.mem_map_of_mem hmem), rfl, ?_⟩
  have hfilter : (heap.blocks.filter (·.1 ≠ p) : Multiset (ℕ × β)) =
      Multiset.filter (·.1 ≠ p) (heap.blocks : Multiset (ℕ × β)) := by
    simp
  change (heap.blocks.filter (·.1 ≠ p) : Multiset (ℕ × β)) = 0 + r
  rw [hfilter, hblocks, Multiset.singleton_add,
    Multiset.filter_cons_of_neg r (not_not_intro rfl), zero_add, Multiset.filter_eq_self]
  exact hother

theorem reads_load (p : ℕ) (b : β) : Reads (cell p b) (load p) (some b) := by
  rintro heap m r rfl hblocks
  obtain ⟨hmem, -⟩ := blocks_of_cell hblocks
  have hlookup : heap.blocks.lookup p = some b := by
    rcases List.append_of_mem hmem with ⟨front, back, hsplit⟩
    refine List.lookup_eq_some_iff.mpr ⟨front, back, hsplit, fun cell hcell => ?_⟩
    have hnodup := heap.nodup
    rw [hsplit, List.map_append, List.map_cons] at hnodup
    have hne := (List.nodup_append.mp hnodup).2.2 cell.1 (List.mem_map_of_mem hcell) p
      (List.mem_cons_self ..)
    simpa using hne.symm
  rw [load, hlookup, Option.map_some]

/-! ## Loops -/

namespace Follows

/-- Every element is given back. -/
theorem forM_each {P : α → γ → Assertion β} {f : α → HeapM β Unit}
    (hf : ∀ a c, Follows (P a c) (f a) (some ()) fun _ _ => 0) (as : List α) (cs : List γ) :
    Follows (each P as cs) (as.forM f) (some ()) fun _ _ => 0 := by
  induction as generalizing cs with
  | nil =>
      cases cs with
      | nil => exact pure subset_rfl
      | cons c cs => exact empty
  | cons a as ih =>
      cases cs with
      | nil => exact empty
      | cons c cs =>
          rw [each_cons]
          refine silent subset_rfl (hf a c) fun _ => ?_
          rw [zero_add]
          exact ih cs

/-- Every element is turned into one more. -/
theorem mapM_each {P : α → γ → Assertion β} {Q : α' → γ' → Assertion β} {f : α → HeapM β α'}
    {g : γ → Option γ'} (hf : ∀ a c, Follows (P a c) (f a) (g c) fun a' c' => P a c + Q a' c')
    (as : List α) (cs : List γ) :
    Follows (each P as cs) (as.mapM f) (cs.mapM g) fun as' cs' =>
      each P as cs + each Q as' cs' := by
  induction as generalizing cs with
  | nil =>
      cases cs with
      | nil => exact pure (zero_add _).ge
      | cons c cs => exact empty
  | cons a as ih =>
      cases cs with
      | nil => exact empty
      | cons c cs =>
          rw [List.mapM_cons, List.mapM_cons, each_cons]
          refine step subset_rfl (hf a c) fun a' c' => ?_
          refine step (add_comm _ _).subset (ih cs) fun as' cs' => ?_
          refine pure (Eq.subset ?_)
          rw [each_cons]
          abel

/-- Every element is copied. -/
theorem mapM_copy {P : α → γ → Assertion β} {f : α → HeapM β α}
    (hf : ∀ a c, Follows (P a c) (f a) (some c) fun a' c' => P a c + P a' c') (as : List α)
    (cs : List γ) :
    Follows (each P as cs) (as.mapM f) (some cs) fun as' cs' => each P as cs + each P as' cs' := by
  have hall : cs.mapM some = some cs :=
    (List.mapM_pure (f := id)).trans (congrArg some (List.map_id cs))
  have hcopies := mapM_each hf as cs
  rwa [hall] at hcopies

end Follows

end Heap

end GamePatch
