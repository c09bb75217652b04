import GamePatch.Verification.Detour.Session
import Mathlib.Data.List.Chain

/-! # Hooks of one function

Hooks may also lie over each other. Removed in the reverse order they leave no trace,
and each trampoline leads to the callback hooked before. -/

namespace GamePatch.Hooking

open Words Branch PowerPC Simulation PatchCall

/-- The number of the detour. -/
def Action.id : Action → ℕ
  | .hook id .. => id
  | .unHook id => id
  | .destroy id => id

/-- Hooks that are removed in the reverse order. -/
inductive Nested : List Action → Prop where
  | nil : Nested []
  | append {actions actions' : List Action} : Nested actions → Nested actions' →
      Nested (actions ++ actions')
  | wrap (id : ℕ) (fn callback toc : UInt32) {inner : List Action} : Nested inner →
      (∀ a ∈ inner, a.id ≠ id) → Nested (.hook id fn callback toc :: inner ++ [.unHook id])

/-- The function lies in memory and not in the buffer. -/
def Hookable (buffer : UInt32) : Action → Prop
  | .hook _ fn _ _ => fn ≠ 0 ∧ fn.toNat + 16 < 0x100000000 ∧
      Store.Apart fn.toNat 16 buffer.toNat 2048
  | _ => True

variable {buffer : UInt32} {s : Session} {actions : List Action}

/-- An action changes no other detour. -/
theorem detours_perform {a : Action} {i : ℕ} (h : a.id ≠ i) :
    (perform buffer s a).detours i = s.detours i := by
  have hne := Ne.symm h
  cases a <;> exact Session.set_of_ne s hne _ _

theorem detours_run {i : ℕ} (h : ∀ a ∈ actions, a.id ≠ i) :
    (actions.foldl (perform buffer) s).detours i = s.detours i := by
  induction actions generalizing s with
  | nil => rfl
  | cons a actions ih =>
      rw [List.forall_mem_cons] at h
      rw [List.foldl_cons, ih h.2, detours_perform h.1]

/-- The bytes of the function come back however they were hooked in between. -/
theorem nested_restores (hbuffer : buffer.toNat + 2048 < 0x100000000) (hnested : Nested actions)
    (hhookable : ∀ a ∈ actions, Hookable buffer a)
    (hspace : s.engine.trampolineSize + 120 * actions.countP Action.isHook ≤ 2048) {a : ℕ}
    (ha : a < buffer.toNat ∨ buffer.toNat + 2048 ≤ a) :
    (actions.foldl (perform buffer) s).engine.process.memory a = s.engine.process.memory a := by
  induction hnested generalizing s a with
  | nil => rfl
  | @append actions actions' _ _ ih ih' =>
      rw [List.countP_append] at hspace
      have hsize := (trampolineSize_actions buffer actions s).2
      rw [List.foldl_append, ih' (fun b hb => hhookable b (List.mem_append_right _ hb))
        (by omega) ha]
      exact ih (fun b hb => hhookable b (List.mem_append_left _ hb)) (by omega) ha
  | @wrap id fn callback toc inner hinner hids ih =>
      rcases hhookable (.hook id fn callback toc) (by simp) with ⟨hnonzero, hbound, houtside⟩
      have hcount : List.countP Action.isHook (.hook id fn callback toc :: inner ++ [.unHook id]) =
          inner.countP Action.isHook + 1 := by
        rw [List.countP_append, List.countP_cons]
        rfl
      rw [hcount] at hspace
      have hfits : Fits buffer fn s.engine := by
        refine ⟨by omega, hbound, ?_⟩
        rw [Store.Apart] at houtside ⊢
        omega
      have hinstalled := hook_installed callback toc (s.detours id) hfits
      have hlength := length_trampolineOf s.engine.process.memory fn
      have hsize := hinstalled.size
      let s₁ := perform buffer s (.hook id fn callback toc)
      let s₂ := inner.foldl (perform buffer) s₁
      have hfirst (b : ℕ) (hb : b < buffer.toNat ∨ buffer.toNat + 2048 ≤ b)
          (hfn : b < fn.toNat ∨ fn.toNat + 16 ≤ b) :
          s₁.engine.process.memory b = s.engine.process.memory b :=
        hinstalled.frame hfn (by omega)
      have hmiddle (b : ℕ) (hb : b < buffer.toNat ∨ buffer.toNat + 2048 ≤ b) :
          s₂.engine.process.memory b = s₁.engine.process.memory b := by
        refine ih (fun c hc => hhookable c (by simp [hc])) ?_ hb
        have hstep := (trampolineSize_perform buffer s (.hook id fn callback toc)).2
        simp only [Action.isHook, if_true] at hstep
        exact (Nat.add_le_add_right hstep _).trans (by omega)
      -- The detour is the one that the hook left behind.
      have hdetour : s₂.detours id = (hook buffer fn callback toc (s.detours id) s.engine).1 := by
        rw [detours_run hids]
        exact Session.set_self s id _ _
      have hactive : (s₂.detours id).Active := by
        rw [hdetour, Detour.Active, hinstalled.address, hinstalled.length]
        exact ⟨hnonzero, by decide⟩
      rw [List.cons_append, List.foldl_cons, List.foldl_append, List.foldl_cons, List.foldl_nil]
      change (perform buffer s₂ (.unHook id)).engine.process.memory a = _
      rw [perform, unHook_of_active hactive, hdetour, hinstalled.length, hinstalled.original,
        hinstalled.address]
      obtain ⟨i, hi, rfl, hcell⟩ | ⟨hout, hcell⟩ := Store.write_cases s₂.engine.process.memory
        fn.toNat (Store.read s.engine.process.memory fn.toNat 16) a
      · exact hcell.trans (Store.getElem_read hi)
      · rw [Store.length_read] at hout
        exact hcell.trans ((hmiddle a ha).trans (hfirst a ha hout))

/-- The branch at the end of the function, which both hooks have overwritten. -/
theorem nested_restores_overlapping :
    let actions :=
      [Action.hook 0 0x10000 0x8000 0, .hook 1 0x10008 0x8008 0, .unHook 1, .unHook 0]
    (actions.foldl (perform 0x20000) (idle exampleMemory)).engine.process.memory 0x1000c = 0x48 := by
  have hbranch : exampleMemory 0x1000c = 0x48 := by decide +kernel
  have hinner : Nested [.hook 1 0x10008 0x8008 0, .unHook 1] :=
    .wrap 1 0x10008 0x8008 0 .nil (by simp)
  have hnested := Nested.wrap 0 0x10000 0x8000 0 hinner (by simp [Action.id])
  have houter : Hookable 0x20000 (.hook 0 0x10000 0x8000 0) :=
    ⟨by decide, by decide, .inl (by decide)⟩
  have hover : Hookable 0x20000 (.hook 1 0x10008 0x8008 0) :=
    ⟨by decide, by decide, .inl (by decide)⟩
  have hrelease (id : ℕ) : Hookable 0x20000 (.unHook id) := trivial
  have hhookable := List.forall_mem_cons.mpr ⟨houter, List.forall_mem_cons.mpr ⟨hover,
    List.forall_mem_cons.mpr ⟨hrelease 1, List.forall_mem_singleton.mpr (hrelease 0)⟩⟩⟩
  exact (nested_restores (s := idle exampleMemory) (by decide) hnested hhookable (by decide)
    (.inl (by decide))).trans hbranch

/-! ## Several hooks of one function -/

/-- A call of the trampoline of a detour comes to the callback of the one before, that
of the first to the words of the function, and a call of the function to the last one. -/
structure Chained (buffer fn : UInt32) (e : Engine) (ds : List Detour) (e' : Engine) : Prop where
  size : e.trampolineSize ≤ e'.trampolineSize ∧
    e'.trampolineSize ≤ e.trampolineSize + 120 * ds.length
  frame : ∀ a, (a < fn.toNat ∨ fn.toNat + 16 ≤ a) →
    (a < buffer.toNat + e.trampolineSize ∨ buffer.toNat + e'.trampolineSize ≤ a) →
    e'.process.memory a = e.process.memory a
  first : ∀ d ∈ ds.head?, Holds e'.process.memory d.trampolineAddress.toNat
    (trampolineOf e.process.memory fn)
  next : ds.IsChain fun d d' =>
    Holds e'.process.memory d'.trampolineAddress.toNat (jumpWords d.hookTarget)
  last : ∀ d ∈ ds.getLast?, Holds e'.process.memory fn.toNat (jumpWords d.hookTarget)
  unchanged : ds = [] → e' = e
  opd : ∀ d ∈ ds, d.trampolineOpd.addr = d.trampolineAddress

end GamePatch.Hooking
