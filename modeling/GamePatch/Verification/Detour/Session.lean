import GamePatch.Verification.Detour.Hook
import GamePatch.Shared.Runs

/-! # Many hooks

Detours come and go in any order. As long as no two of them hook the same words at the
same time, memory is that of the start but for the jumps of the active ones. -/

namespace GamePatch.Hooking

open Words Branch PowerPC PatchCall

/-- The detour has hooked a function and not given it back. -/
def Detour.Active (d : Detour) : Prop := d.hookAddress ≠ 0 ∧ d.originalLength ≠ 0

instance (d : Detour) : Decidable d.Active := inferInstanceAs (Decidable (_ ∧ _))

/-- An active detour, its jump and its trampoline, where memory was `memory₀` at the start. -/
structure Entry (memory₀ : ℕ → UInt8) (buffer : UInt32) (e : Engine) (d : Detour) : Prop where
  length : d.originalLength = 16
  bound : d.hookAddress.toNat + 16 < 0x100000000
  outside : Store.Apart d.hookAddress.toNat 16 buffer.toNat 2048
  original : d.originalInstructions.take 16 = Store.read memory₀ d.hookAddress.toNat 16
  jump : Holds e.process.memory d.hookAddress.toNat (jumpWords d.hookTarget)
  lower : buffer.toNat ≤ d.trampolineAddress.toNat
  upper : d.trampolineAddress.toNat + 4 * (trampolineOf memory₀ d.hookAddress).length ≤
    buffer.toNat + e.trampolineSize
  moved : Holds e.process.memory d.trampolineAddress.toNat (trampolineOf memory₀ d.hookAddress)

/-- Memory is that of the start outside the buffer and the functions hooked. -/
structure Consistent (memory₀ : ℕ → UInt8) (buffer : UInt32) (s : Session) : Prop where
  space : s.engine.trampolineSize ≤ 2048
  entry : ∀ id, (s.detours id).Active → Entry memory₀ buffer s.engine (s.detours id)
  apart : ∀ i j, i ≠ j → (s.detours i).Active → (s.detours j).Active →
    Store.Apart (s.detours i).hookAddress.toNat 16 (s.detours j).hookAddress.toNat 16
  rest : ∀ a, (a < buffer.toNat ∨ buffer.toNat + 2048 ≤ a) →
    (∀ id, (s.detours id).Active →
      a < (s.detours id).hookAddress.toNat ∨ (s.detours id).hookAddress.toNat + 16 ≤ a) →
    s.engine.process.memory a = memory₀ a

variable {memory₀ : ℕ → UInt8} {buffer : UInt32} {s : Session} {e e' : Engine} {d : Detour}

/-- An entry depends on the memory of its two places only. -/
theorem Entry.congr (h : Entry memory₀ buffer e d)
    (hsize : e.trampolineSize ≤ e'.trampolineSize)
    (hjump : ∀ i < 16, e'.process.memory (d.hookAddress.toNat + i) =
      e.process.memory (d.hookAddress.toNat + i))
    (hmoved : ∀ a, buffer.toNat ≤ a → a < buffer.toNat + e.trampolineSize →
      e'.process.memory a = e.process.memory a) :
    Entry memory₀ buffer e' d := by
  have hlower := h.lower
  have hupper := h.upper
  refine ⟨h.length, h.bound, h.outside, h.original, h.jump.congr hjump, hlower, by omega, ?_⟩
  exact h.moved.congr fun i hi => hmoved _ (by omega) (by omega)

/-! ## One action -/

/-- A detour that is free hooks words that no other one has hooked. -/
structure Ready (buffer : UInt32) (s : Session) (id : ℕ) (fn : UInt32) : Prop where
  free : ¬ (s.detours id).Active
  nonzero : fn ≠ 0
  bound : fn.toNat + 16 < 0x100000000
  outside : Store.Apart fn.toNat 16 buffer.toNat 2048
  apart : ∀ j, (s.detours j).Active → Store.Apart fn.toNat 16 (s.detours j).hookAddress.toNat 16

theorem Session.set_self (s : Session) (id : ℕ) (d : Detour) (e : Engine) :
    (s.set id d e).detours id = d := if_pos rfl

theorem Session.set_of_ne (s : Session) {id i : ℕ} (h : i ≠ id) (d : Detour) (e : Engine) :
    (s.set id d e).detours i = s.detours i := if_neg h

/-- The words of a function that nobody has hooked are those of the start. -/
theorem Consistent.memory_of_ready {id : ℕ} {fn : UInt32} (h : Consistent memory₀ buffer s)
    (hready : Ready buffer s id fn) {i : ℕ} (hi : i < 16) :
    s.engine.process.memory (fn.toNat + i) = memory₀ (fn.toNat + i) := by
  have houtside := hready.outside
  apply h.rest
  · rw [Store.Apart] at houtside
    omega
  · intro j hj
    have hapart := hready.apart j hj
    rw [Store.Apart] at hapart
    omega

theorem functionWords_congr {memory memory' : ℕ → UInt8} {fn : UInt32} {n : ℕ}
    (h : ∀ i < 4 * n, memory' (fn.toNat + i) = memory (fn.toNat + i)) :
    functionWords memory' fn n = functionWords memory fn n := by
  apply List.map_congr_left
  intro i hi
  rw [List.mem_range] at hi
  apply wordAt_congr
  intro j hj
  rw [Nat.add_assoc]
  exact h _ (by omega)

theorem consistent_hook {id : ℕ} {fn : UInt32} (callback toc : UInt32)
    (h : Consistent memory₀ buffer s) (hbuffer : buffer.toNat + 2048 < 0x100000000)
    (hspace : s.engine.trampolineSize + 120 ≤ 2048) (hready : Ready buffer s id fn) :
    Consistent memory₀ buffer (perform buffer s (.hook id fn callback toc)) := by
  have hsame {i : ℕ} (hi : i < 16) := h.memory_of_ready hready hi
  have houtside := hready.outside
  have hfits : Fits buffer fn s.engine := by
    refine ⟨by omega, hready.bound, ?_⟩
    rw [Store.Apart] at houtside ⊢
    omega
  have hinstalled := hook_installed callback toc (s.detours id) hfits
  have hholds := hinstalled.holds hfits
  have hlength := length_trampolineOf s.engine.process.memory fn
  have hmoved : trampolineOf s.engine.process.memory fn = trampolineOf memory₀ fn := by
    rw [trampolineOf, functionWords_congr fun i hi => hsame hi, trampolineOf]
  have hread : Store.read s.engine.process.memory fn.toNat 16 =
      Store.read memory₀ fn.toNat 16 := Store.read_congr fun i hi => hsame hi
  rw [perform]
  generalize hook buffer fn callback toc (s.detours id) s.engine = after at *
  rcases after with ⟨d', e'⟩
  dsimp only at hinstalled hholds ⊢
  have hsize := hinstalled.size
  have haddress := hinstalled.address
  have htrampoline := hinstalled.trampoline
  simp only [Store.Apart] at houtside
  refine ⟨by simp only [Session.set]; omega, fun i hi => ?_, fun i j hne hi hj => ?_,
    fun a ha hfree => ?_⟩
  · by_cases hid : i = id
    · subst hid
      rw [Session.set_self]
      refine ⟨hinstalled.length, haddress ▸ hready.bound, haddress ▸ hready.outside, ?_, ?_, ?_,
        ?_, ?_⟩
      · rw [hinstalled.original, haddress, hread]
      · rw [haddress]
        exact hholds.1
      · omega
      · rw [haddress, ← hmoved, htrampoline]
        simp only [Session.set, hsize]
        omega
      · rw [haddress, ← hmoved]
        exact hholds.2
    · rw [Session.set_of_ne s hid] at hi ⊢
      have hapart := hready.apart i hi
      have houtside' := (h.entry i hi).outside
      rw [Store.Apart] at hapart houtside'
      apply (h.entry i hi).congr
      · exact hsize ▸ Nat.le_add_right _ _
      · intro j hj
        exact hinstalled.frame (by omega) (by omega)
      · intro a hlow hhigh
        exact hinstalled.frame (by omega) (by omega)
  · by_cases hid : i = id
    · subst hid
      rw [Session.set_of_ne s (Ne.symm hne)] at hj ⊢
      rw [Session.set_self, haddress]
      exact hready.apart j hj
    · rw [Session.set_of_ne s hid] at hi ⊢
      by_cases hid' : j = id
      · subst hid'
        rw [Session.set_self, haddress]
        exact (hready.apart i hi).symm
      · rw [Session.set_of_ne s hid'] at hj ⊢
        exact h.apart i j hne hi hj
  · have hself : a < fn.toNat ∨ fn.toNat + 16 ≤ a := by
      have hactive : d'.Active := by
        rw [Detour.Active, haddress, hinstalled.length]
        exact ⟨hready.nonzero, by decide⟩
      have hnew := hfree id (by rwa [Session.set_self])
      rwa [Session.set_self, haddress] at hnew
    refine (hinstalled.frame hself (by omega)).trans (h.rest a ha fun j hj => ?_)
    by_cases hid : j = id
    · exact absurd (hid ▸ hj) hready.free
    · have hother := hfree j (by rwa [Session.set_of_ne s hid])
      rwa [Session.set_of_ne s hid] at hother

theorem not_active_init : ¬ Detour.init.Active := by decide

theorem unHook_of_active (h : d.Active) (e : Engine) : unHook d e =
    (true, { d with originalLength := 0, hookAddress := 0 }, { e with
      process := writeProcessMemory e.process d.hookAddress.toNat
        (d.originalInstructions.take d.originalLength) }) := if_pos h

theorem unHook_of_not_active (h : ¬ d.Active) (e : Engine) : unHook d e = (false, d, e) :=
  if_neg h

theorem not_active_unHook (d : Detour) (e : Engine) : ¬ (unHook d e).2.1.Active := by
  by_cases h : d.Active
  · rw [unHook_of_active h]
    exact fun hactive => hactive.1 rfl
  · rwa [unHook_of_not_active h]

/-- A detour that lets go of its function, whatever stands for it afterwards. -/
theorem consistent_release (id : ℕ) (h : Consistent memory₀ buffer s) {d' : Detour}
    (hd : ¬ d'.Active) :
    Consistent memory₀ buffer (s.set id d' (unHook (s.detours id) s.engine).2.2) := by
  have hold {i : ℕ} {e' : Engine} (hi : ((s.set id d' e').detours i).Active) :
      i ≠ id ∧ (s.detours i).Active := by
    by_cases hid : i = id
    · rw [hid, Session.set_self] at hi
      exact absurd hi hd
    · exact ⟨hid, by rwa [Session.set_of_ne s hid] at hi⟩
  have hspace := h.space
  by_cases hactive : (s.detours id).Active
  · have hentry := h.entry id hactive
    have houtside := hentry.outside
    rw [unHook_of_active hactive, hentry.length, hentry.original]
    rw [Store.Apart] at houtside
    have hframe {a : ℕ} (ha : a < (s.detours id).hookAddress.toNat ∨
        (s.detours id).hookAddress.toNat + 16 ≤ a) :
        Store.write s.engine.process.memory (s.detours id).hookAddress.toNat
          (Store.read memory₀ (s.detours id).hookAddress.toNat 16) a =
            s.engine.process.memory a :=
      Store.write_outside _ _ (by rwa [Store.length_read])
    refine ⟨hspace, fun i hi => ?_, fun i j hne hi hj => ?_, fun a ha hfree => ?_⟩
    · rcases hold hi with ⟨hid, hi⟩
      rw [Session.set_of_ne s hid]
      have hapart := h.apart i id hid hi hactive
      have houtside' := (h.entry i hi).outside
      have hupper := (h.entry i hi).upper
      rw [Store.Apart] at hapart houtside'
      apply (h.entry i hi).congr
      · exact le_rfl
      · exact fun j hj => hframe (by omega)
      · exact fun a hlow hhigh => hframe (by omega)
    · rcases hold hi with ⟨hid, hi⟩
      rcases hold hj with ⟨hid', hj⟩
      rw [Session.set_of_ne s hid, Session.set_of_ne s hid']
      exact h.apart i j hne hi hj
    · obtain ⟨i, hi, rfl, hcell⟩ | ⟨hout, hcell⟩ := Store.write_cases s.engine.process.memory
        (s.detours id).hookAddress.toNat
        (Store.read memory₀ (s.detours id).hookAddress.toNat 16) a
      · exact hcell.trans (Store.getElem_read hi)
      · rw [Store.length_read] at hout
        refine hcell.trans (h.rest a ha fun j hj => ?_)
        by_cases hid : j = id
        · rwa [hid]
        · have hother := hfree j (by rwa [Session.set_of_ne s hid])
          rwa [Session.set_of_ne s hid] at hother
  · rw [unHook_of_not_active hactive]
    refine ⟨hspace, fun i hi => ?_, fun i j hne hi hj => ?_, fun a ha hfree => ?_⟩
    · rcases hold hi with ⟨hid, hi⟩
      rw [Session.set_of_ne s hid]
      exact h.entry i hi
    · rcases hold hi with ⟨hid, hi⟩
      rcases hold hj with ⟨hid', hj⟩
      rw [Session.set_of_ne s hid, Session.set_of_ne s hid']
      exact h.apart i j hne hi hj
    · refine h.rest a ha fun j hj => ?_
      by_cases hid : j = id
      · exact absurd (hid ▸ hj) hactive
      · have hother := hfree j (by rwa [Session.set_of_ne s hid])
        rwa [Session.set_of_ne s hid] at hother

/-! ## The use of the buffer -/

theorem trampolineSize_relocateRound (buffer fn : UInt32) (e : Engine) (i : ℕ) :
    e.trampolineSize + 4 ≤ (relocateRound buffer fn e i).trampolineSize ∧
      (relocateRound buffer fn e i).trampolineSize ≤ e.trampolineSize + 24 := by
  have hlength := length_relocatedWords (fn + UInt32.ofNat (4 * i))
    (readWord e.process (fn + UInt32.ofNat (4 * i)))
  rw [relocateRound, relocateCode_eq]
  dsimp only
  omega

theorem trampolineSize_rounds (buffer fn : UInt32) (e : Engine) (n : ℕ) :
    e.trampolineSize + 4 * n ≤
        ((List.range n).foldl (relocateRound buffer fn) e).trampolineSize ∧
      ((List.range n).foldl (relocateRound buffer fn) e).trampolineSize ≤
        e.trampolineSize + 24 * n := by
  induction n with
  | zero => exact ⟨le_rfl, le_rfl⟩
  | succ n ih =>
      have hround := trampolineSize_relocateRound buffer fn
        ((List.range n).foldl (relocateRound buffer fn) e) n
      rw [List.range_succ, List.foldl_append, List.foldl_cons, List.foldl_nil]
      omega

def Action.isHook : Action → Bool
  | .hook .. => true
  | _ => false

/-- A hook takes between ten and thirty words of the buffer, and nothing gives them back. -/
theorem trampolineSize_perform (buffer : UInt32) (s : Session) (a : Action) :
    s.engine.trampolineSize + (if a.isHook then 40 else 0) ≤
        (perform buffer s a).engine.trampolineSize ∧
      (perform buffer s a).engine.trampolineSize ≤
        s.engine.trampolineSize + (if a.isHook then 120 else 0) := by
  have hrelease (d : Detour) : (unHook d s.engine).2.2.trampolineSize =
      s.engine.trampolineSize := by
    rw [unHook]
    split <;> rfl
  cases a with
  | hook id fn callback toc =>
      have hrounds := trampolineSize_rounds buffer fn s.engine 4
      rw [perform, hook_eq]
      simp only [Session.set, Action.isHook, if_true]
      omega
  | unHook id => exact ⟨(hrelease _).ge, (hrelease _).le⟩
  | destroy id => exact ⟨(hrelease _).ge, (hrelease _).le⟩

theorem trampolineSize_actions (buffer : UInt32) (actions : List Action) (s : Session) :
    s.engine.trampolineSize + 40 * actions.countP Action.isHook ≤
        (actions.foldl (perform buffer) s).engine.trampolineSize ∧
      (actions.foldl (perform buffer) s).engine.trampolineSize ≤
        s.engine.trampolineSize + 120 * actions.countP Action.isHook := by
  induction actions generalizing s with
  | nil => exact ⟨le_rfl, le_rfl⟩
  | cons a actions ih =>
      have hstep := trampolineSize_perform buffer s a
      have hrest := ih (perform buffer s a)
      rw [List.foldl_cons, List.countP_cons]
      cases ha : a.isHook with
      | true =>
          simp only [ha, if_true] at hstep ⊢
          omega
      | false =>
          simp only [ha, Bool.false_eq_true, if_false] at hstep ⊢
          omega

/-- However hooks are set and removed, the buffer is used up by the hooks alone. Seventeen
have room in an empty buffer, fifty-two have not, and a `size_t` does not wrap before the
end of some 35 million. -/
theorem trampolineSize_run (buffer : UInt32) (actions : List Action) (s : Session) :
    (s.engine.trampolineSize + 40 * actions.countP Action.isHook ≤
        (actions.foldl (perform buffer) s).engine.trampolineSize ∧
      (actions.foldl (perform buffer) s).engine.trampolineSize ≤
        s.engine.trampolineSize + 120 * actions.countP Action.isHook) ∧
    (s.engine.trampolineSize = 0 →
      (actions.countP Action.isHook ≤ 17 →
        (actions.foldl (perform buffer) s).engine.trampolineSize ≤ 2048) ∧
      (52 ≤ actions.countP Action.isHook →
        2048 < (actions.foldl (perform buffer) s).engine.trampolineSize) ∧
      (actions.countP Action.isHook ≤ 35791394 →
        (actions.foldl (perform buffer) s).engine.trampolineSize < 0x100000000)) := by
  have hsize := trampolineSize_actions buffer actions s
  exact ⟨hsize, fun hempty =>
    ⟨fun hfew => by omega, fun hmany => by omega, fun hbound => by omega⟩⟩

/-! ## Runs -/

/-- What may be done in a state. -/
def Allowed (buffer : UInt32) (s : Session) : Action → Prop
  | .hook id fn _ _ => Ready buffer s id fn
  | .unHook _ => True
  | .destroy _ => True

/-- Every action is allowed in the state where it is performed. -/
def AllAllowed (buffer : UInt32) : Session → List Action → Prop
  | _, [] => True
  | s, a :: actions => Allowed buffer s a ∧ AllAllowed buffer (perform buffer s a) actions

theorem consistent_perform (hbuffer : buffer.toNat + 2048 < 0x100000000)
    (h : Consistent memory₀ buffer s) {a : Action} (hallowed : Allowed buffer s a)
    (hspace : a.isHook = true → s.engine.trampolineSize + 120 ≤ 2048) :
    Consistent memory₀ buffer (perform buffer s a) := by
  cases a with
  | hook id fn callback toc => exact consistent_hook callback toc h hbuffer (hspace rfl) hallowed
  | unHook id => exact consistent_release id h (not_active_unHook _ _)
  | destroy id => exact consistent_release id h not_active_init

/-- Up to seventeen hooks, set and removed in any order, leave memory as it was but for
the jumps and the trampolines, and every active detour keeps its trampoline. -/
theorem session_consistent (hbuffer : buffer.toNat + 2048 < 0x100000000) {actions : List Action}
    (hstart : Consistent memory₀ buffer s) (hallowed : AllAllowed buffer s actions)
    (hspace : s.engine.trampolineSize + 120 * actions.countP Action.isHook ≤ 2048) :
    Consistent memory₀ buffer (actions.foldl (perform buffer) s) := by
  induction actions generalizing s with
  | nil => exact hstart
  | cons a actions ih =>
      have hsize := (trampolineSize_perform buffer s a).2
      rw [List.countP_cons] at hspace
      refine ih (consistent_perform hbuffer hstart hallowed.1 fun ha => ?_) hallowed.2 ?_
      · rw [if_pos ha] at hspace
        omega
      · cases ha : a.isHook with
        | true =>
            simp only [ha, if_true] at hspace hsize
            omega
        | false =>
            simp only [ha, Bool.false_eq_true, if_false] at hspace hsize
            omega

/-- Nothing is hooked and the buffer is empty. -/
structure Fresh (s : Session) : Prop where
  inactive : ∀ id, ¬ (s.detours id).Active
  empty : s.engine.trampolineSize = 0

theorem Fresh.consistent (h : Fresh s) (buffer : UInt32) :
    Consistent s.engine.process.memory buffer s :=
  ⟨h.empty ▸ Nat.zero_le _, fun id hid => absurd hid (h.inactive id),
    fun i _ _ hi _ => absurd hi (h.inactive i), fun _ _ _ => rfl⟩

/-- Up to seventeen hooks of functions that do not overlap may be set and removed in any
order: every active one keeps its jump, its trampoline and the bytes to put back, and
once all are removed memory outside the buffer is that of the start. -/
theorem hooks_in_any_order (hbuffer : buffer.toNat + 2048 < 0x100000000) {actions : List Action}
    (hfresh : Fresh s) (hallowed : AllAllowed buffer s actions)
    (hcount : actions.countP Action.isHook ≤ 17) :
    Consistent s.engine.process.memory buffer (actions.foldl (perform buffer) s) ∧
      ((∀ id, ¬ ((actions.foldl (perform buffer) s).detours id).Active) →
        ∀ a, (a < buffer.toNat ∨ buffer.toNat + 2048 ≤ a) →
          (actions.foldl (perform buffer) s).engine.process.memory a =
            s.engine.process.memory a) := by
  have hempty := hfresh.empty
  have hlast := session_consistent hbuffer (hfresh.consistent buffer) hallowed (by omega)
  exact ⟨hlast, fun hnone a ha => hlast.rest a ha fun id hid => absurd hid (hnone id)⟩

/-- A session with all detours constructed and none used. -/
def idle (memory : ℕ → UInt8) : Session := ⟨fun _ => .init, unhooked memory⟩

theorem fresh_idle (memory : ℕ → UInt8) : Fresh (idle memory) := ⟨fun _ => not_active_init, rfl⟩

theorem ready_idle (memory : ℕ → UInt8) (id : ℕ) {fn : UInt32} (hnonzero : fn ≠ 0)
    (hbound : fn.toNat + 16 < 0x100000000) (houtside : Store.Apart fn.toNat 16 buffer.toNat 2048) :
    Ready buffer (idle memory) id fn :=
  ⟨not_active_init, hnonzero, hbound, houtside, fun _ hj => absurd hj not_active_init⟩

/-- Two functions are hooked, and the first one is given back before the second. -/
theorem hooks_in_any_order_two :
    let actions := [Action.hook 3 0x10000 0x8000 0, .hook 4 0x11000 0x8008 0, .unHook 3]
    let between := actions.foldl (perform 0x20000) (idle exampleMemory)
    let after := (actions ++ [Action.destroy 4]).foldl (perform 0x20000) (idle exampleMemory)
    Consistent exampleMemory 0x20000 between ∧
      ∀ a, (a < 0x20000 ∨ 0x20000 + 2048 ≤ a) →
        after.engine.process.memory a = exampleMemory a := by
  intro actions between after
  let hooked := perform 0x20000 (idle exampleMemory) (.hook 3 0x10000 0x8000 0)
  have hfirst : Ready 0x20000 (idle exampleMemory) 3 0x10000 :=
    ready_idle _ 3 (by decide) (by decide) (.inl (by decide))
  have hother (i : ℕ) (hi : i ≠ 3) : hooked.detours i = .init := Session.set_of_ne _ hi _ _
  have hsecond : Ready 0x20000 hooked 4 0x11000 := by
    refine ⟨?_, by decide, by decide, .inl (by decide), fun j hj => ?_⟩
    · rw [hother 4 (by decide)]
      exact not_active_init
    · by_cases hid : j = 3
      · subst hid
        have haddress : (hooked.detours 3).hookAddress = 0x10000 :=
          (hook_installed 0x8000 0 .init (fits_unhooked exampleMemory)).address
        rw [haddress]
        exact .inr (by decide)
      · rw [hother j hid] at hj
        exact absurd hj not_active_init
  have hallowed : AllAllowed 0x20000 (idle exampleMemory) actions :=
    ⟨hfirst, hsecond, trivial, trivial⟩
  have hallowed' : AllAllowed 0x20000 (idle exampleMemory) (actions ++ [.destroy 4]) :=
    ⟨hfirst, hsecond, trivial, trivial, trivial⟩
  have hnone (id : ℕ) : ¬ (after.detours id).Active := by
    by_cases h4 : id = 4
    · subst h4
      exact not_active_init
    · by_cases h3 : id = 3
      · subst h3
        let both := perform 0x20000 hooked (.hook 4 0x11000 0x8008 0)
        have hkept : after.detours 3 = between.detours 3 := Session.set_of_ne _ h4 _ _
        have hreleased : between.detours 3 = (unHook (both.detours 3) both.engine).2.1 :=
          Session.set_self _ 3 _ _
        rw [hkept, hreleased]
        exact not_active_unHook _ _
      · have hinit : after.detours id = .init := by
          refine (Session.set_of_ne _ h4 _ _).trans ((Session.set_of_ne _ h3 _ _).trans ?_)
          exact (Session.set_of_ne _ h4 _ _).trans (hother id h3)
        rw [hinit]
        exact not_active_init
  exact ⟨(hooks_in_any_order (by decide) (fresh_idle _) hallowed (by decide)).1,
    (hooks_in_any_order (by decide) (fresh_idle _) hallowed' (by decide)).2 hnone⟩

end GamePatch.Hooking
