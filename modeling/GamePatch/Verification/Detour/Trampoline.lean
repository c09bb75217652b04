import GamePatch.Verification.Detour.Relocation

/-! # The trampoline

The instructions moved to the trampoline do there what they did in the function. The
two runs agree on the registers, and on the memory outside what the hook itself uses. -/

namespace GamePatch.Hooking

open Words Branch PowerPC Simulation PatchCall

/-! ## The words -/

/-- The words moved from `source`, one after another. -/
def relocatedAll (source : UInt32) : List UInt32 → List UInt32
  | [] => []
  | w :: ws => relocatedWords source w ++ relocatedAll (source + 4) ws

/-- The jump behind the words moved. -/
def jumpBack (fn : UInt32) (n : ℕ) : List UInt32 :=
  branchFarAsmPreserve (fn + UInt32.ofNat (4 * n)) false branchOptionsAlways 0 0

def trampolineWords (fn : UInt32) (words : List UInt32) : List UInt32 :=
  relocatedAll fn words ++ jumpBack fn words.length

theorem relocatedAll_append (source : UInt32) (ws ws' : List UInt32) :
    relocatedAll source (ws ++ ws') =
      relocatedAll source ws ++ relocatedAll (source + UInt32.ofNat (4 * ws.length)) ws' := by
  induction ws generalizing source with
  | nil => simp [relocatedAll]
  | cons w ws ih =>
      have hplace : source + UInt32.ofNat (4 * (w :: ws).length) =
          source + 4 + UInt32.ofNat (4 * ws.length) := by
        rw [List.length_cons, Nat.mul_succ, Nat.add_comm, UInt32.ofNat_add, UInt32.add_assoc]
        rfl
      rw [List.cons_append, relocatedAll, ih, hplace, relocatedAll, List.append_assoc]

/-- The place in the trampoline of the word `i` of the function. -/
def offset (fn : UInt32) (words : List UInt32) (i : ℕ) : ℕ :=
  4 * (relocatedAll fn (words.take i)).length

variable {fn trampoline : UInt32} {words : List UInt32} {memory : ℕ → UInt8} {i : ℕ}

theorem offset_succ (fn : UInt32) (hi : i < words.length) : offset fn words (i + 1) =
    offset fn words i + 4 * (relocatedWords (fn + UInt32.ofNat (4 * i)) words[i]).length := by
  have hlength : (words.take i).length = i := by
    rw [List.length_take]
    omega
  rw [offset, List.take_add_one, List.getElem?_eq_getElem hi, Option.toList_some,
    relocatedAll_append, hlength, relocatedAll, relocatedAll, List.append_nil, List.length_append,
    offset]
  omega

/-- The word `i` stands relocated at its place. -/
theorem holds_relocatedWords (h : Holds memory trampoline.toNat (trampolineWords fn words))
    (hi : i < words.length) : Holds memory (trampoline.toNat + offset fn words i)
      (relocatedWords (fn + UInt32.ofNat (4 * i)) words[i]) := by
  have hsplit : words = words.take i ++ words[i] :: words.drop (i + 1) := by
    rw [← List.drop_eq_getElem_cons hi, List.take_append_drop]
  have hlength : (words.take i).length = i := by
    rw [List.length_take]
    omega
  have hwords : relocatedAll fn words = relocatedAll fn (words.take i) ++
      (relocatedWords (fn + UInt32.ofNat (4 * i)) words[i] ++
        relocatedAll (fn + UInt32.ofNat (4 * i) + 4) (words.drop (i + 1))) := by
    conv_lhs => rw [hsplit]
    rw [relocatedAll_append, hlength, relocatedAll]
  have hall := (holds_append.mp h).1
  rw [hwords] at hall
  exact (holds_append.mp (holds_append.mp hall).2).1

/-- The jump back stands behind the last word. -/
theorem holds_jumpBack (h : Holds memory trampoline.toNat (trampolineWords fn words)) :
    Holds memory (trampoline.toNat + offset fn words words.length) (jumpBack fn words.length) := by
  rw [offset, List.take_length]
  exact (holds_append.mp h).2

/-! ## What may be moved -/

/-- The machine stands at one of the `n` words overwritten. -/
def Inside (fn : UInt32) (n : ℕ) (m : Machine) : Prop :=
  fn.toNat ≤ m.pc.toNat ∧ m.pc.toNat < fn.toNat + 4 * n

/-- The states differ in the count register, in where they stand and in the memory that
is hidden from the program. -/
structure Agree (hidden : ℕ → Prop) (s t : Machine) : Prop where
  gpr : t.gpr = s.gpr
  lr : t.lr = s.lr
  cr : t.cr = s.cr
  memory : ∀ a, ¬ hidden a → t.memory a = s.memory a

/-- A branch of the lower half of the addresses that leaves the words overwritten and
neither counts nor is a call that may be skipped. -/
structure BranchesOut (fn : UInt32) (n : ℕ) (w : UInt32) (s : Machine) : Prop where
  counter : keepsCounter w = true
  call : link w = true → taken w s.cr = true
  low : 0 ≤ (s.pc.toNat : ℤ) + relativeDisplacement w
  high : (s.pc.toNat : ℤ) + relativeDisplacement w < 0x80000000
  outside : (s.pc.toNat : ℤ) + relativeDisplacement w < fn.toNat ∨
    fn.toNat + 4 * n ≤ (s.pc.toNat : ℤ) + relativeDisplacement w

/-- Any other instruction depends neither on its own address nor on the count register,
leaves the hidden memory alone, and goes on to the next word or leaves. -/
def Straight (other : UInt32 → Machine → Option Machine) (hidden : ℕ → Prop) (fn : UInt32) (n : ℕ)
    (w : UInt32) (s : Machine) : Prop :=
  ∀ t s', Agree hidden s t → execute other w s = some s' →
    ∃ t', execute other w t = some t' ∧ Agree hidden s' t' ∧
      (∀ a, hidden a → s'.memory a = s.memory a ∧ t'.memory a = t.memory a) ∧
      (s'.pc = s.pc + 4 ∧ t'.pc = t.pc + 4 ∨ ¬ Inside fn n s' ∧ t'.pc = s'.pc)

def Movable (other : UInt32 → Machine → Option Machine) (hidden : ℕ → Prop) (fn : UInt32) (n : ℕ)
    (w : UInt32) (s : Machine) : Prop :=
  if relative w then BranchesOut fn n w s else Straight other hidden fn n w s

/-- What must be known of a state passed by the function: its instruction may be moved,
and the slot below its stack pointer is free. -/
structure Sound (other : UInt32 → Machine → Option Machine) (hidden : ℕ → Prop)
    (fn trampoline : UInt32) (words : List UInt32) (s : Machine) : Prop where
  movable : ∀ i, ∀ h : i < words.length, s.pc.toNat = fn.toNat + 4 * i →
    Movable other hidden fn words.length words[i] s
  hiddenSlot : ∀ j < 8, hidden (slot s + j)
  slotApart : Store.Apart trampoline.toNat (4 * (trampolineWords fn words).length) (slot s) 8

/-- A place of the function and that of the same word in the trampoline. -/
def Corresponds (fn trampoline : UInt32) (words : List UInt32) (a b : UInt64) : Prop :=
  ∃ i ≤ words.length, a.toNat = fn.toNat + 4 * i ∧
    b.toNat = trampoline.toNat + offset fn words i

/-- Both machines have left for the same address. A call that was made from the
trampoline comes back to it. -/
structure Resumes (hidden : ℕ → Prop) (fn trampoline : UInt32) (words : List UInt32)
    (s t : Machine) : Prop where
  pc : t.pc = s.pc
  gpr : t.gpr = s.gpr
  cr : t.cr = s.cr
  memory : ∀ a, ¬ hidden a → t.memory a = s.memory a
  lr : t.lr = s.lr ∨ Corresponds fn trampoline words s.lr t.lr

/-- The two machines stand at corresponding places. -/
structure Abreast (hidden : ℕ → Prop) (fn trampoline : UInt32) (words : List UInt32)
    (s t : Machine) : Prop where
  place : Corresponds fn trampoline words s.pc t.pc
  agree : Agree hidden s t
  function : Holds s.memory fn.toNat words
  moved : Holds t.memory trampoline.toNat (trampolineWords fn words)

/-! ## One word -/

variable {other : UInt32 → Machine → Option Machine} {hidden : ℕ → Prop} {s t s' : Machine}

theorem toNat_add_of_lt {a : UInt64} {k : ℕ} (h : a.toNat + k < 0x10000000000000000) :
    (a + UInt64.ofNat k).toNat = a.toNat + k := by
  rw [UInt64.toNat_add, UInt64.toNat_ofNat']
  omega

theorem slot_congr (h : t.gpr = s.gpr) : slot t = slot s := by rw [slot, slot, h]

/-- The word of the function at its place. -/
theorem step_function (h : Holds s.memory fn.toNat words) (hi : i < words.length)
    (hpc : s.pc.toNat = fn.toNat + 4 * i) : step other s = execute other words[i] s := by
  rw [step, hpc, h i hi]

theorem length_relocatedWords (source w : UInt32) :
    1 ≤ (relocatedWords source w).length ∧ (relocatedWords source w).length ≤ 6 := by
  rw [relocatedWords]
  split <;> simp [branchFarAsmPreserve]

theorem offset_le (fn : UInt32) (words : List UInt32) (i : ℕ) :
    offset fn words i + 24 ≤ 4 * (trampolineWords fn words).length := by
  have hall : relocatedAll fn words = relocatedAll fn (words.take i) ++
      relocatedAll (fn + UInt32.ofNat (4 * (words.take i).length)) (words.drop i) := by
    rw [← relocatedAll_append, List.take_append_drop]
  have hjump : (jumpBack fn words.length).length = 6 := rfl
  rw [offset, trampolineWords, hall, List.length_append, List.length_append, hjump]
  omega

/-- Keeping a register in the slot shows only in hidden memory. -/
theorem kept_of_not_hidden (hagree : Agree hidden s t) (hslot : ∀ j < 8, hidden (slot s + j))
    {a : ℕ} (ha : ¬ hidden a) : kept t 0 a = s.memory a := by
  rw [← hagree.memory a ha]
  apply kept_outside
  rw [slot_congr hagree.gpr]
  by_contra hin
  have hback : slot s + (a - slot s) = a := by omega
  exact ha (hback ▸ hslot (a - slot s) (by omega))

theorem holds_kept {a : ℕ} (h : Holds t.memory a words)
    (hapart : Store.Apart a (4 * words.length) (slot t) 8) : Holds (kept t 0) a words := by
  apply h.congr
  intro j hj
  rw [Store.Apart] at hapart
  exact kept_outside t 0 (by omega)

/-- A relative branch leaves on both sides or goes on to the next word on both. -/
theorem relative_matched (hi : i < words.length) (hrelative : relative words[i] = true)
    (hfn : Aligned fn) (hfnbound : fn.toNat + 4 * words.length < 0x80000000)
    (hbound : trampoline.toNat + 4 * (trampolineWords fn words).length < 0x100000000)
    (hs : s.pc.toNat = fn.toNat + 4 * i) (ht : t.pc.toNat = trampoline.toNat + offset fn words i)
    (habreast : Abreast hidden fn trampoline words s t)
    (hsound : Sound other hidden fn trampoline words s) (hstep : step other s = some s') :
    ∃ n t', run (step other) n t = some t' ∧ (Abreast hidden fn trampoline words s' t' ∨
      ¬ Inside fn words.length s' ∧ Resumes hidden fn trampoline words s' t') := by
  have hout : BranchesOut fn words.length words[i] s := by
    have hmovable := hsound.movable i hi hs
    rwa [Movable, if_pos hrelative] at hmovable
  have hcode := holds_relocatedWords habreast.moved hi
  have hlength : (relocatedWords (fn + UInt32.ofNat (4 * i)) words[i]).length = 6 := by
    rw [relocatedWords, if_pos hrelative]
    rfl
  have hnext := offset_succ fn hi
  have hend := offset_le fn words i
  have hslot : slot t = slot s := slot_congr habreast.agree.gpr
  have hapart := hsound.slotApart
  have hsource : (fn + UInt32.ofNat (4 * i)).toNat = s.pc.toNat := by
    rw [UInt32.toNat_add, UInt32.toNat_ofNat', hs]
    omega
  have haligned : Aligned (fn + UInt32.ofNat (4 * i)) := by
    rw [Aligned] at hfn ⊢
    omega
  have htarget := counterTarget_branchOffset hrelative haligned (hsource ▸ hout.low)
    (hsource ▸ hout.high)
  -- The branch in the function and its jump in the trampoline.
  rw [step_function habreast.function hi hs, execute_relative other s hrelative hout.counter,
    Option.some_inj] at hstep
  rw [← ht] at hcode
  have hrun := run_relocated other t hrelative hcode (by omega) (by
    rw [hslot]
    rw [Store.Apart] at hapart ⊢
    omega)
  rw [if_pos hout.counter, htarget, habreast.agree.cr, hsource] at hrun
  have hmemory {a : ℕ} (ha : ¬ hidden a) : kept t 0 a = s.memory a :=
    kept_of_not_hidden habreast.agree hsound.hiddenSlot ha
  have hmoved : Holds (kept t 0) trampoline.toNat (trampolineWords fn words) :=
    holds_kept habreast.moved (by rwa [hslot])
  generalize kept t 0 = memory at hrun hmemory hmoved
  have hreturn : Corresponds fn trampoline words (s.pc + 4) (t.pc + 20 + 4) := by
    refine ⟨i + 1, hi, ?_, ?_⟩
    · exact (toNat_add_of_lt (a := s.pc) (k := 4) (by omega)).trans (by omega)
    · rw [UInt64.add_assoc]
      exact (toNat_add_of_lt (a := t.pc) (k := 24) (by omega)).trans (by omega)
  refine ⟨6, _, hrun, ?_⟩
  subst hstep
  cases htaken : taken words[i] s.cr with
  | true =>
      have hpc : (UInt64.ofInt (s.pc.toNat + relativeDisplacement words[i])).toNat =
          s.pc.toNat + relativeDisplacement words[i] := by
        have hlow := hout.low
        have hhigh := hout.high
        rw [UInt64.ofInt, UInt64.toNat_ofNat']
        omega
      refine .inr ⟨?_, rfl, habreast.agree.gpr, rfl, fun a ha => hmemory ha, ?_⟩
      · have houtside := hout.outside
        simp only [Inside, Machine.branch, Machine.branchAddress, if_true, Bool.false_eq_true,
          if_false]
        omega
      · simp only [Machine.branch]
        cases link words[i] with
        | true => exact .inr hreturn
        | false => exact .inl habreast.agree.lr
  | false =>
      have hlink : link words[i] = false := by
        cases hcall : link words[i] with
        | true => exact absurd (hout.call hcall) (by rw [htaken]; decide)
        | false => rfl
      refine .inl ⟨hreturn, ⟨habreast.agree.gpr, ?_, rfl, fun a ha => hmemory ha⟩,
        habreast.function, hmoved⟩
      simp only [Machine.branch, hlink, Bool.false_eq_true, if_false]
      exact habreast.agree.lr

/-- Any other instruction is the same word at both places. -/
theorem straight_matched (hi : i < words.length) (hrelative : relative words[i] = false)
    (hfnbound : fn.toNat + 4 * words.length < 0x80000000)
    (hbound : trampoline.toNat + 4 * (trampolineWords fn words).length < 0x100000000)
    (hfunction : ∀ j < 4 * words.length, hidden (fn.toNat + j))
    (hmoved : ∀ j < 4 * (trampolineWords fn words).length, hidden (trampoline.toNat + j))
    (hs : s.pc.toNat = fn.toNat + 4 * i) (ht : t.pc.toNat = trampoline.toNat + offset fn words i)
    (habreast : Abreast hidden fn trampoline words s t)
    (hsound : Sound other hidden fn trampoline words s) (hstep : step other s = some s') :
    ∃ n t', run (step other) n t = some t' ∧ (Abreast hidden fn trampoline words s' t' ∨
      ¬ Inside fn words.length s' ∧ Resumes hidden fn trampoline words s' t') := by
  have hstraight : Straight other hidden fn words.length words[i] s := by
    have hmovable := hsound.movable i hi hs
    rwa [Movable, if_neg (by simp [hrelative])] at hmovable
  have hwords : relocatedWords (fn + UInt32.ofNat (4 * i)) words[i] = [words[i]] := by
    rw [relocatedWords, if_neg (by simp [hrelative])]
  have hcode := holds_relocatedWords habreast.moved hi
  have hnext := offset_succ fn hi
  have hend := offset_le fn words i
  rw [hwords] at hcode hnext
  rw [← ht] at hcode
  rw [step_function habreast.function hi hs] at hstep
  rcases hstraight t s' habreast.agree hstep with ⟨t', hexecute, hagree, hkeeps, hplace⟩
  refine ⟨1, t', by rw [run_one hcode, hexecute], ?_⟩
  rcases hplace with ⟨hpc, hpc'⟩ | ⟨houtside, hpc⟩
  · refine .inl ⟨⟨i + 1, hi, ?_, ?_⟩, hagree, ?_, ?_⟩
    · rw [hpc]
      exact (toNat_add_of_lt (a := s.pc) (k := 4) (by omega)).trans (by omega)
    · rw [hpc']
      have hone : [words[i]].length = 1 := rfl
      exact (toNat_add_of_lt (a := t.pc) (k := 4) (by omega)).trans (by omega)
    · exact habreast.function.congr fun j hj => (hkeeps _ (hfunction j hj)).1
    · exact habreast.moved.congr fun j hj => (hkeeps _ (hmoved j hj)).2
  · exact .inr ⟨houtside, hpc, hagree.gpr, hagree.cr, hagree.memory, .inl hagree.lr⟩

/-! ## Instructions that may be moved -/

section Straight

variable {n : ℕ} {w : UInt32} {rD rA rS : Fin 32}

theorem straight_addis {simm : ℤ} (h : decode w = .addis rD rA simm) (s : Machine) :
    Straight other hidden fn n w s := by
  intro t s' hagree hstep
  rw [execute, h, Option.some_inj] at hstep
  subst hstep
  rw [execute, h]
  refine ⟨_, rfl, ⟨?_, hagree.lr, hagree.cr, hagree.memory⟩, fun _ _ => ⟨rfl, rfl⟩,
    .inl ⟨rfl, rfl⟩⟩
  simp only [Machine.next, Machine.set, Machine.base, hagree.gpr]

theorem straight_ori {uimm : ℕ} (h : decode w = .ori rS rA uimm) (s : Machine) :
    Straight other hidden fn n w s := by
  intro t s' hagree hstep
  rw [execute, h, Option.some_inj] at hstep
  subst hstep
  rw [execute, h]
  refine ⟨_, rfl, ⟨?_, hagree.lr, hagree.cr, hagree.memory⟩, fun _ _ => ⟨rfl, rfl⟩,
    .inl ⟨rfl, rfl⟩⟩
  simp only [Machine.next, Machine.set, hagree.gpr]

/-- A store whose bytes are not hidden. -/
theorem straight_std {ds : ℤ} (h : decode w = .std rS rA ds) (s : Machine)
    (hplace : ∀ i < 8, ¬ hidden (s.address rA ds + i)) : Straight other hidden fn n w s := by
  intro t s' hagree hstep
  have haddress : t.address rA ds = s.address rA ds := by
    simp only [Machine.address, Machine.base, hagree.gpr]
  rw [execute, h, Option.some_inj] at hstep
  subst hstep
  simp only [execute, h, haddress, hagree.gpr]
  generalize hcells : ByteOrder.big.encode 8 (s.gpr rS).toNat = cells
  have hlength : cells.length = 8 := by rw [← hcells, ByteOrder.length_encode]
  refine ⟨_, rfl, ⟨rfl, hagree.lr, hagree.cr, fun a ha => ?_⟩, fun a ha => ?_,
    .inl ⟨rfl, rfl⟩⟩
  · simp only [Machine.next, Store.write, hagree.memory a ha]
  · have hout : a < s.address rA ds ∨ s.address rA ds + cells.length ≤ a := by
      by_contra hin
      have hback : s.address rA ds + (a - s.address rA ds) = a := by omega
      exact hplace (a - s.address rA ds) (by omega) (by rwa [hback])
    exact ⟨Store.write_outside _ _ hout, Store.write_outside _ _ hout⟩

/-- A load whose bytes are not hidden. -/
theorem straight_ld {ds : ℤ} (h : decode w = .ld rD rA ds) (s : Machine)
    (hplace : ∀ i < 8, ¬ hidden (s.address rA ds + i)) : Straight other hidden fn n w s := by
  intro t s' hagree hstep
  have haddress : t.address rA ds = s.address rA ds := by
    simp only [Machine.address, Machine.base, hagree.gpr]
  have hread : Store.read t.memory (s.address rA ds) 8 = Store.read s.memory (s.address rA ds) 8 :=
    Store.read_congr fun i hi => hagree.memory _ (hplace i hi)
  rw [execute, h, Option.some_inj] at hstep
  subst hstep
  simp only [execute, h, haddress, hread]
  refine ⟨_, rfl, ⟨?_, hagree.lr, hagree.cr, hagree.memory⟩, fun _ _ => ⟨rfl, rfl⟩,
    .inl ⟨rfl, rfl⟩⟩
  simp only [Machine.next, Machine.set, hagree.gpr]

/-- An instruction of these four. What it reads or writes in memory is not hidden. -/
def Plain (hidden : ℕ → Prop) (w : UInt32) (s : Machine) : Prop :=
  match decode w with
  | .addis _ _ _ => True
  | .ori _ _ _ => True
  | .std _ rA ds => ∀ i < 8, ¬ hidden (s.address rA ds + i)
  | .ld _ rA ds => ∀ i < 8, ¬ hidden (s.address rA ds + i)
  | _ => False

theorem Plain.movable {s : Machine} (h : Plain hidden w s) (hrelative : relative w = false) :
    Movable other hidden fn n w s := by
  rw [Movable, if_neg (by simp [hrelative])]
  rw [Plain] at h
  cases hdecode : decode w with
  | addis rD rA simm => exact straight_addis hdecode s
  | ori rS rA uimm => exact straight_ori hdecode s
  | std rS rA ds =>
      rw [hdecode] at h
      exact straight_std hdecode s h
  | ld rD rA ds =>
      rw [hdecode] at h
      exact straight_ld hdecode s h
  | mtctr | b | bc | bcctr | other =>
      rw [hdecode] at h
      exact h.elim

end Straight

/-! ## The whole trampoline -/

/-- The jump back takes the machine behind the words overwritten. -/
theorem jumpBack_resumes (hfn : Aligned fn) (hfnbound : fn.toNat + 4 * words.length < 0x80000000)
    (hbound : trampoline.toNat + 4 * (trampolineWords fn words).length < 0x100000000)
    (hs : s.pc.toNat = fn.toNat + 4 * words.length)
    (ht : t.pc.toNat = trampoline.toNat + offset fn words words.length)
    (habreast : Abreast hidden fn trampoline words s t)
    (hsound : Sound other hidden fn trampoline words s) :
    ∃ t', run (step other) 6 t = some t' ∧ Resumes hidden fn trampoline words s t' := by
  have hend := offset_le fn words words.length
  have hslot : slot t = slot s := slot_congr habreast.agree.gpr
  have hapart := hsound.slotApart
  have hcode := holds_jumpBack habreast.moved
  have hback : (fn + UInt32.ofNat (4 * words.length)).toNat = s.pc.toNat := by
    rw [UInt32.toNat_add, UInt32.toNat_ofNat', hs]
    omega
  rw [← ht, jumpBack] at hcode
  have hrun := run_branchFarAsmPreserve other (i := 0) rfl (by decide) (by decide) (by decide)
    hcode (by omega) (by
      rw [hslot]
      rw [Store.Apart] at hapart ⊢
      omega)
  have hmemory {a : ℕ} (ha : ¬ hidden a) : kept t 0 a = s.memory a :=
    kept_of_not_hidden habreast.agree hsound.hiddenSlot ha
  generalize kept t 0 = memory at hrun hmemory
  have harrives : counterTarget (fn + UInt32.ofNat (4 * words.length)) = s.pc := by
    rw [Aligned] at hfn
    rw [counterTarget, (branch_loaded_iff _).mpr ⟨by rw [Aligned]; omega, by omega⟩,
      ← UInt64.toNat_inj, UInt32.toNat_toUInt64, hback]
  rw [harrives] at hrun
  exact ⟨_, hrun, rfl, habreast.agree.gpr, habreast.agree.cr, fun a ha => hmemory ha,
    .inl habreast.agree.lr⟩

/-- Whatever the function does until it leaves the words overwritten, the trampoline
does from the corresponding place, and both leave for the same address. -/
theorem trampoline_resumes (hfn : Aligned fn)
    (hfnbound : fn.toNat + 4 * words.length < 0x80000000)
    (hbound : trampoline.toNat + 4 * (trampolineWords fn words).length < 0x100000000)
    (hfunction : ∀ j < 4 * words.length, hidden (fn.toNat + j))
    (hmoved : ∀ j < 4 * (trampolineWords fn words).length, hidden (trampoline.toNat + j))
    (habreast : Abreast hidden fn trampoline words s t)
    (hsound : ∀ u, Passes (step other) (Inside fn words.length) s u →
      Sound other hidden fn trampoline words u)
    (hleaves : Leaves (step other) (Inside fn words.length) s s') :
    ∃ n t', run (step other) n t = some t' ∧ Resumes hidden fn trampoline words s' t' := by
  have hmatched : ∀ u v mid, (Abreast hidden fn trampoline words u v ∨
      ¬ Inside fn words.length u ∧ Resumes hidden fn trampoline words u v) →
      Sound other hidden fn trampoline words u → Inside fn words.length u →
      step other u = some mid → ∃ n v', run (step other) n v = some v' ∧
        (Abreast hidden fn trampoline words mid v' ∨
          ¬ Inside fn words.length mid ∧ Resumes hidden fn trampoline words mid v') := by
    intro u v mid hrel hP hinside hstep
    obtain hside | ⟨houtside, _⟩ := hrel
    · rcases hside.place with ⟨i, hle, hu, hv⟩
      have hi : i < words.length := by
        rw [Inside] at hinside
        omega
      cases hrelative : relative words[i] with
      | true => exact relative_matched hi hrelative hfn hfnbound hbound hu hv hside hP hstep
      | false =>
          exact straight_matched hi hrelative hfnbound hbound hfunction hmoved hu hv hside hP hstep
    · exact absurd hinside houtside
  rcases hleaves.simulated hmatched hsound (.inl habreast) with ⟨houtside, hP, n, v, hrun, hlast⟩
  obtain hside | ⟨_, hresumes⟩ := hlast
  · rcases hside.place with ⟨i, hle, hu, hv⟩
    -- The machine is outside and at a word, so it is behind the last one.
    obtain rfl : i = words.length := by
      rw [Inside] at houtside
      omega
    rcases jumpBack_resumes hfn hfnbound hbound hu hv hside hP with ⟨t', hrun', hresumes⟩
    exact ⟨n + 6, t', run_trans hrun hrun', hresumes⟩
  · exact ⟨n, v, hrun, hresumes⟩

end GamePatch.Hooking
