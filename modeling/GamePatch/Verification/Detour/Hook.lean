import GamePatch.Verification.Detour.Trampoline

/-! # What a hook writes

`Hook` writes the trampoline behind those written before and a jump over the first
four words of the function. The bytes it keeps are those that the jump replaces. -/

namespace GamePatch.Hooking

open Words Branch PowerPC Simulation PatchCall

/-- The first `n` words of a function. -/
def functionWords (memory : ℕ → UInt8) (fn : UInt32) (n : ℕ) : List UInt32 :=
  (List.range n).map fun i => wordAt memory (fn.toNat + 4 * i)

@[simp] theorem length_functionWords (memory : ℕ → UInt8) (fn : UInt32) (n : ℕ) :
    (functionWords memory fn n).length = n := by
  simp [functionWords]

theorem functionWords_succ (memory : ℕ → UInt8) (fn : UInt32) (n : ℕ) :
    functionWords memory fn (n + 1) =
      functionWords memory fn n ++ [wordAt memory (fn.toNat + 4 * n)] := by
  rw [functionWords, List.range_succ, List.map_append, functionWords]
  rfl

theorem holds_functionWords (memory : ℕ → UInt8) (fn : UInt32) (n : ℕ) :
    Holds memory fn.toNat (functionWords memory fn n) := by
  intro i hi
  simp [functionWords]

theorem functionWords_of_holds {memory : ℕ → UInt8} {fn : UInt32} {words : List UInt32}
    (h : Holds memory fn.toNat words) : functionWords memory fn words.length = words := by
  apply List.ext_getElem (length_functionWords _ _ _)
  intro i hi hi'
  rw [← h i hi']
  simp [functionWords]

/-- The jump over the function. -/
def jumpWords (target : UInt32) : List UInt32 := branchFarAsm target false branchOptionsAlways 0 0

@[simp] theorem length_jumpWords (target : UInt32) : (jumpWords target).length = 4 := rfl

/-- The trampoline fits behind `s_TrampolineSize` and does not overlap the function. -/
structure Fits (buffer fn : UInt32) (e : Engine) : Prop where
  space : buffer.toNat + e.trampolineSize + 120 < 0x100000000
  function : fn.toNat + 16 < 0x100000000
  apart : Store.Apart fn.toNat 16 (buffer.toNat + e.trampolineSize) 120

/-- A process in which nothing has been hooked. -/
def unhooked (memory : ℕ → UInt8) : Engine := ⟨⟨memory, [], 1, none⟩, 0⟩

theorem fits_unhooked (memory : ℕ → UInt8) : Fits 0x20000 0x10000 (unhooked memory) := by
  have hsize : (unhooked memory).trampolineSize = 0 := rfl
  refine ⟨?_, by decide, .inl ?_⟩
  · rw [hsize]
    decide
  · rw [hsize]
    decide

/-- A function that loads a number, keeps it on the stack and branches away. -/
def exampleWords : List UInt32 := [0x3c600001, 0x60630010, 0xf8610010, 0x48000100]

/-- The function, and the descriptors of two callbacks. -/
def exampleMemory : ℕ → UInt8 :=
  Store.write (Store.write (fun _ => 0) 0x8000 (bytes [0x12000, 0x55, 0x14000, 0x55])) 0x10000
    (bytes exampleWords)

theorem holds_exampleMemory : Holds exampleMemory (0x10000 : UInt32).toNat exampleWords :=
  holds_write _ 0x10000 exampleWords

theorem readWord_exampleMemory :
    readWord (unhooked exampleMemory).process 0x8000 = 0x12000 ∧
      readWord (unhooked exampleMemory).process 0x8008 = 0x14000 := by
  decide +kernel

variable {buffer fn callback : UInt32} {e : Engine}

theorem length_relocatedAll (source : UInt32) (ws : List UInt32) :
    ws.length ≤ (relocatedAll source ws).length ∧
      (relocatedAll source ws).length ≤ 6 * ws.length := by
  induction ws generalizing source with
  | nil => exact ⟨Nat.le_refl 0, Nat.le_refl 0⟩
  | cons w ws ih =>
      have hword := length_relocatedWords source w
      have hrest := ih (source + 4)
      rw [relocatedAll, List.length_append, List.length_cons]
      omega

theorem readWord_eq (p : Process) (a : UInt32) : readWord p a = wordAt p.memory a.toNat := rfl

/-- The rounds of the loop write the words moved one after another. -/
theorem rounds_spec (hfits : Fits buffer fn e) {n : ℕ} (hn : n ≤ 4) :
    ((List.range n).foldl (relocateRound buffer fn) e).trampolineSize =
        e.trampolineSize +
          4 * (relocatedAll fn (functionWords e.process.memory fn n)).length ∧
      ((List.range n).foldl (relocateRound buffer fn) e).process.memory =
        Store.write e.process.memory (buffer.toNat + e.trampolineSize)
          (bytes (relocatedAll fn (functionWords e.process.memory fn n))) := by
  induction n with
  | zero =>
      refine ⟨rfl, ?_⟩
      funext a
      exact (Store.write_outside _ _ (by simp [functionWords, relocatedAll, bytes]; omega)).symm
  | succ n ih =>
      rcases ih (by omega) with ⟨hsize, hmemory⟩
      have hlength := (length_relocatedAll fn (functionWords e.process.memory fn n)).2
      rw [length_functionWords] at hlength
      have hbuffer := hfits.space
      have hfunction := hfits.function
      rw [List.range_succ, List.foldl_append, List.foldl_cons, List.foldl_nil]
      generalize (List.range n).foldl (relocateRound buffer fn) e = e' at hsize hmemory ⊢
      have hplace : (fn + UInt32.ofNat (4 * n)).toNat = fn.toNat + 4 * n := by
        rw [UInt32.toNat_add, UInt32.toNat_ofNat']
        omega
      have hdestination : (buffer + UInt32.ofNat e'.trampolineSize).toNat =
          buffer.toNat + e'.trampolineSize := by
        rw [UInt32.toNat_add, UInt32.toNat_ofNat', hsize]
        omega
      -- The function lies outside the trampoline, so the word is still the one it had.
      have hword : readWord e'.process (fn + UInt32.ofNat (4 * n)) =
          wordAt e.process.memory (fn.toNat + 4 * n) := by
        rw [readWord_eq, hplace, hmemory]
        apply wordAt_congr
        intro j hj
        have hapart := hfits.apart
        rw [Store.Apart] at hapart
        exact Store.write_outside _ _ (by rw [length_bytes]; omega)
      rw [relocateRound, relocateCode_eq, hword, functionWords_succ, relocatedAll_append,
        length_functionWords, relocatedAll, relocatedAll, List.append_nil]
      refine ⟨?_, ?_⟩
      · simp only [hsize, List.length_append]
        omega
      · rw [bytes_append, Store.write_append, ← hmemory, length_bytes, writeWords, hdestination,
          hsize, Nat.add_assoc]
        rfl

/-- The words of the trampoline for the function as it stands in memory. -/
def trampolineOf (memory : ℕ → UInt8) (fn : UInt32) : List UInt32 :=
  trampolineWords fn (functionWords memory fn 4)

theorem length_trampolineOf (memory : ℕ → UInt8) (fn : UInt32) :
    10 ≤ (trampolineOf memory fn).length ∧ (trampolineOf memory fn).length ≤ 30 := by
  have hall := length_relocatedAll fn (functionWords memory fn 4)
  have hback : (jumpBack fn (functionWords memory fn 4).length).length = 6 := rfl
  rw [length_functionWords] at hall
  rw [trampolineOf, trampolineWords, List.length_append, hback]
  omega

theorem getHookSize_eq (target : UInt32) (linked : Bool) (p : Process) :
    getHookSize target linked false p = 16 := rfl

/-- `Hook` with the size of its jump known. -/
theorem hook_eq (buffer fn callback toc : UInt32) (d : Detour) (e : Engine) :
    hook buffer fn callback toc d e =
      let target := readWord e.process callback
      let rounds := (List.range 4).foldl (relocateRound buffer fn) e
      let moved := writeWords rounds.process (buffer + UInt32.ofNat rounds.trampolineSize)
        (jumpBack fn 4)
      let process := writeWords moved fn (jumpWords target)
      let trampolineAddress := buffer + UInt32.ofNat e.trampolineSize
      ({ hookTarget := target
         hookAddress := fn
         trampolineAddress
         trampolineOpd := ⟨trampolineAddress, if toc ≠ 0 then toc else getCurrentToc process⟩
         originalInstructions :=
           Store.read e.process.memory fn.toNat 16 ++ d.originalInstructions.drop 16
         originalLength := 16 },
        ⟨process, rounds.trampolineSize + 24⟩) := by
  have hfour : 16 / 4 = 4 := rfl
  rw [hook]
  simp only [getHookSize_eq, hfour]
  rfl

/-- What `Hook` does to the detour, to the memory and to `s_TrampolineSize`. -/
structure Installed (buffer fn callback : UInt32) (e : Engine) (d' : Detour) (e' : Engine) :
    Prop where
  target : d'.hookTarget = readWord e.process callback
  address : d'.hookAddress = fn
  trampoline : d'.trampolineAddress.toNat = buffer.toNat + e.trampolineSize
  opd : d'.trampolineOpd.addr = d'.trampolineAddress
  length : d'.originalLength = 16
  original : d'.originalInstructions.take 16 = Store.read e.process.memory fn.toNat 16
  size : e'.trampolineSize = e.trampolineSize + 4 * (trampolineOf e.process.memory fn).length
  memory : e'.process.memory =
    Store.write (Store.write e.process.memory (buffer.toNat + e.trampolineSize)
      (bytes (trampolineOf e.process.memory fn))) fn.toNat (bytes (jumpWords d'.hookTarget))

theorem hook_installed (callback toc : UInt32) (d : Detour) (hfits : Fits buffer fn e) :
    Installed buffer fn callback e (hook buffer fn callback toc d e).1
      (hook buffer fn callback toc d e).2 := by
  have hspace := hfits.space
  have hlength := (length_relocatedAll fn (functionWords e.process.memory fn 4)).2
  rw [length_functionWords] at hlength
  obtain ⟨hsize, hmemory⟩ := rounds_spec hfits (n := 4) le_rfl
  have hbehind : (buffer + UInt32.ofNat
      ((List.range 4).foldl (relocateRound buffer fn) e).trampolineSize).toNat =
        buffer.toNat + e.trampolineSize +
          4 * (relocatedAll fn (functionWords e.process.memory fn 4)).length := by
    rw [UInt32.toNat_add, UInt32.toNat_ofNat', hsize]
    omega
  have hfirst : (buffer + UInt32.ofNat e.trampolineSize).toNat =
      buffer.toNat + e.trampolineSize := by
    rw [UInt32.toNat_add, UInt32.toNat_ofNat']
    omega
  have hback : jumpBack fn (functionWords e.process.memory fn 4).length = jumpBack fn 4 := by
    rw [length_functionWords]
  rw [hook_eq]
  refine ⟨rfl, rfl, hfirst, rfl, rfl, List.take_left' (Store.length_read _ _ _), ?_, ?_⟩
  · rw [trampolineOf, trampolineWords, List.length_append, hback]
    simp only [hsize, show (jumpBack fn 4).length = 6 from rfl]
    omega
  · rw [trampolineOf, trampolineWords, hback, bytes_append, Store.write_append, length_bytes,
      ← hmemory, ← hbehind]
    rfl

/-! ## Running what was written -/

variable {d' : Detour} {e' : Engine} {other : UInt32 → Machine → Option Machine}

/-- The function starts with the jump, and the trampoline is complete. -/
theorem Installed.holds (h : Installed buffer fn callback e d' e') (hfits : Fits buffer fn e) :
    Holds e'.process.memory fn.toNat (jumpWords d'.hookTarget) ∧
      Holds e'.process.memory d'.trampolineAddress.toNat (trampolineOf e.process.memory fn) := by
  have hlength := length_trampolineOf e.process.memory fn
  have hapart := hfits.apart
  have hmoved := holds_write e.process.memory (buffer.toNat + e.trampolineSize)
    (trampolineOf e.process.memory fn)
  rw [h.memory, h.trampoline]
  refine ⟨holds_write _ _ _, hmoved.congr fun j hj => ?_⟩
  rw [Store.Apart] at hapart
  exact Store.write_outside _ _ (by rw [length_bytes, length_jumpWords]; omega)

/-- No other memory is written. -/
theorem Installed.frame (h : Installed buffer fn callback e d' e') {a : ℕ}
    (hfunction : a < fn.toNat ∨ fn.toNat + 16 ≤ a)
    (htrampoline : a < buffer.toNat + e.trampolineSize ∨ buffer.toNat + e'.trampolineSize ≤ a) :
    e'.process.memory a = e.process.memory a := by
  have hsize := h.size
  rw [h.memory, Store.write_outside _ _ (by rw [length_bytes, length_jumpWords]; omega),
    Store.write_outside _ _ (by rw [length_bytes]; omega)]

/-- A call of the hooked function comes to the callback with the arguments and the
return address it was made with, where the address of the callback can be loaded. -/
structure Redirected (target : UInt32) (m m' : Machine) : Prop where
  pc : m'.pc = target.toUInt64 ↔ Aligned target ∧ target.toNat < 0x80000000
  gpr : ∀ r, r ≠ 0 → m'.gpr r = m.gpr r
  lr : m'.lr = m.lr
  cr : m'.cr = m.cr
  memory : m'.memory = m.memory

/-- Where a machine goes that stands at a jump, in a function or in a trampoline. -/
theorem jump_redirects (other : UInt32 → Machine → Option Machine) (target : UInt32)
    {m : Machine} (hcode : Holds m.memory m.pc.toNat (jumpWords target))
    (hbound : m.pc.toNat + 16 < 0x10000000000000000) :
    ∃ m', run (step other) 4 m = some m' ∧ Redirected target m m' := by
  have hrun := run_branchFarAsm other (i := 0) rfl (by decide) (by decide) hcode hbound
  refine ⟨_, hrun, branch_loaded_iff _, fun r hr => ?_, rfl, rfl, rfl⟩
  exact Function.update_of_ne hr _ _

theorem hook_redirects (d : Detour) (toc : UInt32) (hfits : Fits buffer fn e) (m : Machine)
    (hpc : m.pc = fn.toUInt64)
    (hmemory : m.memory = (hook buffer fn callback toc d e).2.process.memory) :
    ∃ m', run (step other) 4 m = some m' ∧ Redirected (readWord e.process callback) m m' := by
  have hinstalled := hook_installed callback toc d hfits
  have hfunction := hfits.function
  have hcode := (hinstalled.holds hfits).1
  have hpc' : m.pc.toNat = fn.toNat := by rw [hpc, UInt32.toNat_toUInt64]
  rw [← hmemory, ← hpc', hinstalled.target] at hcode
  exact jump_redirects other _ hcode (by omega)

theorem hook_redirects_example :
    let m := before 0x10000
      (hook 0x20000 0x10000 0x8000 0 .init (unhooked exampleMemory)).2.process.memory
    ∃ m', run (step fun _ _ => none) 4 m = some m' ∧ m'.pc = 0x12000 ∧ Redirected 0x12000 m m' := by
  intro m
  rcases hook_redirects .init 0 (fits_unhooked exampleMemory) m rfl rfl with ⟨m', hrun, hcalled⟩
  rw [readWord_exampleMemory.1] at hcalled
  exact ⟨m', hrun, hcalled.pc.mpr ⟨by decide, by decide⟩, hcalled⟩

/-- The trampoline stands for the function as it was before the hook. -/
theorem hook_trampoline_resumes (d : Detour) (toc : UInt32) (hfits : Fits buffer fn e)
    (hfn : Aligned fn) (hfnbound : fn.toNat + 16 < 0x80000000) {hidden : ℕ → Prop}
    (hfunction : ∀ j < 16, hidden (fn.toNat + j))
    (hmoved : ∀ j < 4 * (trampolineOf e.process.memory fn).length,
      hidden (buffer.toNat + e.trampolineSize + j))
    {s t s' : Machine} (hs : s.pc = fn.toUInt64) (hsmemory : s.memory = e.process.memory)
    (ht : t.pc = (hook buffer fn callback toc d e).1.trampolineOpd.addr.toUInt64)
    (htmemory : t.memory = (hook buffer fn callback toc d e).2.process.memory)
    (hgpr : t.gpr = s.gpr) (hlr : t.lr = s.lr) (hcr : t.cr = s.cr)
    (hsound : ∀ u, Passes (step other) (Inside fn 4) s u → Sound other hidden fn
      (hook buffer fn callback toc d e).1.trampolineOpd.addr (functionWords s.memory fn 4) u)
    (hleaves : Leaves (step other) (Inside fn 4) s s') :
    ∃ n t', run (step other) n t = some t' ∧
      Resumes hidden fn (hook buffer fn callback toc d e).1.trampolineOpd.addr
        (functionWords s.memory fn 4) s' t' := by
  have hinstalled := hook_installed callback toc d hfits
  generalize hook buffer fn callback toc d e = after at *
  rcases after with ⟨d', e'⟩
  have hspace := hfits.space
  have hlength := length_trampolineOf e.process.memory fn
  have hwords := length_functionWords s.memory fn 4
  have haddress : d'.trampolineOpd.addr.toNat = buffer.toNat + e.trampolineSize := by
    rw [hinstalled.opd, hinstalled.trampoline]
  have htrampoline : trampolineWords fn (functionWords s.memory fn 4) =
      trampolineOf e.process.memory fn := by
    rw [hsmemory, trampolineOf]
  have habreast :
      Abreast hidden fn d'.trampolineOpd.addr (functionWords s.memory fn 4) s t := by
    refine ⟨⟨0, Nat.zero_le _, ?_, ?_⟩, ⟨hgpr, hlr, hcr, fun a ha => ?_⟩, ?_, ?_⟩
    · rw [hs, UInt32.toNat_toUInt64]
      rfl
    · rw [ht, UInt32.toNat_toUInt64]
      rfl
    · rw [htmemory, hsmemory]
      apply hinstalled.frame
      · by_contra hin
        have hback : fn.toNat + (a - fn.toNat) = a := by omega
        exact ha (hback ▸ hfunction (a - fn.toNat) (by omega))
      · have hsize := hinstalled.size
        by_contra hin
        obtain ⟨j, rfl⟩ := Nat.exists_eq_add_of_le
          (show buffer.toNat + e.trampolineSize ≤ a by omega)
        exact ha (hmoved j (by omega))
    · exact holds_functionWords s.memory fn 4
    · rw [htmemory, htrampoline, hinstalled.opd]
      exact (hinstalled.holds hfits).2
  apply trampoline_resumes hfn
  · rwa [hwords]
  · rw [htrampoline, haddress]
    omega
  · rwa [hwords]
  · rwa [htrampoline, haddress]
  · exact habreast
  · rwa [hwords]
  · rwa [hwords]

/-! ## A function of four instructions -/

/-- No instruction but those that a hook writes itself. -/
def noOther : UInt32 → Machine → Option Machine := fun _ _ => none

/-- The function, the buffer and the slot below the stack pointer. -/
def exampleHidden (a : ℕ) : Prop :=
  (0x10000 ≤ a ∧ a < 0x10010) ∨ (0x20000 ≤ a ∧ a < 0x20078) ∨ (0x2fd0 ≤ a ∧ a < 0x2fd8)

def example₀ : Machine := before 0x10000 exampleMemory

def example₁ : Machine := (example₀.set ⟨3, by decide⟩ 0x10000).next

def example₂ : Machine := (example₁.set ⟨3, by decide⟩ 0x10010).next

def example₃ : Machine :=
  { example₂ with
    memory := Store.write exampleMemory 0x3010 (ByteOrder.big.encode 8 0x10010) }.next

def example₄ : Machine := example₃.branch true 0x1010c false

theorem step_example₀ : step noOther example₀ = some example₁ := by
  have hvalue : example₀.base 0 + UInt64.ofInt (1 * 65536) = 0x10000 := by decide
  rw [step_function (i := 0) holds_exampleMemory (by decide) rfl]
  change execute noOther 0x3c600001 example₀ = _
  rw [execute, show decode 0x3c600001 = .addis 3 0 1 by decide]
  simp only [hvalue, example₁]
  rfl

theorem step_example₁ : step noOther example₁ = some example₂ := by
  have hvalue : example₁.gpr 3 ||| UInt64.ofNat 0x10 = 0x10010 := by decide
  rw [step_function (i := 1) holds_exampleMemory (by decide) rfl]
  change execute noOther 0x60630010 example₁ = _
  rw [execute, show decode 0x60630010 = .ori 3 3 0x10 by decide]
  simp only [hvalue, example₂]
  rfl

theorem address_example₂ : example₂.address 1 0x10 = 0x3010 := by decide

theorem step_example₂ : step noOther example₂ = some example₃ := by
  have hvalue : (example₂.gpr 3).toNat = 0x10010 := by decide
  rw [step_function (i := 2) holds_exampleMemory (by decide) rfl]
  change execute noOther 0xf8610010 example₂ = _
  rw [execute, show decode 0xf8610010 = .std 3 1 0x10 by decide]
  simp only [hvalue, address_example₂, example₃]
  rfl

theorem holds_example₃ : Holds example₃.memory (0x10000 : UInt32).toNat exampleWords := by
  apply holds_exampleMemory.congr
  intro j _
  have hat : (0x10000 : UInt32).toNat = 0x10000 := by decide
  exact Store.write_outside _ _ (by rw [ByteOrder.length_encode, hat]; omega)

theorem step_example₃ : step noOther example₃ = some example₄ := by
  have htarget : example₃.branchAddress 0x100 false = 0x1010c := by decide
  rw [step_function (i := 3) holds_example₃ (by decide) rfl]
  change execute noOther 0x48000100 example₃ = _
  rw [execute, show decode 0x48000100 = .b 0x100 false false by decide]
  simp only [htarget, example₄]

theorem inside_example : (Inside 0x10000 4 example₀ ∧ Inside 0x10000 4 example₁ ∧
    Inside 0x10000 4 example₂ ∧ Inside 0x10000 4 example₃) ∧ ¬ Inside 0x10000 4 example₄ := by
  refine ⟨⟨?_, ?_, ?_, ?_⟩, ?_⟩ <;> rw [Inside] <;> decide

theorem leaves_example : Leaves (step noOther) (Inside 0x10000 4) example₀ example₄ := by
  obtain ⟨⟨h₀, h₁, h₂, h₃⟩, hout⟩ := inside_example
  exact .step h₀ step_example₀ (.step h₁ step_example₁ (.step h₂ step_example₂
    (.step h₃ step_example₃ (.out hout))))

/-- A state of the run at the word `k`, or behind the words. -/
theorem sound_example {u : Machine} {k : ℕ} (hgpr : u.gpr 1 = 0x3000)
    (hpc : u.pc.toNat = 0x10000 + 4 * k)
    (hmovable : ∀ h : k < exampleWords.length,
      Movable noOther exampleHidden 0x10000 4 exampleWords[k] u) :
    Sound noOther exampleHidden 0x10000 0x20000 exampleWords u := by
  have hslot : slot u = 0x2fd0 := by
    rw [slot_eq, hgpr]
    decide
  refine ⟨fun i hi hi' => ?_, fun j hj => ?_, .inr ?_⟩
  · have hat : (0x10000 : UInt32).toNat = 0x10000 := by decide
    obtain rfl : i = k := by omega
    exact hmovable hi
  · rw [hslot, exampleHidden]
    omega
  · rw [hslot]
    decide

theorem sound_of_passes {u : Machine} (h : Passes (step noOther) (Inside 0x10000 4) example₀ u) :
    Sound noOther exampleHidden 0x10000 0x20000 exampleWords u := by
  obtain ⟨⟨h₀, h₁, h₂, h₃⟩, hout⟩ := inside_example
  rw [passes_iff_of_step h₀ step_example₀, passes_iff_of_step h₁ step_example₁,
    passes_iff_of_step h₂ step_example₂, passes_iff_of_step h₃ step_example₃,
    passes_iff_of_out hout] at h
  rcases h with rfl | rfl | rfl | rfl | rfl
  · refine sound_example (k := 0) rfl (by decide) fun _ =>
      Plain.movable (w := 0x3c600001) ?_ (by decide)
    rw [Plain, show decode 0x3c600001 = .addis 3 0 1 by decide]
    trivial
  · refine sound_example (k := 1) rfl (by decide) fun _ =>
      Plain.movable (w := 0x60630010) ?_ (by decide)
    rw [Plain, show decode 0x60630010 = .ori 3 3 0x10 by decide]
    trivial
  · refine sound_example (k := 2) rfl (by decide) fun _ =>
      Plain.movable (w := 0xf8610010) ?_ (by decide)
    rw [Plain, show decode 0xf8610010 = .std 3 1 0x10 by decide]
    intro i hi
    rw [address_example₂, exampleHidden]
    omega
  · refine sound_example (k := 3) rfl (by decide) fun _ => ?_
    change Movable noOther exampleHidden 0x10000 4 0x48000100 example₃
    have hpc : example₃.pc.toNat = 0x1000c := by decide
    have hdisplacement : relativeDisplacement 0x48000100 = 0x100 := by decide
    rw [Movable, if_pos (by decide)]
    refine ⟨by decide, fun hlink => absurd hlink (by decide), ?_, ?_, .inr ?_⟩
    all_goals
      rw [hpc, hdisplacement]
      decide
  · exact sound_example (k := 0x43) rfl (by decide) fun hk => absurd hk (by decide)

theorem trampoline_example : (hook 0x20000 0x10000 0x8000 0 .init
    (unhooked exampleMemory)).1.trampolineOpd.addr = 0x20000 := by
  rw [hook_eq]
  rfl

theorem hidden_example :
    (∀ j < 16, exampleHidden ((0x10000 : UInt32).toNat + j)) ∧
      ∀ j < 4 * (trampolineOf (unhooked exampleMemory).process.memory 0x10000).length,
        exampleHidden ((0x20000 : UInt32).toNat + (unhooked exampleMemory).trampolineSize + j) := by
  have hfn : (0x10000 : UInt32).toNat = 0x10000 := by decide
  have hbuffer : (0x20000 : UInt32).toNat + (unhooked exampleMemory).trampolineSize = 0x20000 := by
    decide
  have hlength := length_trampolineOf (unhooked exampleMemory).process.memory 0x10000
  refine ⟨fun j hj => ?_, fun j hj => ?_⟩
  · rw [exampleHidden, hfn]
    omega
  · rw [exampleHidden, hbuffer]
    omega

/-- Through the trampoline the machine comes to where the function branches to, with the
number in its register and on its stack. -/
theorem hook_trampoline_resumes_example : ∃ n t',
    run (step noOther) n (before 0x20000
      (hook 0x20000 0x10000 0x8000 0 .init (unhooked exampleMemory)).2.process.memory) = some t' ∧
    t'.pc = 0x1010c ∧ t'.gpr 3 = 0x10010 ∧
    Resumes exampleHidden 0x10000 0x20000 exampleWords example₄ t' := by
  have hwords : functionWords example₀.memory 0x10000 4 = exampleWords :=
    functionWords_of_holds holds_exampleMemory
  let hooked := hook 0x20000 0x10000 0x8000 0 .init (unhooked exampleMemory)
  let t : Machine := before 0x20000 hooked.2.process.memory
  have ht : t.pc = hooked.1.trampolineOpd.addr.toUInt64 := by
    rw [show hooked.1.trampolineOpd.addr = 0x20000 from trampoline_example]
    rfl
  have hsound : ∀ u, Passes (step noOther) (Inside 0x10000 4) example₀ u → Sound noOther
      exampleHidden 0x10000 hooked.1.trampolineOpd.addr
        (functionWords example₀.memory 0x10000 4) u := by
    intro u hu
    rw [show hooked.1.trampolineOpd.addr = 0x20000 from trampoline_example, hwords]
    exact sound_of_passes hu
  have hresumes := hook_trampoline_resumes .init 0 (fits_unhooked exampleMemory) (by decide)
    (by decide) hidden_example.1 hidden_example.2 (Eq.refl example₀.pc) rfl ht (Eq.refl t.memory)
    (Eq.refl example₀.gpr) (Eq.refl example₀.lr) (Eq.refl example₀.cr) hsound leaves_example
  rw [show hooked.1.trampolineOpd.addr = 0x20000 from trampoline_example, hwords] at hresumes
  rcases hresumes with ⟨n, t', hrun, hlast⟩
  exact ⟨n, t', hrun, hlast.pc, by rw [hlast.gpr]; decide, hlast⟩

end GamePatch.Hooking
