import GamePatch.Verification.Detour.Encoding

/-! # Running a jump

Both sequences load the target into the count register and branch to it. The longer
one keeps the register it uses in a slot below the stack pointer. -/

namespace GamePatch.Hooking

open Words Branch PowerPC Simulation

variable {other : UInt32 → Machine → Option Machine} {m : Machine}

/-! ## The address loaded -/

/-- What `lis` and `ori` leave in a register: the upper half has its sign extended. -/
def loaded (target : UInt32) : UInt64 :=
  UInt64.ofInt (signed 16 (powerpcHi target).toNat * 65536) |||
    UInt64.ofNat (powerpcLo target).toNat

theorem toNat_powerpcHi (target : UInt32) : (powerpcHi target).toNat = target.toNat / 65536 := by
  have hlt := target.toNat_lt
  rw [powerpcHi, UInt32.toNat_and, UInt32.toNat_shiftRight,
    show (0xffff : UInt32).toNat = 2 ^ 16 - 1 by decide, Nat.and_two_pow_sub_one_eq_mod,
    show (16 : UInt32).toNat % 32 = 16 by decide, Nat.shiftRight_eq_div_pow]
  omega

theorem toNat_powerpcLo (target : UInt32) : (powerpcLo target).toNat = target.toNat % 65536 := by
  rw [powerpcLo, UInt32.toNat_and, show (0xffff : UInt32).toNat = 2 ^ 16 - 1 by decide,
    Nat.and_two_pow_sub_one_eq_mod]

theorem toNat_loaded (target : UInt32) : (loaded target).toNat =
    if target.toNat < 0x80000000 then target.toNat else target.toNat + 0xffffffff00000000 := by
  have hlt := target.toNat_lt
  have hhigh : (UInt64.ofInt (signed 16 (powerpcHi target).toNat * 65536)).toNat =
      2 ^ 16 * (if target.toNat < 0x80000000 then target.toNat / 65536
        else target.toNat / 65536 + 0xffffffff0000) := by
    rw [UInt64.ofInt, UInt64.toNat_ofNat', signed, toNat_powerpcHi]
    split <;> split <;> omega
  have hlow : (UInt64.ofNat (powerpcLo target).toNat).toNat = target.toNat % 65536 := by
    rw [UInt64.toNat_ofNat', toNat_powerpcLo]
    omega
  rw [loaded, UInt64.toNat_or, hhigh, hlow,
    ← Nat.two_pow_add_eq_or_of_lt (Nat.mod_lt _ (by decide))]
  split <;> omega

/-- A jump arrives exactly at the aligned addresses of the lower half. -/
theorem branch_loaded_iff (target : UInt32) :
    UInt64.ofNat ((loaded target).toNat / 4 * 4) = target.toUInt64 ↔
      Aligned target ∧ target.toNat < 0x80000000 := by
  have hlt := target.toNat_lt
  rw [← UInt64.toNat_inj, UInt64.toNat_ofNat', UInt32.toNat_toUInt64, toNat_loaded, Aligned]
  split <;> omega

/-! ## One step of a sequence -/

/-- The rest of the code stands behind the instruction that was executed. -/
theorem run_instruction {w : UInt32} {rest : List UInt32} {m' : Machine} {n : ℕ}
    (hcode : Holds m.memory m.pc.toNat (w :: rest))
    (hbound : m.pc.toNat + 4 < 0x10000000000000000) (h : execute other w m = some m')
    (hpc : m'.pc = m.pc + 4)
    (hrest : Holds m.memory (m.pc.toNat + 4) rest → Holds m'.memory (m.pc.toNat + 4) rest) :
    run (step other) (n + 1) m = run (step other) n m' ∧ Holds m'.memory m'.pc.toNat rest := by
  have hnext : m'.pc.toNat = m.pc.toNat + 4 := by
    rw [hpc, UInt64.toNat_add, show (4 : UInt64).toNat = 4 by decide]
    omega
  rw [hnext]
  exact ⟨run_cons hcode h, hrest hcode.tail⟩

/-- The state once the target stands in register `i` and in the count register. -/
def withTarget (m : Machine) (i : Fin 32) (target : UInt32) : Machine :=
  { m with
    pc := m.pc + 12
    gpr := Function.update m.gpr i (loaded target)
    ctr := loaded target }

@[simp] theorem withTarget_ctr (m : Machine) (i : Fin 32) (target : UInt32) :
    (withTarget m i target).ctr = loaded target := rfl

@[simp] theorem withTarget_cr (m : Machine) (i : Fin 32) (target : UInt32) :
    (withTarget m i target).cr = m.cr := rfl

/-- The instructions that both sequences share. -/
def loadWords (target : UInt32) (r : UInt8) : List UInt32 :=
  [powerpcLis r.toUInt32 (powerpcHi target),
    powerpcOri r.toUInt32 r.toUInt32 (powerpcLo target), powerpcMtctr r.toUInt32]

variable {i : Fin 32} {r : UInt8} {target : UInt32}

theorem run_loadWords {rest : List UInt32} {n : ℕ} (hr : r.toUInt32.toNat = i)
    (hcode : Holds m.memory m.pc.toNat (loadWords target r ++ rest))
    (hbound : m.pc.toNat + 12 < 0x10000000000000000) :
    run (step other) (n + 3) m = run (step other) n (withTarget m i target) ∧
      Holds (withTarget m i target).memory (withTarget m i target).pc.toNat rest := by
  have hlt := target.toNat_lt
  have hhi := toNat_powerpcHi target
  have hlo := toNat_powerpcLo target
  -- The upper half, the lower half, the count register.
  let m₁ : Machine := (m.set i (UInt64.ofInt (signed 16 (powerpcHi target).toNat * 65536))).next
  let m₂ : Machine := (m₁.set i (m₁.gpr i ||| UInt64.ofNat (powerpcLo target).toNat)).next
  let m₃ : Machine := { m₂ with ctr := m₂.gpr i }.next
  have hlis : execute other (powerpcLis r.toUInt32 (powerpcHi target)) m = some m₁ := by
    rw [execute, powerpcLis, decode_powerpcAddis hr (j := 0) rfl (by omega)]
    simp only [Machine.base, if_true, UInt64.zero_add]
    rfl
  have hori : execute other (powerpcOri r.toUInt32 r.toUInt32 (powerpcLo target)) m₁ =
      some m₂ := by
    rw [execute, decode_powerpcOri hr hr (by omega)]
  have hmtctr : execute other (powerpcMtctr r.toUInt32) m₂ = some m₃ := by
    rw [execute, decode_powerpcMtctr hr]
  have hlast : m₃ = withTarget m i target := by
    have hgpr : m₂.gpr = Function.update m.gpr i (loaded target) := by
      simp only [m₂, m₁, Machine.set, Machine.next, Function.update_self, Function.update_idem,
        loaded]
    have hctr : m₂.gpr i = loaded target := by rw [hgpr, Function.update_self]
    have hpc : m₂.pc + 4 = m.pc + 12 := by
      simp [m₂, m₁, Machine.set, Machine.next, UInt64.add_assoc]
    simp only [m₃, Machine.next, withTarget, hctr, hpc, hgpr]
    rfl
  have hpc : m₁.pc.toNat = m.pc.toNat + 4 := by
    rw [show m₁.pc = m.pc + 4 from rfl, UInt64.toNat_add, show (4 : UInt64).toNat = 4 by decide]
    omega
  have hpc' : m₂.pc.toNat = m.pc.toNat + 8 := by
    rw [show m₂.pc = m₁.pc + 4 from rfl, UInt64.toNat_add, hpc,
      show (4 : UInt64).toNat = 4 by decide]
    omega
  obtain ⟨hrun₁, hcode₁⟩ :=
    run_instruction (n := n + 2) hcode (by omega) hlis rfl fun h => h
  obtain ⟨hrun₂, hcode₂⟩ := run_instruction (n := n + 1) hcode₁ (by omega) hori rfl fun h => h
  obtain ⟨hrun₃, hcode₃⟩ := run_instruction (n := n) hcode₂ (by omega) hmtctr rfl fun h => h
  rw [hlast] at hrun₃ hcode₃
  exact ⟨by rw [hrun₁, hrun₂, hrun₃], hcode₃⟩

/-! ## The two sequences -/

variable {bo : UInt32} {bi : UInt8} {linked : Bool}

/-- Where a branch to the count register goes. -/
def counterTarget (target : UInt32) : UInt64 := UInt64.ofNat ((loaded target).toNat / 4 * 4)

theorem execute_powerpcBcctr (other : UInt32 → Machine → Option Machine) (m : Machine)
    (linked : Bool) (hbo : bo.toNat < 32) (hbi : bi.toUInt32.toNat < 32) :
    execute other (powerpcBcctr bo bi.toUInt32 linked.toUInt32) m =
      if option bo.toNat 2 then
        some (m.branch (conditionOk bo.toNat bi.toUInt32.toNat m.cr)
          (UInt64.ofNat (m.ctr.toNat / 4 * 4)) linked)
      else none := by
  rw [execute, decode_powerpcBcctr hbo hbi]

theorem run_one {w : UInt32} (hcode : Holds m.memory m.pc.toNat [w]) :
    run (step other) 1 m = execute other w m := by
  have hword : wordAt m.memory m.pc.toNat = w := hcode 0 Nat.zero_lt_one
  rw [run, step, hword]
  cases execute other w m <;> rfl

/-- The short sequence. -/
theorem run_branchFarAsm (other : UInt32 → Machine → Option Machine) (hr : r.toUInt32.toNat = i)
    (hbo : bo.toNat < 32)
    (hbi : bi.toUInt32.toNat < 32)
    (hcode : Holds m.memory m.pc.toNat (branchFarAsm target linked bo bi r))
    (hbound : m.pc.toNat + 16 < 0x10000000000000000) :
    run (step other) 4 m =
      if option bo.toNat 2 then
        some ((withTarget m i target).branch (conditionOk bo.toNat bi.toUInt32.toNat m.cr)
          (counterTarget target) linked)
      else none := by
  obtain ⟨hrun, hrest⟩ := run_loadWords (n := 1) hr hcode (by omega)
  have hlast := execute_powerpcBcctr other (withTarget m i target) linked hbo hbi
  rw [withTarget_ctr, withTarget_cr, ← counterTarget] at hlast
  rw [hrun, run_one hrest, hlast]

/-- The address of the slot that keeps the register. -/
def slot (m : Machine) : ℕ := (m.gpr ⟨1, by decide⟩ + UInt64.ofInt (-0x30)).toNat

theorem slot_eq (m : Machine) : slot m = (m.gpr 1 + UInt64.ofInt (-0x30)).toNat := rfl

/-- The memory with the register kept in its slot. -/
def kept (m : Machine) (i : Fin 32) : ℕ → UInt8 :=
  Store.write m.memory (slot m) (ByteOrder.big.encode 8 (m.gpr i).toNat)

theorem kept_outside (m : Machine) (i : Fin 32) {a : ℕ} (h : a < slot m ∨ slot m + 8 ≤ a) :
    kept m i a = m.memory a := by
  apply Store.write_outside
  rwa [ByteOrder.length_encode]

theorem decode_kept (m : Machine) (i : Fin 32) :
    UInt64.ofNat (ByteOrder.big.decode (Store.read (kept m i) (slot m) 8)) = m.gpr i := by
  have hlt : (m.gpr i).toNat < 256 ^ 8 := (m.gpr i).toNat_lt
  have hread := Store.read_write m.memory (slot m) (ByteOrder.big.encode 8 (m.gpr i).toNat)
  rw [ByteOrder.length_encode] at hread
  rw [kept, hread, ByteOrder.decode_encode, Nat.mod_eq_of_lt hlt]
  exact UInt64.ofNat_toNat

/-- The long sequence restores the register it used. -/
theorem run_branchFarAsmPreserve (other : UInt32 → Machine → Option Machine)
    (hr : r.toUInt32.toNat = i) (hi : i ≠ 1) (hbo : bo.toNat < 32) (hbi : bi.toUInt32.toNat < 32)
    (hcode : Holds m.memory m.pc.toNat (branchFarAsmPreserve target linked bo bi r))
    (hbound : m.pc.toNat + 24 < 0x10000000000000000)
    (hslot : Store.Apart m.pc.toNat 24 (slot m) 8) :
    run (step other) 6 m =
      if option bo.toNat 2 then
        some ({ m with pc := m.pc + 20, ctr := loaded target, memory := kept m i }.branch
          (conditionOk bo.toNat bi.toUInt32.toNat m.cr) (counterTarget target) linked)
      else none := by
  have hdecode := decode_kept m i
  have hpc {a b : UInt64} {k : ℕ} (h : b = a + UInt64.ofNat k) (ha : a.toNat + k < 2 ^ 64) :
      b.toNat = a.toNat + k := by
    rw [h, UInt64.toNat_add, UInt64.toNat_ofNat']
    omega
  -- The slot lies outside the code.
  have hkeep (j : ℕ) (h : j < 24) : kept m i (m.pc.toNat + j) = m.memory (m.pc.toNat + j) := by
    rw [Store.Apart] at hslot
    exact kept_outside m i (by omega)
  have hstd : execute other (powerpcStd r.toUInt32 (-0x30) 1) m =
      some { m with pc := m.pc + 4, memory := kept m i } := by
    have hbase : m.address 1 (-0x30) = slot m := by
      rw [Machine.address, Machine.base, if_neg (by decide), slot_eq]
    rw [execute, decode_powerpcStd hr]
    simp only [hbase, Machine.next, kept]
  generalize kept m i = memory at *
  let m₁ : Machine := { m with pc := m.pc + 4, memory }
  let m₂ : Machine := withTarget m₁ i target
  let m₃ : Machine := { m with pc := m.pc + 20, ctr := loaded target, memory }
  have hld : execute other (powerpcLd r.toUInt32 (-0x30) 1) m₂ = some m₃ := by
    have hbase : m₂.address 1 (-0x30) = slot m := by
      simp only [m₂, m₁, withTarget, Machine.address, Machine.base, slot_eq]
      rw [if_neg (by decide), Function.update_of_ne (Ne.symm hi)]
    have hgpr : Function.update m₂.gpr i (m.gpr i) = m.gpr := by
      simp only [m₂, m₁, withTarget, Function.update_idem, Function.update_eq_self]
    have hlast : m₂.pc + 4 = m.pc + 20 := by
      simp [m₂, m₁, withTarget, UInt64.add_assoc]
    rw [execute, decode_powerpcLd hr]
    simp only [hbase, Machine.set, Machine.next, hlast]
    rw [show m₂.memory = memory from rfl, hdecode, hgpr]
    rfl
  obtain ⟨hrun₁, hcode₁⟩ := run_instruction (n := 5) hcode (by omega) hstd rfl fun h =>
    h.congr fun j hj => by
      have hlength : j < 20 := hj
      have := hkeep (4 + j) (by omega)
      rwa [← Nat.add_assoc] at this
  have hpc₁ : m₁.pc.toNat = m.pc.toNat + 4 := hpc rfl (by omega)
  obtain ⟨hrun₂, hcode₂⟩ := run_loadWords (m := m₁) (n := 2) hr hcode₁ (by omega)
  have hpc₂ : m₂.pc.toNat = m₁.pc.toNat + 12 := hpc rfl (by omega)
  change Holds m₂.memory m₂.pc.toNat _ at hcode₂
  have hlast : m₃.pc = m₂.pc + 4 := by simp [m₃, m₂, m₁, withTarget, UInt64.add_assoc]
  obtain ⟨hrun₃, hcode₃⟩ := run_instruction (n := 1) hcode₂ (by omega) hld hlast fun h => h
  rw [hrun₁, hrun₂, hrun₃, run_one hcode₃, execute_powerpcBcctr other m₃ linked hbo hbi]
  rfl

end GamePatch.Hooking
