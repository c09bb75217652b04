import GamePatch.Verification.Detour.Jump

/-! # Relocated branches

A relative branch becomes a jump to the same address under the same condition. The
fields that `RelocateBranch` takes from a word are those the processor reads in it. -/

namespace GamePatch.Hooking

open Words Branch PowerPC Simulation PatchCall

/-! ## The words -/

/-- The word is a branch relative to its own address. -/
def relative (w : UInt32) : Bool := (opcode w == 18 || opcode w == 16) && !absolute w

/-- What `RelocateCode` writes for the word at `source`. -/
def relocatedWords (source w : UInt32) : List UInt32 :=
  if relative w then
    branchFarAsmPreserve (source + branchOffset w) (link w) (branchFields w).options
      (branchFields w).conditionRegisterBit 0
  else [w]

/-- A mask of `k` bits keeps them where they are. -/
theorem and_two_pow_sub_one_shiftLeft (n s k : ℕ) :
    n &&& ((2 ^ k - 1) <<< s) = n / 2 ^ s % 2 ^ k * 2 ^ s := by
  have hfield : n / 2 ^ s % 2 ^ k * 2 ^ s = (n >>> s % 2 ^ k) <<< s := by
    rw [Nat.shiftLeft_eq, Nat.shiftRight_eq_div_pow]
  rw [hfield]
  apply Nat.eq_of_testBit_eq
  intro i
  rw [Nat.testBit_and, Nat.testBit_shiftLeft, Nat.testBit_two_pow_sub_one, Nat.testBit_shiftLeft,
    Nat.testBit_mod_two_pow, Nat.testBit_shiftRight]
  by_cases hi : s ≤ i
  · have hback : s + (i - s) = i := by omega
    simp [hi, hback, Bool.and_comm]
  · simp [hi]

theorem toNat_and_mask (w : UInt32) {mask : UInt32} (s k : ℕ)
    (h : mask.toNat = (2 ^ k - 1) <<< s) :
    (w &&& mask).toNat = w.toNat / 2 ^ s % 2 ^ k * 2 ^ s := by
  rw [UInt32.toNat_and, h, and_two_pow_sub_one_shiftLeft]

theorem and_opcode_eq_iff (w : UInt32) {op : UInt32} {n : ℕ} (hop : op.toNat = n) (hn : n < 64) :
    w &&& powerpcOpcode 63 = powerpcOpcode op ↔ opcode w = n := by
  have hlt := w.toNat_lt
  have hleft : (w &&& powerpcOpcode 63).toNat = w.toNat / 2 ^ 26 % 2 ^ 6 * 2 ^ 26 :=
    toNat_and_mask w 26 6 (by decide)
  have hright : (powerpcOpcode op).toNat = op.toNat * 2 ^ 26 :=
    toNat_shiftLeft_of_lt rfl (by omega)
  rw [← UInt32.toNat_inj, hleft, hright, opcode]
  omega

theorem and_two_ne_zero_iff (w : UInt32) : w &&& 2 ≠ 0 ↔ absolute w = true := by
  have hmask : (w &&& 2).toNat = w.toNat / 2 ^ 1 % 2 ^ 1 * 2 ^ 1 :=
    toNat_and_mask w 1 1 (by decide)
  rw [ne_eq, ← UInt32.toNat_inj, hmask, show (0 : UInt32).toNat = 0 by decide, absolute,
    decide_eq_true_iff]
  omega

theorem and_one_ne_zero (w : UInt32) : decide (w &&& 1 ≠ 0) = link w := by
  have hmask : (w &&& 1).toNat = w.toNat / 2 ^ 0 % 2 ^ 1 * 2 ^ 0 :=
    toNat_and_mask w 0 1 (by decide)
  rw [link, decide_eq_decide, ne_eq, ← UInt32.toNat_inj, hmask,
    show (0 : UInt32).toNat = 0 by decide]
  omega

/-- The two functions that relocate write the same words as one. -/
theorem relocateCode_eq (destination source : UInt32) (p : Process) :
    relocateCode destination source p =
      (writeWords p destination (relocatedWords source (readWord p source)),
        4 * (relocatedWords source (readWord p source)).length) := by
  generalize hw : readWord p source = w
  have hb : w &&& powerpcOpcode 63 = powerpcOpcode 18 ↔ opcode w = 18 :=
    and_opcode_eq_iff w rfl (by decide)
  have hbc : w &&& powerpcOpcode 63 = powerpcOpcode 16 ↔ opcode w = 16 :=
    and_opcode_eq_iff w rfl (by decide)
  have habsolute := and_two_ne_zero_iff w
  rw [relocateCode, hw, relocatedWords]
  by_cases hop : opcode w = 18 ∨ opcode w = 16
  · have hbranch : (opcode w == 18 || opcode w == 16) = true := by simpa using hop
    rw [if_pos (by rwa [hb, hbc]), relocateBranch, hw, relative, hbranch, Bool.true_and]
    by_cases haa : absolute w = true
    · rw [if_pos (habsolute.mpr haa), if_neg (by simp [haa])]
      rfl
    · rw [if_neg (by rwa [habsolute]), if_pos (by simp [haa]), and_one_ne_zero]
      rfl
  · have hbranch : (opcode w == 18 || opcode w == 16) = false := by simpa using hop
    rw [if_neg (by rwa [hb, hbc]), if_neg (by simp [relative, hbranch])]
    rfl

/-! ## The fields of a branch -/

variable {w : UInt32}

theorem branchFields_of_b (h : opcode w = 18) :
    branchFields w = ⟨24, 2, branchOptionsAlways, 0⟩ := by
  have hb : w &&& powerpcOpcode 63 = powerpcOpcode 18 :=
    (and_opcode_eq_iff w rfl (by decide)).mpr h
  rw [branchFields, if_pos hb]

theorem branchFields_of_bc (h : opcode w = 16) : branchFields w =
    ⟨14, 2, (w >>> 21) &&& maskNBits 5, ((w >>> 16) &&& maskNBits 5).toUInt8⟩ := by
  have hb : ¬ w &&& powerpcOpcode 63 = powerpcOpcode 18 := by
    rw [and_opcode_eq_iff w rfl (by decide), h]
    decide
  have hbc : w &&& powerpcOpcode 63 = powerpcOpcode 16 :=
    (and_opcode_eq_iff w rfl (by decide)).mpr h
  rw [branchFields, if_neg hb, if_pos hbc]

theorem toNat_shiftRight_and (w : UInt32) {k : UInt32} {n : ℕ} (hk : k.toNat % 32 = n) :
    ((w >>> k) &&& maskNBits 5).toNat = bits w n 5 := by
  rw [toNat_and_mask _ 0 5 (by decide), UInt32.toNat_shiftRight, hk, Nat.shiftRight_eq_div_pow,
    bits]
  omega

theorem opcode_of_relative (h : relative w = true) (hb : opcode w ≠ 18) : opcode w = 16 := by
  rw [relative] at h
  simp_all

theorem absolute_of_relative (h : relative w = true) : absolute w = false := by
  rw [relative] at h
  simp_all

/-- The condition of a branch as the processor reads it. -/
def conditionFields (w : UInt32) : ℕ × ℕ :=
  if opcode w = 18 then (20, 0) else (bits w 21 5, bits w 16 5)

theorem toNat_options (h : relative w = true) :
    (branchFields w).options.toNat = (conditionFields w).1 ∧
      (branchFields w).conditionRegisterBit.toUInt32.toNat = (conditionFields w).2 := by
  rw [conditionFields]
  by_cases hb : opcode w = 18
  · rw [branchFields_of_b hb, if_pos hb]
    decide
  · have hbc := opcode_of_relative h hb
    have hsmall : bits w 16 5 < 32 := Nat.mod_lt _ (by decide)
    rw [branchFields_of_bc hbc, if_neg hb]
    refine ⟨toNat_shiftRight_and w rfl, ?_⟩
    rw [UInt8.toNat_toUInt32, UInt32.toNat_toUInt8, toNat_shiftRight_and w (n := 16) rfl]
    omega

/-- The displacement of a branch as the processor reads it. -/
def relativeDisplacement (w : UInt32) : ℤ :=
  if opcode w = 18 then displacement w else signed 16 (bits w 2 14 * 4)

/-- Bits set above a field whose highest bit is set make it a signed number. -/
theorem toNat_extended {offset k : UInt32} {n : ℕ} (hk : k.toNat = n + 1) (hn : n < 31)
    (h : offset.toNat < 2 ^ (n + 1)) :
    (((if offset >>> (k - 1) ≠ 0 then offset ||| ~~~ maskNBits k else offset).toNat : ℕ) : ℤ) =
      signed (n + 1) offset.toNat % 0x100000000 := by
  have hpow : 2 ^ (n + 1) = 2 * 2 ^ n := Nat.pow_succ'
  have hle : 2 ^ n ≤ 2 ^ 30 := Nat.pow_le_pow_right (by decide) (by omega)
  have hpos : 0 < 2 ^ n := Nat.two_pow_pos n
  have hcast : (2 : ℤ) ^ (n + 1) = 2 * ((2 ^ n : ℕ) : ℤ) := by
    push_cast
    exact pow_succ' 2 n
  have hshift : (offset >>> (k - 1)).toNat = offset.toNat / 2 ^ n := by
    have hsub : (k - 1).toNat = n := by
      rw [UInt32.toNat_sub, hk, show (1 : UInt32).toNat = 1 by decide]
      omega
    rw [UInt32.toNat_shiftRight, hsub, Nat.mod_eq_of_lt (by omega), Nat.shiftRight_eq_div_pow]
  have hset : offset >>> (k - 1) ≠ 0 ↔ 2 ^ n ≤ offset.toNat := by
    rw [ne_eq, ← UInt32.toNat_inj, hshift, show (0 : UInt32).toNat = 0 by decide,
      Nat.div_eq_zero_iff]
    omega
  have hmask : (~~~ maskNBits k).toNat = 2 ^ 32 - 2 ^ (n + 1) := by
    have hone : ((1 : UInt32) <<< k).toNat = 2 ^ (n + 1) := by
      rw [UInt32.toNat_shiftLeft, hk, show (1 : UInt32).toNat = 1 by decide,
        Nat.mod_eq_of_lt (show n + 1 < 32 by omega), Nat.shiftLeft_eq, Nat.mod_eq_of_lt (by omega)]
      omega
    have hsize : UInt32.size = 2 ^ 32 := rfl
    rw [UInt32.toNat_not, maskNBits, UInt32.toNat_sub, hone, show (1 : UInt32).toNat = 1 by decide]
    omega
  rw [signed, Nat.add_sub_cancel]
  by_cases hlow : offset.toNat < 2 ^ n
  · rw [if_neg (by rw [hset]; omega), if_pos hlow]
    omega
  · have hdiv : (~~~ maskNBits k).toNat % 2 ^ (n + 1) = 0 := by
      rw [hmask]
      apply Nat.mod_eq_zero_of_dvd
      exact Nat.dvd_sub (Nat.pow_dvd_pow 2 (by omega)) dvd_rfl
    rw [if_pos (by rw [hset]; omega), if_neg hlow, UInt32.or_comm, toNat_or_of_lt _ hdiv h, hmask]
    rw [hcast]
    omega

theorem toNat_branchOffset (h : relative w = true) :
    ((branchOffset w).toNat : ℤ) = relativeDisplacement w % 0x100000000 := by
  rw [relativeDisplacement, branchOffset]
  by_cases hb : opcode w = 18
  · have hmask : (w &&& maskNBits 24 <<< 2).toNat = w.toNat / 2 ^ 2 % 2 ^ 24 * 2 ^ 2 :=
      toNat_and_mask w 2 24 (by decide)
    simp only [branchFields_of_b hb, if_pos hb]
    refine (toNat_extended (n := 25) rfl (by decide) (by omega)).trans ?_
    rw [hmask, displacement, field, signed]
    norm_num
  · have hbc := opcode_of_relative h hb
    have hmask : (w &&& maskNBits 14 <<< 2).toNat = w.toNat / 2 ^ 2 % 2 ^ 14 * 2 ^ 2 :=
      toNat_and_mask w 2 14 (by decide)
    simp only [branchFields_of_bc hbc, if_neg hb]
    refine (toNat_extended (n := 15) rfl (by decide) (by omega)).trans ?_
    rw [hmask]
    rfl

theorem relativeDisplacement_aligned (w : UInt32) : relativeDisplacement w % 4 = 0 := by
  rw [relativeDisplacement]
  split
  · rw [displacement, field]
    split <;> omega
  · rw [signed]
    split <;> omega

/-! ## The branch and its jump -/

variable {source : UInt32}

/-- The branch does not count the count register down. -/
def keepsCounter (w : UInt32) : Bool := option (conditionFields w).1 2

/-- Whether the branch is taken, for a branch that does not count. -/
def taken (w cr : UInt32) : Bool := conditionOk (conditionFields w).1 (conditionFields w).2 cr

theorem execute_relative (other : UInt32 → Machine → Option Machine) (m : Machine)
    (h : relative w = true) (hcounter : keepsCounter w = true) :
    execute other w m = some
      (m.branch (taken w m.cr) (m.branchAddress (relativeDisplacement w) false) (link w)) := by
  have haa := absolute_of_relative h
  by_cases hb : opcode w = 18
  · have hdecode : decode w = .b (displacement w) false (link w) := by
      simp only [decode, hb, haa]
    rw [execute, hdecode, relativeDisplacement, if_pos hb, taken, conditionFields, if_pos hb]
    rfl
  · have hbc := opcode_of_relative h hb
    have hdecode : decode w =
        .bc (bits w 21 5) (bits w 16 5) (signed 16 (bits w 2 14 * 4)) false (link w) := by
      simp only [decode, hbc, haa]
    rw [keepsCounter, conditionFields, if_neg hb] at hcounter
    rw [execute, hdecode, relativeDisplacement, if_neg hb, taken, conditionFields, if_neg hb]
    simp only [counterOk, hcounter, if_true, Bool.true_or, Bool.true_and]

/-- The jump loads the address that the branch goes to. -/
theorem counterTarget_branchOffset (h : relative w = true) (haligned : Aligned source)
    (hlow : 0 ≤ source.toNat + relativeDisplacement w)
    (hhigh : source.toNat + relativeDisplacement w < 0x80000000) :
    counterTarget (source + branchOffset w) =
      UInt64.ofInt (source.toNat + relativeDisplacement w) := by
  have hoffset := toNat_branchOffset h
  have hmod := relativeDisplacement_aligned w
  have hlt := source.toNat_lt
  have hsum : ((source + branchOffset w).toNat : ℤ) =
      source.toNat + relativeDisplacement w := by
    rw [UInt32.toNat_add]
    omega
  rw [Aligned] at haligned
  have harrives : counterTarget (source + branchOffset w) = (source + branchOffset w).toUInt64 :=
    (branch_loaded_iff _).mpr ⟨by rw [Aligned]; omega, by omega⟩
  rw [harrives, ← UInt64.toNat_inj, UInt32.toNat_toUInt64, UInt64.ofInt, UInt64.toNat_ofNat']
  omega

/-- The run of a relocated branch. It gets stuck on a branch that counts. -/
theorem run_relocated (other : UInt32 → Machine → Option Machine) (m : Machine)
    (h : relative w = true)
    (hcode : Holds m.memory m.pc.toNat (relocatedWords source w))
    (hbound : m.pc.toNat + 24 < 0x10000000000000000)
    (hslot : Store.Apart m.pc.toNat 24 (slot m) 8) :
    run (step other) 6 m =
      if keepsCounter w then
        some ({ m with
          pc := m.pc + 20, ctr := loaded (source + branchOffset w), memory := kept m 0 }.branch
          (taken w m.cr) (counterTarget (source + branchOffset w)) (link w))
      else none := by
  rcases toNat_options h with ⟨hbo, hbi⟩
  have hsmall : (conditionFields w).1 < 32 ∧ (conditionFields w).2 < 32 := by
    rw [conditionFields]
    split
    · decide
    · exact ⟨Nat.mod_lt _ (by decide), Nat.mod_lt _ (by decide)⟩
  rw [relocatedWords, if_pos h] at hcode
  have hrun := run_branchFarAsmPreserve other (i := 0) rfl (by decide)
    (hbo ▸ hsmall.1) (hbi ▸ hsmall.2) hcode hbound hslot
  rwa [hbo, hbi] at hrun

/-- A relocated branch can be executed exactly when the branch does not count the count
register down, which the jump has overwritten. -/
theorem relocated_runs_iff (other : UInt32 → Machine → Option Machine) (m : Machine)
    (h : relative w = true) (hcode : Holds m.memory m.pc.toNat (relocatedWords source w))
    (hbound : m.pc.toNat + 24 < 0x10000000000000000)
    (hslot : Store.Apart m.pc.toNat 24 (slot m) 8) :
    (∃ m', run (step other) 6 m = some m') ↔ keepsCounter w = true := by
  rw [run_relocated other m h hcode hbound hslot]
  cases keepsCounter w <;> simp

/-- A machine in front of some code, with its stack elsewhere. -/
def before (a : UInt32) (memory : ℕ → UInt8) : Machine :=
  ⟨a.toUInt64, fun r => if r.val = 1 then 0x3000 else 0, 0, 0x8000, 0, memory⟩

theorem relocated_runs_iff_bdnz : ¬ ∃ m', run (step fun _ _ => none) 6 (before 0x20000
    (Store.write (fun _ => 0) 0x20000 (bytes (relocatedWords 0x10000 0x42000100)))) = some m' := by
  rw [relocated_runs_iff _ _ (show relative 0x42000100 = true by decide) (holds_write _ _ _)
    (by decide) (.inr (by decide))]
  decide

end GamePatch.Hooking
