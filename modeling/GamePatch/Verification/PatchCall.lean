import GamePatch.Model.PatchCall
import GamePatch.Shared.Branch
import GamePatch.Verification.Settings.Codec

/-! # Redirected calls

The macros encode a branch by its displacement and decode one by the reverse. A
displacement that does not fit is cut, and the branch then goes elsewhere. -/

namespace GamePatch.PatchCall

open Words Branch

/-! ## The macros -/

/-- The mask of the displacement keeps its 24 bits where they are. -/
theorem and_mask (n : ℕ) : n &&& 0x03fffffc = n / 4 % 0x1000000 * 4 := by
  have hmask : (0x03fffffc : ℕ) = (2 ^ 24 - 1) <<< 2 := by decide
  have hfield : n / 4 % 0x1000000 * 4 = (n >>> 2 % 2 ^ 24) <<< 2 := by
    rw [Nat.shiftLeft_eq, Nat.shiftRight_eq_div_pow]
    omega
  rw [hmask, hfield]
  apply Nat.eq_of_testBit_eq
  intro i
  rw [Nat.testBit_and, Nat.testBit_shiftLeft, Nat.testBit_two_pow_sub_one, Nat.testBit_shiftLeft,
    Nat.testBit_mod_two_pow, Nat.testBit_shiftRight]
  by_cases hi : 2 ≤ i
  · have hback : 2 + (i - 2) = i := by omega
    simp [hi, hback, Bool.and_comm]
  · simp [hi]

/-- The offset read is the displacement. -/
theorem toInt_readCallOffset (value : UInt32) :
    (readCallOffset value).toInt = displacement value := by
  have hmasked : (((value &&& ~~~1) &&& 0x03fffffc) <<< 6 : UInt32).toNat = field value * 64 := by
    rw [UInt32.and_assoc, show (~~~1 &&& 0x03fffffc : UInt32) = 0x03fffffc by decide,
      UInt32.toNat_shiftLeft, UInt32.toNat_and,
      show (0x03fffffc : UInt32).toNat = 0x03fffffc by decide, and_mask, Nat.shiftLeft_eq,
      show (6 : UInt32).toNat % 32 = 6 by decide, field]
    omega
  have hshift : (readCallOffset value).toInt =
      (((value &&& ~~~1) &&& 0x03fffffc) <<< 6 : UInt32).toBitVec.toInt >>> (6 : ℕ) := by
    rw [← BitVec.toInt_sshiftRight]
    rfl
  have hlt : field value < 0x4000000 := by
    rw [field]
    omega
  rw [hshift, BitVec.toInt_eq_toNat_cond, UInt32.toNat_toBitVec, hmasked,
    Int.shiftRight_eq_div_pow, displacement]
  split <;> split <;> omega

theorem toNat_makeJumpValue (addr target : UInt32) : (makeJumpValue addr target).toNat =
    0x48000000 + (target.toNat + 0x100000000 - addr.toNat) / 4 % 0x1000000 * 4 := by
  have hlt := target.toNat_lt
  have hlt' := addr.toNat_lt
  have hfield : ((((target.toUInt64 - addr.toUInt64) >>> 2) &&& 0xffffff) <<< 2 : UInt64).toNat =
      (target.toNat + 0x100000000 - addr.toNat) / 4 % 0x1000000 * 4 := by
    rw [UInt64.toNat_shiftLeft, UInt64.toNat_and, UInt64.toNat_shiftRight, UInt64.toNat_sub,
      UInt32.toNat_toUInt64, UInt32.toNat_toUInt64, show (2 : UInt64).toNat % 64 = 2 by decide,
      show (0xffffff : UInt64).toNat = 2 ^ 24 - 1 by decide, Nat.and_two_pow_sub_one_eq_mod,
      Nat.shiftLeft_eq, Nat.shiftRight_eq_div_pow]
    omega
  have hopcode : ((0x12 : UInt64) <<< 26).toNat = 2 ^ 26 * 18 := by decide
  rw [makeJumpValue, UInt64.toNat_or, hfield, hopcode, ← Nat.two_pow_add_eq_or_of_lt (by omega)]

theorem toNat_makeCallValue (addr target : UInt32) : (makeCallValue addr target).toNat =
    (makeJumpValue addr target).toNat + 1 := by
  have hjump := toNat_makeJumpValue addr target
  have heven : (makeJumpValue addr target).toNat =
      2 ^ 1 * ((makeJumpValue addr target).toNat / 2) := by
    omega
  have hor : (makeCallValue addr target).toNat = (makeJumpValue addr target).toNat ||| 1 :=
    UInt64.toNat_or _ _
  rw [hor, heven, ← Nat.two_pow_add_eq_or_of_lt (by decide)]

/-! ## The branches encoded -/

variable {addr target : UInt32}

theorem field_makeJumpValue (haddr : Aligned addr) (htarget : Aligned target) :
    field (makeJumpValue addr target).toUInt32 =
      (target.toNat + 0x100000000 - addr.toNat) % 0x4000000 := by
  have hlt := addr.toNat_lt
  rw [field, UInt64.toNat_toUInt32, toNat_makeJumpValue]
  simp only [Aligned] at haddr htarget
  omega

theorem field_makeCallValue (haddr : Aligned addr) (htarget : Aligned target) :
    field (makeCallValue addr target).toUInt32 =
      (target.toNat + 0x100000000 - addr.toNat) % 0x4000000 := by
  rw [← field_makeJumpValue haddr htarget]
  have heven := toNat_makeJumpValue addr target
  rw [field, field, UInt64.toNat_toUInt32, UInt64.toNat_toUInt32, toNat_makeCallValue]
  omega

theorem isRelative_makeJumpValue (addr target : UInt32) :
    IsRelative (makeJumpValue addr target).toUInt32 false := by
  constructor
  · rw [opcode, UInt64.toNat_toUInt32, toNat_makeJumpValue]
    omega
  · rw [absolute, UInt64.toNat_toUInt32, toNat_makeJumpValue, decide_eq_false_iff_not]
    omega
  · rw [link, UInt64.toNat_toUInt32, toNat_makeJumpValue, decide_eq_false_iff_not]
    omega

theorem isRelative_makeCallValue (addr target : UInt32) :
    IsRelative (makeCallValue addr target).toUInt32 true := by
  constructor
  · rw [opcode, UInt64.toNat_toUInt32, toNat_makeCallValue, toNat_makeJumpValue]
    omega
  · rw [absolute, UInt64.toNat_toUInt32, toNat_makeCallValue, toNat_makeJumpValue,
      decide_eq_false_iff_not]
    omega
  · rw [link, UInt64.toNat_toUInt32, toNat_makeCallValue, toNat_makeJumpValue,
      decide_eq_true_iff]
    omega

/-- The target of a branch as the code computes it. -/
theorem toNat_add_readCallOffset (src value : UInt32) :
    ((src + (readCallOffset value).toUInt32).toNat : ℤ) = branchTarget src value := by
  have hoffset := toInt_readCallOffset value
  have hcast : (readCallOffset value).toInt =
      if 2 * (readCallOffset value).toUInt32.toNat < 2 ^ 32 then
        ((readCallOffset value).toUInt32.toNat : ℤ)
      else (readCallOffset value).toUInt32.toNat - 2 ^ 32 := by
    have hcond := BitVec.toInt_eq_toNat_cond (readCallOffset value).toBitVec
    push_cast at hcond
    exact hcond
  rw [branchTarget, ← hoffset, hcast, UInt32.toNat_add]
  split <;> omega

/-! ## Words in memory -/

theorem writeWord_memory_of_outside (p : Process) (address value : UInt32) {a : ℕ}
    (h : a < address.toNat ∨ address.toNat + 4 ≤ a) :
    (writeWord p address value).memory a = p.memory a := by
  have hlength : (valueBytes 4 value.toNat).length = 4 := ByteOrder.length_encode .big 4 _
  simp only [writeWord, writeProcessMemory]
  split
  · rw [List.getD_eq_getElem?_getD, List.getElem?_eq_none (by omega), Option.getD_none]
  · rfl

theorem readWord_writeWord (p : Process) (address value : UInt32) :
    readWord (writeWord p address value) address = value := by
  have hlength : (valueBytes 4 value.toNat).length = 4 := ByteOrder.length_encode .big 4 _
  have hbytes : ((List.range 4).map fun i =>
      (writeWord p address value).memory (address.toNat + i)) = valueBytes 4 value.toNat := by
    apply List.ext_getElem
    · simp [hlength]
    · intro i _ hi
      rw [List.getElem_map, List.getElem_range]
      simp only [writeWord, writeProcessMemory]
      rw [if_pos (Nat.le_add_right _ _), Nat.add_sub_cancel_left, List.getD_eq_getElem?_getD,
        List.getElem?_eq_getElem hi, Option.getD_some]
  rw [readWord, hbytes]
  exact Settings.decode_encode_word .big value

theorem readWord_writeWord_of_ne (p : Process) {a b : UInt32} (value : UInt32) (ha : Aligned a)
    (hb : Aligned b) (hne : a ≠ b) : readWord (writeWord p b value) a = readWord p a := by
  have hne' : a.toNat ≠ b.toNat := fun h => hne (UInt32.toNat_inj.mp h)
  have hbytes : ((List.range 4).map fun i => (writeWord p b value).memory (a.toNat + i)) =
      (List.range 4).map fun i => p.memory (a.toNat + i) := by
    apply List.map_congr_left
    intro i hi
    rw [List.mem_range] at hi
    simp only [Aligned] at ha hb
    exact writeWord_memory_of_outside p b value (by omega)
  rw [readWord, readWord, hbytes]

/-! ## The call and the way back -/

/-- The word at `src` calls `dst` and the word at `o` goes on to `t`, each as far as a
branch reaches, and no other memory changes. -/
structure Redirects (src dst o t : UInt32) (p p' : Process) : Prop where
  call : IsRelative (readWord p' src) true
  callTarget : branchTarget src (readWord p' src) = dst.toNat ↔ InRange src dst
  jump : IsRelative (readWord p' o) false
  jumpTarget : branchTarget o (readWord p' o) = t.toNat ↔ InRange o t
  frame : ∀ a, (a < src.toNat ∨ src.toNat + 4 ≤ a) → (a < o.toNat ∨ o.toNat + 4 ≤ a) →
    p'.memory a = p.memory a

/-- Whatever branch `src` held, its target `t` stays reachable through `original`. -/
theorem patchCall_redirects (src t : UInt32) (dst original : FunctionDescriptor) (p : Process)
    (hsrc : Aligned src) (hdst : Aligned dst.addr) (horiginal : Aligned original.addr)
    (hnonzero : original.addr ≠ 0) (hne : original.addr ≠ src)
    (htarget : branchTarget src (readWord p src) = t.toNat) :
    Redirects src dst.addr original.addr t p (patchCall src dst (some original) p) := by
  have hback : src + (readCallOffset (readWord p src)).toUInt32 = t := by
    apply UInt32.toNat_inj.mp
    have hcomputed := toNat_add_readCallOffset src (readWord p src)
    rw [htarget] at hcomputed
    exact_mod_cast hcomputed
  have ht : Aligned t := aligned_of_branchTarget hsrc htarget
  have hafter : patchCall src dst (some original) p =
      writeWord (writeWord p original.addr (makeJumpValue original.addr t).toUInt32) src
        (makeCallValue src dst.addr).toUInt32 := by
    simp only [patchCall, if_pos hnonzero, hback]
  have hword : readWord (patchCall src dst (some original) p) src =
      (makeCallValue src dst.addr).toUInt32 := by
    rw [hafter, readWord_writeWord]
  have hword' : readWord (patchCall src dst (some original) p) original.addr =
      (makeJumpValue original.addr t).toUInt32 := by
    rw [hafter, readWord_writeWord_of_ne _ _ horiginal hsrc hne, readWord_writeWord]
  constructor
  · rw [hword]
    exact isRelative_makeCallValue src dst.addr
  · rw [hword]
    exact branchTarget_eq_iff hsrc hdst (field_makeCallValue hsrc hdst)
  · rw [hword']
    exact isRelative_makeJumpValue original.addr t
  · rw [hword']
    exact branchTarget_eq_iff horiginal ht (field_makeJumpValue horiginal ht)
  · intro a ha ha'
    rw [hafter, writeWord_memory_of_outside _ _ _ ha, writeWord_memory_of_outside _ _ _ ha']

/-- A process with a call to `0x10010` at `0x10000`. -/
def callingProcess : Process where
  memory a := if a = 0x10000 then 0x48 else if a = 0x10003 then 0x11 else 0
  writes := []
  currentPid := 0
  args := none

theorem patchCall_redirects_near :
    IsRelative (readWord callingProcess 0x10000) true ∧
      Redirects 0x10000 0x20000 0x30000 0x10010 callingProcess
        (patchCall 0x10000 ⟨0x20000, 0⟩ (some ⟨0x30000, 0⟩) callingProcess) :=
  ⟨⟨by decide, by decide, by decide⟩,
    patchCall_redirects 0x10000 0x10010 ⟨0x20000, 0⟩ ⟨0x30000, 0⟩ callingProcess (by decide)
      (by decide) (by decide) (by decide) (by decide) (by decide)⟩

end GamePatch.PatchCall
