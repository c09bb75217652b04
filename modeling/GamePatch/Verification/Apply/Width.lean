import GamePatch.Model.ApplyPatch

/-! The memory that an entry changes. The types are told apart by prefixes, and the
one-byte arm is asked first, so it takes every type that starts with `byte`. -/

namespace GamePatch.Apply

open Words

/-! ## Narrowing -/

/-- The number stored: the value read, reduced to `k` bytes. -/
def reduced (k : ℕ) (value : CString) : ℕ := ((stringToInt value).toInt % 2 ^ (8 * k)).toNat

def content (k : ℕ) (value : CString) : List UInt8 := valueBytes k (reduced k value)

theorem length_content (k : ℕ) (value : CString) : (content k value).length = k :=
  ByteOrder.length_encode .big k _

/-- A word whose signed value wraps around to that of `x` holds `x` reduced. -/
theorem toNat_of_bmod {w : ℕ} (b : BitVec w) {x : ℤ} (h : b.toInt = x.bmod (2 ^ w)) :
    b.toNat = (x % 2 ^ w).toNat := by
  have hmod : (b.toNat : ℤ) % ((2 ^ w : ℕ) : ℤ) = x % ((2 ^ w : ℕ) : ℤ) := by
    rw [← Int.bmod_emod, ← BitVec.toInt_eq_toNat_bmod, h, Int.bmod_emod]
  have hsmall : (b.toNat : ℤ) % ((2 ^ w : ℕ) : ℤ) = b.toNat := by
    exact_mod_cast congrArg Nat.cast (Nat.mod_eq_of_lt b.isLt)
  rw [hsmall, Nat.cast_pow, Nat.cast_ofNat] at hmod
  rw [← hmod, Int.toNat_natCast]

theorem toInt8_reduced (value : CString) :
    (stringToInt value).toInt8.toUInt8.toNat = reduced 1 value :=
  toNat_of_bmod (stringToInt value).toInt8.toUInt8.toBitVec (Int64.toInt_toInt8 _)

theorem toInt16_reduced (value : CString) :
    (stringToInt value).toInt16.toUInt16.toNat = reduced 2 value :=
  toNat_of_bmod (stringToInt value).toInt16.toUInt16.toBitVec (Int64.toInt_toInt16 _)

theorem toInt32_reduced (value : CString) :
    (stringToInt value).toInt32.toUInt32.toNat = reduced 4 value :=
  toNat_of_bmod (stringToInt value).toInt32.toUInt32.toBitVec (Int64.toInt_toInt32 _)

theorem toUInt64_reduced (value : CString) :
    (stringToInt value).toUInt64.toNat = reduced 8 value := by
  apply toNat_of_bmod (stringToInt value).toUInt64.toBitVec
  exact (BitVec.toInt_bmod_cancel _).symm

/-! ## The arms -/

/-- The width of the first arm whose test the type passes. -/
def armWidth (type : CString) : Option ℕ :=
  if strncmp2 type "bytes8".toList || strncmp2 type "byte".toList then some 1
  else if strncmp2 type "bytes16".toList || strncmp2 type "be16".toList then some 2
  else if strncmp2 type "bytes32".toList || strncmp2 type "be32".toList then some 4
  else if strncmp2 type "bytes64".toList || strncmp2 type "be64".toList then some 8
  else none

theorem applyPatch_of_armWidth (getpid : UInt32) (p : Process) {type : CString} {k : ℕ}
    (h : armWidth type = some k) (address value : CString) (rest : List CString) :
    applyPatch getpid ⟨type :: address :: value :: rest⟩ p =
      writePatch getpid (stringToUint address).toUInt32 (content k value) p := by
  rw [armWidth] at h
  simp only [applyPatch]
  split at h
  · next harm =>
      cases h
      rw [if_pos harm, toInt8_reduced, content]
  · next harm1 =>
      rw [if_neg harm1]
      split at h
      · next harm =>
          cases h
          rw [if_pos harm, toInt16_reduced, content]
      · next harm2 =>
          rw [if_neg harm2]
          split at h
          · next harm =>
              cases h
              rw [if_pos harm, toInt32_reduced, content]
          · next harm4 =>
              rw [if_neg harm4]
              split at h
              · next harm =>
                  cases h
                  rw [if_pos harm, toUInt64_reduced, content]
              · contradiction

/-- The arguments of an `append_arg` entry go to the argument vector of the game. -/
theorem applyPatch_appendArg (getpid : UInt32) (p : Process) (address value : CString)
    (rest : List CString) :
    applyPatch getpid ⟨"append_arg".toList :: address :: value :: rest⟩ p =
      { p with args := p.args.map (appendParams (address :: value :: rest)) } := rfl

/-- The types of an entry that writes memory, with the width each one names. -/
def typeWidths : List (CString × ℕ) :=
  [("byte".toList, 1), ("bytes8".toList, 1), ("bytes16".toList, 2), ("be16".toList, 2),
    ("bytes32".toList, 4), ("be32".toList, 4), ("bytes64".toList, 8), ("be64".toList, 8)]

/-- The types of several bytes that start with `byte`. -/
def shadowed : List CString := ["bytes16".toList, "bytes32".toList, "bytes64".toList]

theorem armWidth_typeWidths : ∀ entry ∈ typeWidths,
    armWidth entry.1 = some (if entry.1 ∈ shadowed then 1 else entry.2) := by decide

theorem one_lt_of_shadowed : ∀ entry ∈ typeWidths, entry.1 ∈ shadowed → 1 < entry.2 := by decide

/-! ## One write -/

/-- One write of `n` bytes at the address given, and no other byte changes. -/
structure WritesWidth (n : ℕ) (address value : CString) (p p' : Process) : Prop where
  writes : p'.writes =
    p.writes ++ [((stringToUint address).toUInt32.toNat, content n value)]
  inside : ∀ i (h : i < (content n value).length),
    p'.memory ((stringToUint address).toUInt32.toNat + i) = (content n value)[i]
  outside : ∀ a, a < (stringToUint address).toUInt32.toNat ∨
    (stringToUint address).toUInt32.toNat + n ≤ a → p'.memory a = p.memory a

theorem writePatch_eq {getpid : UInt32} (hpid : getpid ≠ 0) (addr : UInt32) (val : List UInt8)
    (p : Process) : ∃ pid, writePatch getpid addr val p =
      writeProcessMemory { p with currentPid := pid } addr.toNat val := by
  by_cases h : p.currentPid = 0
  · exact ⟨getpid, by simp [writePatch, h, hpid]⟩
  · exact ⟨p.currentPid, by simp [writePatch, h]⟩

theorem writePatch_writesWidth {getpid : UInt32} (hpid : getpid ≠ 0) (n : ℕ)
    (address value : CString) (p : Process) : WritesWidth n address value p
      (writePatch getpid (stringToUint address).toUInt32 (content n value) p) := by
  rcases writePatch_eq hpid (stringToUint address).toUInt32 (content n value) p with ⟨pid, h⟩
  rw [h]
  constructor
  · rfl
  · intro i hi
    simp [writeProcessMemory, hi]
  · intro a ha
    have hlen := length_content n value
    simp only [writeProcessMemory]
    split
    · rw [List.getD_eq_getElem?_getD, List.getElem?_eq_none (by omega), Option.getD_none]
    · rfl

/-- The width written tells two widths apart. -/
theorem WritesWidth.unique {m n : ℕ} {address value : CString} {p p' : Process}
    (hm : WritesWidth m address value p p') (hn : WritesWidth n address value p p') : m = n := by
  have h := hm.writes.symm.trans hn.writes
  have hlast := List.append_cancel_left h
  have hcontent : content m value = content n value :=
    congrArg Prod.snd (List.cons.inj hlast).1
  rw [← length_content m value, ← length_content n value, hcontent]

/-- An entry writes the width that its type names, unless the one-byte arm takes a
type of several bytes first. -/
theorem applyPatch_writesWidth_iff {getpid : UInt32} (hpid : getpid ≠ 0) (p : Process)
    {type : CString} {n : ℕ} (htype : (type, n) ∈ typeWidths) (address value : CString)
    (rest : List CString) :
    WritesWidth n address value p (applyPatch getpid ⟨type :: address :: value :: rest⟩ p) ↔
      type ∉ shadowed := by
  rw [applyPatch_of_armWidth getpid p (armWidth_typeWidths _ htype)]
  apply Iff.intro
  · intro h hshadowed
    have hwidth := h.unique (writePatch_writesWidth hpid _ address value p)
    rw [if_pos hshadowed] at hwidth
    have hlt : 1 < n := one_lt_of_shadowed _ htype hshadowed
    omega
  · intro h
    rw [if_neg h]
    exact writePatch_writesWidth hpid n address value p

/-- A process before the first entry. -/
def freshProcess : Process where
  memory _ := 0
  writes := []
  currentPid := 0
  args := none

theorem applyPatch_writesWidth_be16 :
    (1 : UInt32) ≠ 0 ∧ ("be16".toList, 2) ∈ typeWidths ∧
      WritesWidth 2 "0x10000".toList "0x1234".toList freshProcess
        (applyPatch 1 ⟨["be16".toList, "0x10000".toList, "0x1234".toList]⟩ freshProcess) :=
  ⟨by decide, by decide, (applyPatch_writesWidth_iff (by decide) freshProcess (by decide) _ _ []).2
    (by decide)⟩

/-- `bytes16` stores the low byte `0x34` alone. -/
theorem not_writesWidth_bytes16 :
    ("bytes16".toList, 2) ∈ typeWidths ∧
      ¬ WritesWidth 2 "0x10000".toList "0x1234".toList freshProcess
        (applyPatch 1 ⟨["bytes16".toList, "0x10000".toList, "0x1234".toList]⟩ freshProcess) := by
  refine ⟨by decide, fun h => ?_⟩
  have hwrites := h.writes
  have hone := (writePatch_writesWidth (by decide : (1 : UInt32) ≠ 0) 1 "0x10000".toList
    "0x1234".toList freshProcess).writes
  rw [applyPatch_of_armWidth 1 freshProcess (k := 1) (by decide), hone] at hwrites
  exact absurd hwrites (by decide)

end GamePatch.Apply
