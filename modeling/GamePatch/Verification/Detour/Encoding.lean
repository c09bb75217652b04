import GamePatch.Model.Detour
import GamePatch.Verification.PatchCall

/-! # The instructions of a jump

The macros join fields that do not overlap, so a word is the sum of its fields and the
decoder finds them again. -/

namespace GamePatch.Hooking

open Words Branch PowerPC

/-! ## Words as sums -/

theorem toNat_or_of_lt {a b : UInt32} (k : ℕ) (ha : a.toNat % 2 ^ k = 0) (hb : b.toNat < 2 ^ k) :
    (a ||| b).toNat = a.toNat + b.toNat := by
  rcases Nat.dvd_of_mod_eq_zero ha with ⟨c, hc⟩
  rw [UInt32.toNat_or, hc, ← Nat.two_pow_add_eq_or_of_lt hb]

theorem toNat_shiftLeft_of_lt {a k : UInt32} {n : ℕ} (hk : k.toNat % 32 = n)
    (h : a.toNat * 2 ^ n < 0x100000000) : (a <<< k).toNat = a.toNat * 2 ^ n := by
  rw [UInt32.toNat_shiftLeft, hk, Nat.shiftLeft_eq, Nat.mod_eq_of_lt h]

variable {r rA imm bo bi : UInt32}

/-- The opcode and the two fields behind it. -/
theorem toNat_fields {op : UInt32} (hop : op.toNat < 64) (hr : r.toNat < 32) (hrA : rA.toNat < 32) :
    (powerpcOpcode op ||| (r <<< 21) ||| (rA <<< 16)).toNat =
      op.toNat * 0x4000000 + r.toNat * 0x200000 + rA.toNat * 0x10000 := by
  have h26 : (powerpcOpcode op).toNat = op.toNat * 2 ^ 26 :=
    toNat_shiftLeft_of_lt rfl (by omega)
  have h21 : (r <<< 21).toNat = r.toNat * 2 ^ 21 := toNat_shiftLeft_of_lt rfl (by omega)
  have h16 : (rA <<< 16).toNat = rA.toNat * 2 ^ 16 := toNat_shiftLeft_of_lt rfl (by omega)
  have hfirst : (powerpcOpcode op ||| (r <<< 21)).toNat =
      (powerpcOpcode op).toNat + (r <<< 21).toNat := toNat_or_of_lt 26 (by omega) (by omega)
  rw [toNat_or_of_lt 21 (by omega) (by omega), hfirst]
  omega

theorem toNat_powerpcImmediate {op : UInt32} (hop : op.toNat < 64) (hr : r.toNat < 32)
    (hrA : rA.toNat < 32) (himm : imm.toNat < 0x10000) : (powerpcImmediate op r rA imm).toNat =
      op.toNat * 0x4000000 + r.toNat * 0x200000 + rA.toNat * 0x10000 + imm.toNat := by
  have hfields := toNat_fields hop hr hrA
  rw [powerpcImmediate, toNat_or_of_lt 16 (by omega) (by omega), hfields]

theorem toNat_powerpcMtctr (hr : r.toNat < 32) :
    (powerpcMtctr r).toNat = 0x7c0903a6 + r.toNat * 0x200000 := by
  have h21 : (r <<< 21).toNat = r.toNat * 2 ^ 21 := toNat_shiftLeft_of_lt rfl (by omega)
  have hop : (powerpcOpcode 31).toNat = 0x7c000000 := by decide
  have htail : ((powerpcSpr 9 <<< 11) ||| powerpcExopcode 467).toNat = 0x903a6 := by decide
  have hfirst : (powerpcOpcode 31 ||| (r <<< 21)).toNat =
      (powerpcOpcode 31).toNat + (r <<< 21).toNat := toNat_or_of_lt 26 (by omega) (by omega)
  rw [powerpcMtctr, powerpcMtspr, UInt32.or_assoc, toNat_or_of_lt 21 (by omega) (by omega)]
  omega

theorem toNat_powerpcBcctr (hbo : bo.toNat < 32) (hbi : bi.toNat < 32) (linked : Bool) :
    (powerpcBcctr bo bi linked.toUInt32).toNat =
      0x4c000420 + bo.toNat * 0x200000 + bi.toNat * 0x10000 + linked.toNat := by
  have hfields := toNat_fields (show (19 : UInt32).toNat < 64 by decide) hbo hbi
  have htail : ((linked.toUInt32 &&& 1) ||| powerpcExopcode 528).toNat = 0x420 + linked.toNat := by
    cases linked <;> decide
  have hop : (19 : UInt32).toNat = 19 := rfl
  have hle := Bool.toNat_le linked
  rw [powerpcBcctr, UInt32.or_assoc, toNat_or_of_lt 16 (by omega) (by omega)]
  omega

/-! ## Decoding -/

variable {i j : Fin 32}

theorem register_eq {w : UInt32} {shift : ℕ} (h : bits w shift 5 = i) : register w shift = i := by
  rw [register, h]
  exact Fin.ofNat_val_eq_self i

/-- The fields of a word with two registers and a number. -/
theorem decode_powerpcImmediate {op : UInt32} (hop : op.toNat < 64) (hr : r.toNat = i)
    (hrA : rA.toNat = j) (himm : imm.toNat < 0x10000) :
    opcode (powerpcImmediate op r rA imm) = op.toNat ∧
      register (powerpcImmediate op r rA imm) 21 = i ∧
      register (powerpcImmediate op r rA imm) 16 = j ∧
      bits (powerpcImmediate op r rA imm) 0 16 = imm.toNat ∧
      bits (powerpcImmediate op r rA imm) 0 2 = imm.toNat % 4 := by
  have hi := i.isLt
  have hj := j.isLt
  have hw := toNat_powerpcImmediate hop (hr ▸ hi) (hrA ▸ hj) himm
  refine ⟨?_, register_eq ?_, register_eq ?_, ?_, ?_⟩
  · rw [opcode]
    omega
  all_goals
    rw [bits]
    omega

theorem decode_powerpcAddis (hr : r.toNat = i) (hrA : rA.toNat = j) (himm : imm.toNat < 0x10000) :
    decode (powerpcAddis r rA imm) = .addis i j (signed 16 imm.toNat) := by
  obtain ⟨hop, hi, hj, hn, _⟩ :=
    decode_powerpcImmediate (show (15 : UInt32).toNat < 64 by decide) hr hrA himm
  rw [powerpcAddis, decode, hop]
  simp only [UInt32.reduceToNat, hi, hj, hn]

theorem decode_powerpcOri (hr : r.toNat = i) (hrA : rA.toNat = j) (himm : imm.toNat < 0x10000) :
    decode (powerpcOri r rA imm) = .ori i j imm.toNat := by
  obtain ⟨hop, hi, hj, hn, _⟩ :=
    decode_powerpcImmediate (show (24 : UInt32).toNat < 64 by decide) hr hrA himm
  rw [powerpcOri, decode, hop]
  simp only [UInt32.reduceToNat, hi, hj, hn]

/-- The displacement of the slot where a register is kept. -/
theorem decode_powerpcStd (hr : r.toNat = i) :
    decode (powerpcStd r (-0x30) 1) = .std i 1 (-0x30) := by
  have hbase : (1 : UInt32).toNat = (1 : Fin 32) := rfl
  have himm : (-0x30 : Int16).toUInt16.toUInt32.toNat < 0x10000 := by decide
  obtain ⟨hop, hi, hj, hn, hlow⟩ :=
    decode_powerpcImmediate (show (62 : UInt32).toNat < 64 by decide) hr hbase himm
  rw [powerpcStd, decode, hop]
  simp only [UInt32.reduceToNat, hi, hj, hn, hlow]
  rfl

theorem decode_powerpcLd (hr : r.toNat = i) :
    decode (powerpcLd r (-0x30) 1) = .ld i 1 (-0x30) := by
  have hbase : (1 : UInt32).toNat = (1 : Fin 32) := rfl
  have himm : (-0x30 : Int16).toUInt16.toUInt32.toNat < 0x10000 := by decide
  obtain ⟨hop, hi, hj, hn, hlow⟩ :=
    decode_powerpcImmediate (show (58 : UInt32).toNat < 64 by decide) hr hbase himm
  rw [powerpcLd, decode, hop]
  simp only [UInt32.reduceToNat, hi, hj, hn, hlow]
  rfl

theorem decode_powerpcMtctr (hr : r.toNat = i) : decode (powerpcMtctr r) = .mtctr i := by
  have hi := i.isLt
  have hw := toNat_powerpcMtctr (r := r) (by omega)
  have hop : opcode (powerpcMtctr r) = 31 := by
    rw [opcode]
    omega
  have hreg : register (powerpcMtctr r) 21 = i := by
    apply register_eq
    rw [bits]
    omega
  have hext : bits (powerpcMtctr r) 1 10 = 467 ∧ bits (powerpcMtctr r) 11 10 = 9 * 32 := by
    rw [bits, bits]
    omega
  rw [decode, hop]
  simp only [hreg, if_pos hext]

theorem decode_powerpcBcctr (hbo : bo.toNat < 32) (hbi : bi.toNat < 32) (linked : Bool) :
    decode (powerpcBcctr bo bi linked.toUInt32) = .bcctr bo.toNat bi.toNat linked := by
  have hw := toNat_powerpcBcctr hbo hbi linked
  have hle := Bool.toNat_le linked
  have hop : opcode (powerpcBcctr bo bi linked.toUInt32) = 19 := by
    rw [opcode]
    omega
  have hext : bits (powerpcBcctr bo bi linked.toUInt32) 1 10 = 528 := by
    rw [bits]
    omega
  have hfirst : bits (powerpcBcctr bo bi linked.toUInt32) 21 5 = bo.toNat := by
    rw [bits]
    omega
  have hsecond : bits (powerpcBcctr bo bi linked.toUInt32) 16 5 = bi.toNat := by
    rw [bits]
    omega
  have hlink : link (powerpcBcctr bo bi linked.toUInt32) = linked := by
    rw [link, hw]
    cases linked
    · simp
      omega
    · simp
      omega
  rw [decode, hop]
  simp only [if_pos hext, hfirst, hsecond, hlink]

end GamePatch.Hooking
