import Mathlib.Data.Nat.Notation

/-! # Relative branches

A branch instruction of 32 bits holds a displacement of 24 bits, counted in words and
signed. It reaches the addresses within 32 megabytes of its own. -/

namespace GamePatch.Branch

def opcode (w : UInt32) : ℕ := w.toNat / 0x4000000

/-- AA, the bit of an absolute address. -/
def absolute (w : UInt32) : Bool := w.toNat / 2 % 2 = 1

/-- LK, the bit of a call. -/
def link (w : UInt32) : Bool := w.toNat % 2 = 1

/-- The 26 bits of the displacement in bytes. -/
def field (w : UInt32) : ℕ := w.toNat / 4 % 0x1000000 * 4

/-- The displacement with its sign extended. -/
def displacement (w : UInt32) : Int :=
  if field w < 0x2000000 then field w else (field w : Int) - 0x4000000

/-- Where a relative branch at `address` goes. -/
def branchTarget (address w : UInt32) : Int :=
  ((address.toNat : Int) + displacement w) % 0x100000000

/-- The word is a relative branch, a call or not. -/
structure IsRelative (w : UInt32) (call : Bool) : Prop where
  opcode : opcode w = 18
  absolute : absolute w = false
  link : link w = call

/-- The difference of two addresses as a signed number. -/
def distance (target address : UInt32) : Int := (target - address).toInt32.toInt

/-- A branch at `address` reaches `target`. -/
def InRange (address target : UInt32) : Prop :=
  -0x2000000 ≤ distance target address ∧ distance target address < 0x2000000

def Aligned (address : UInt32) : Prop := address.toNat % 4 = 0

instance (address : UInt32) : Decidable (Aligned address) := inferInstanceAs (Decidable (_ = _))

variable {address target w : UInt32}

/-- The signed difference is the difference up to a multiple of `2 ^ 32`. -/
theorem distance_spec (target address : UInt32) :
    ∃ k : Int, distance target address = target.toNat - address.toNat - 0x100000000 * k ∧
      -0x80000000 ≤ distance target address ∧ distance target address < 0x80000000 := by
  have hdiff : distance target address =
      ((target.toNat : Int) - address.toNat).bmod (2 ^ 32) := by
    have hsub : distance target address = (target.toBitVec - address.toBitVec).toInt := rfl
    rw [hsub, BitVec.toInt_sub, BitVec.toInt_eq_toNat_bmod, BitVec.toInt_eq_toNat_bmod,
      Int.bmod_sub_bmod, Int.sub_bmod_bmod]
    rfl
  have hpos : 0 < 2 ^ 32 := Nat.two_pow_pos 32
  have hsplit := Int.bmod_add_bdiv ((target.toNat : Int) - address.toNat) (2 ^ 32)
  have hlo := Int.le_bmod (x := (target.toNat : Int) - address.toNat) hpos
  have hhi := Int.bmod_lt (x := (target.toNat : Int) - address.toNat) hpos
  rw [← hdiff] at hsplit hlo hhi
  generalize distance target address = d at *
  generalize Int.bdiv _ _ = k at hsplit
  refine ⟨k, ?_, ?_, ?_⟩ <;> omega

/-- A word whose field is that of `target` goes there exactly within range. -/
theorem branchTarget_eq_iff (haddress : Aligned address) (htarget : Aligned target)
    (hfield : field w = (target.toNat + 0x100000000 - address.toNat) % 0x4000000) :
    branchTarget address w = target.toNat ↔ InRange address target := by
  have hlt := target.toNat_lt
  have hlt' := address.toNat_lt
  obtain ⟨k, hk, hlo, hhi⟩ := distance_spec target address
  rw [InRange, branchTarget, displacement, hfield]
  generalize distance target address = d at *
  simp only [Aligned] at haddress htarget
  split <;> omega

/-- The displacement of a word whose field is that of a `target` within reach. -/
theorem displacement_of_field (haddress : Aligned address) (htarget : Aligned target)
    (hlow : -0x2000000 ≤ (target.toNat : Int) - address.toNat)
    (hhigh : (target.toNat : Int) - address.toNat < 0x2000000)
    (hfield : field w = (target.toNat + 0x100000000 - address.toNat) % 0x4000000) :
    displacement w = target.toNat - address.toNat := by
  have hlt := address.toNat_lt
  rw [displacement, hfield]
  simp only [Aligned] at haddress htarget
  split <;> omega

theorem aligned_of_branchTarget (haddress : Aligned address)
    (h : branchTarget address w = target.toNat) : Aligned target := by
  simp only [branchTarget, displacement, field, Aligned] at *
  omega

end GamePatch.Branch
