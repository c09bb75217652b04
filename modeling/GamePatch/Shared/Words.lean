import Mathlib.Data.Nat.Digits.Defs
import Mathlib.Tactic.Ring

/-! # Fixed-width words as byte strings

A word of `n` bytes is stored lowest byte first or highest byte first. Both
orders are lossless on values below `256 ^ n`. -/

namespace GamePatch.Words

/-- The order in which the bytes of a word are stored. -/
inductive ByteOrder where
  | little
  | big
  deriving DecidableEq, Repr

/-- The `n` low bytes of `v`, lowest first. -/
def leBytes : ℕ → ℕ → List UInt8
  | 0, _ => []
  | n + 1, v => UInt8.ofNat v :: leBytes n (v / 256)

/-- The value of a byte string whose lowest byte comes first. -/
def ofLeBytes : List UInt8 → ℕ
  | [] => 0
  | b :: bs => b.toNat + 256 * ofLeBytes bs

@[simp] theorem length_leBytes (n v : ℕ) : (leBytes n v).length = n := by
  induction n generalizing v with
  | zero => rfl
  | succ n ih => simp [leBytes, ih]

theorem ofLeBytes_leBytes (n v : ℕ) : ofLeBytes (leBytes n v) = v % 256 ^ n := by
  induction n generalizing v with
  | zero => simp [leBytes, ofLeBytes, Nat.mod_one]
  | succ n ih =>
      have hbyte : (UInt8.ofNat v).toNat = v % 256 := UInt8.toNat_ofNat'
      rw [leBytes, ofLeBytes, ih, hbyte, pow_succ', Nat.mod_mul]

/-- The bytes of a word in the given order. -/
def ByteOrder.encode (order : ByteOrder) (n v : ℕ) : List UInt8 :=
  match order with
  | .little => leBytes n v
  | .big => (leBytes n v).reverse

/-- The value of a word in the given order. -/
def ByteOrder.decode (order : ByteOrder) (bs : List UInt8) : ℕ :=
  match order with
  | .little => ofLeBytes bs
  | .big => ofLeBytes bs.reverse

@[simp] theorem ByteOrder.length_encode (order : ByteOrder) (n v : ℕ) :
    (order.encode n v).length = n := by
  cases order <;> simp [encode]

theorem ByteOrder.decode_encode (order : ByteOrder) (n v : ℕ) :
    order.decode (order.encode n v) = v % 256 ^ n := by
  cases order <;> simp [encode, decode, ofLeBytes_leBytes]

end GamePatch.Words
