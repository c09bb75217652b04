import GamePatch.Shared.Branch
import GamePatch.Shared.Simulation
import GamePatch.Shared.Store
import GamePatch.Shared.Words

/-! # A part of the PowerPC instruction set

Branches and the instructions that build an address, with the state they work on. What
any other instruction does is a parameter. Registers have 64 bits, words of the program
32, and a number of several bytes stands in memory highest byte first. -/

namespace GamePatch.PowerPC

open Words Branch

structure Machine where
  pc : UInt64
  gpr : Fin 32 → UInt64
  ctr : UInt64
  lr : UInt64
  cr : UInt32
  memory : ℕ → UInt8

inductive Instruction where
  | addis (rD rA : Fin 32) (simm : ℤ)
  | ori (rS rA : Fin 32) (uimm : ℕ)
  | mtctr (rS : Fin 32)
  | std (rS rA : Fin 32) (ds : ℤ)
  | ld (rD rA : Fin 32) (ds : ℤ)
  | b (li : ℤ) (aa lk : Bool)
  | bc (bo bi : ℕ) (bd : ℤ) (aa lk : Bool)
  | bcctr (bo bi : ℕ) (lk : Bool)
  | other
  deriving DecidableEq, Repr

/-! ## Decoding -/

/-- The field of `width` bits above the `shift` lowest ones. -/
def bits (w : UInt32) (shift width : ℕ) : ℕ := w.toNat / 2 ^ shift % 2 ^ width

def register (w : UInt32) (shift : ℕ) : Fin 32 := Fin.ofNat 32 (bits w shift 5)

/-- The value of a field whose highest bit is the sign. -/
def signed (width n : ℕ) : ℤ := if n < 2 ^ (width - 1) then n else n - 2 ^ width

def decode (w : UInt32) : Instruction :=
  match opcode w with
  | 15 => .addis (register w 21) (register w 16) (signed 16 (bits w 0 16))
  | 16 => .bc (bits w 21 5) (bits w 16 5) (signed 16 (bits w 2 14 * 4)) (absolute w) (link w)
  | 18 => .b (displacement w) (absolute w) (link w)
  | 19 => if bits w 1 10 = 528 then .bcctr (bits w 21 5) (bits w 16 5) (link w) else .other
  | 24 => .ori (register w 21) (register w 16) (bits w 0 16)
  -- The number of the special register stands with its low half first.
  | 31 => if bits w 1 10 = 467 ∧ bits w 11 10 = 9 * 32 then .mtctr (register w 21) else .other
  | 58 =>
      if bits w 0 2 = 0 then .ld (register w 21) (register w 16) (signed 16 (bits w 0 16))
      else .other
  | 62 =>
      if bits w 0 2 = 0 then .std (register w 21) (register w 16) (signed 16 (bits w 0 16))
      else .other
  | _ => .other

/-! ## Execution -/

namespace Machine

def next (m : Machine) : Machine := { m with pc := m.pc + 4 }

def set (m : Machine) (r : Fin 32) (v : UInt64) : Machine :=
  { m with gpr := Function.update m.gpr r v }

/-- Register 0 as a base is the number 0. -/
def base (m : Machine) (r : Fin 32) : UInt64 := if r = 0 then 0 else m.gpr r

/-- The address `d` bytes behind the base. -/
def address (m : Machine) (r : Fin 32) (d : ℤ) : ℕ := (m.base r + UInt64.ofInt d).toNat

/-- A branch writes the link register also when it is not taken. -/
def branch (m : Machine) (taken : Bool) (target : UInt64) (lk : Bool) : Machine :=
  { m with
    pc := if taken then target else m.pc + 4
    lr := if lk then m.pc + 4 else m.lr }

def branchAddress (m : Machine) (d : ℤ) (aa : Bool) : UInt64 :=
  if aa then UInt64.ofInt d else UInt64.ofInt (m.pc.toNat + d)

end Machine

/-- Bit `i` of a BO field, counted from the highest. -/
def option (bo i : ℕ) : Bool := bo / 2 ^ (4 - i) % 2 = 1

/-- Bit `i` of the condition register, counted from the highest. -/
def crBit (cr : UInt32) (i : ℕ) : Bool := cr.toNat / 2 ^ (31 - i) % 2 = 1

def conditionOk (bo bi : ℕ) (cr : UInt32) : Bool := option bo 0 || crBit cr bi == option bo 1

def counterOk (bo : ℕ) (ctr : UInt64) : Bool := option bo 2 || (ctr != 0) != option bo 3

/-- One instruction. A branch to the count register that counts it down has no meaning. -/
def execute (other : UInt32 → Machine → Option Machine) (w : UInt32) (m : Machine) :
    Option Machine :=
  match decode w with
  | .addis rD rA simm => some (m.set rD (m.base rA + UInt64.ofInt (simm * 65536))).next
  | .ori rS rA uimm => some (m.set rA (m.gpr rS ||| UInt64.ofNat uimm)).next
  | .mtctr rS => some { m with ctr := m.gpr rS }.next
  | .std rS rA ds =>
      some { m with
        memory := Store.write m.memory (m.address rA ds)
          (ByteOrder.big.encode 8 (m.gpr rS).toNat) }.next
  | .ld rD rA ds =>
      some (m.set rD
        (UInt64.ofNat (ByteOrder.big.decode (Store.read m.memory (m.address rA ds) 8)))).next
  | .b li aa lk => some (m.branch true (m.branchAddress li aa) lk)
  | .bc bo bi bd aa lk =>
      let ctr := if option bo 2 then m.ctr else m.ctr - 1
      some ({ m with ctr }.branch (counterOk bo ctr && conditionOk bo bi m.cr)
        (m.branchAddress bd aa) lk)
  | .bcctr bo bi lk =>
      if option bo 2 then
        some (m.branch (conditionOk bo bi m.cr) (UInt64.ofNat (m.ctr.toNat / 4 * 4)) lk)
      else none
  | .other => other w m

/-- The word of the program at an address. -/
def wordAt (memory : ℕ → UInt8) (a : ℕ) : UInt32 :=
  UInt32.ofNat (ByteOrder.big.decode (Store.read memory a 4))

def step (other : UInt32 → Machine → Option Machine) (m : Machine) : Option Machine :=
  execute other (wordAt m.memory m.pc.toNat) m

/-! ## Programs in memory -/

/-- The words stand one after another from `a` on. -/
def Holds (memory : ℕ → UInt8) (a : ℕ) (words : List UInt32) : Prop :=
  ∀ i, ∀ h : i < words.length, wordAt memory (a + 4 * i) = words[i]

/-- The bytes of a piece of program. -/
def bytes (words : List UInt32) : List UInt8 :=
  words.flatMap fun w => ByteOrder.big.encode 4 w.toNat

variable {memory memory' : ℕ → UInt8} {a n : ℕ} {words words' : List UInt32}

@[simp] theorem length_bytes (words : List UInt32) : (bytes words).length = 4 * words.length := by
  induction words with
  | nil => rfl
  | cons w words ih =>
      rw [bytes, List.flatMap_cons, List.length_append, ByteOrder.length_encode, List.length_cons,
        ← bytes, ih]
      omega

theorem bytes_append (words words' : List UInt32) :
    bytes (words ++ words') = bytes words ++ bytes words' :=
  List.flatMap_append

theorem wordAt_congr (h : ∀ i < 4, memory' (a + i) = memory (a + i)) :
    wordAt memory' a = wordAt memory a := by
  rw [wordAt, wordAt, Store.read_congr h]

theorem wordAt_write (memory : ℕ → UInt8) (a : ℕ) (w : UInt32) (rest : List UInt8) :
    wordAt (Store.write memory a (ByteOrder.big.encode 4 w.toNat ++ rest)) a = w := by
  have hapart : Store.Apart a 4 (a + 4) rest.length := .inl le_rfl
  have hlen : (ByteOrder.big.encode 4 w.toNat).length = 4 := ByteOrder.length_encode .big 4 _
  have hlt : w.toNat < 256 ^ 4 := w.toNat_lt
  have hread : Store.read (Store.write memory a (ByteOrder.big.encode 4 w.toNat)) a 4 =
      ByteOrder.big.encode 4 w.toNat := by
    have hblock := Store.read_write memory a (ByteOrder.big.encode 4 w.toNat)
    rwa [hlen] at hblock
  rw [wordAt, Store.write_append, hlen, Store.read_write_of_apart _ hapart, hread,
    ByteOrder.decode_encode, Nat.mod_eq_of_lt hlt]
  exact UInt32.ofNat_toNat

theorem Holds.congr (h : Holds memory a words)
    (hsame : ∀ i < 4 * words.length, memory' (a + i) = memory (a + i)) :
    Holds memory' a words := by
  intro i hi
  rw [← h i hi]
  apply wordAt_congr
  intro j hj
  rw [Nat.add_assoc]
  exact hsame _ (by omega)

/-- What was written is there. -/
theorem holds_write (memory : ℕ → UInt8) (a : ℕ) (words : List UInt32) :
    Holds (Store.write memory a (bytes words)) a words := by
  intro i hi
  have hsplit : words = words.take i ++ words[i] :: words.drop (i + 1) := by
    rw [← List.drop_eq_getElem_cons hi, List.take_append_drop]
  have hplace : a + (bytes (words.take i)).length = a + 4 * i := by
    rw [length_bytes, List.length_take, Nat.min_eq_left (Nat.le_of_lt hi)]
  have hbytes : bytes words = bytes (words.take i) ++
      (ByteOrder.big.encode 4 words[i].toNat ++ bytes (words.drop (i + 1))) := by
    conv_lhs => rw [hsplit]
    rw [bytes_append]
    rfl
  rw [hbytes, Store.write_append, hplace]
  exact wordAt_write _ _ _ _

theorem Holds.append (h : Holds memory a words) (h' : Holds memory (a + 4 * words.length) words') :
    Holds memory a (words ++ words') := by
  intro i hi
  by_cases hlt : i < words.length
  · rw [List.getElem_append_left hlt]
    exact h i hlt
  · have hback : a + 4 * i = a + 4 * words.length + 4 * (i - words.length) := by omega
    rw [List.getElem_append_right (by omega), hback]
    exact h' (i - words.length) (by rw [List.length_append] at hi; omega)

theorem holds_append : Holds memory a (words ++ words') ↔
    Holds memory a words ∧ Holds memory (a + 4 * words.length) words' := by
  refine ⟨fun h => ⟨fun i hi => ?_, fun i hi => ?_⟩, fun h => h.1.append h.2⟩
  · have hword := h i (by rw [List.length_append]; omega)
    rwa [List.getElem_append_left hi] at hword
  · have hword := h (words.length + i) (by rw [List.length_append]; omega)
    rw [List.getElem_append_right (Nat.le_add_right _ _)] at hword
    have hback : a + 4 * words.length + 4 * i = a + 4 * (words.length + i) := by omega
    rw [hback, hword]
    simp

/-! ## Steps -/

variable {other : UInt32 → Machine → Option Machine} {m m' : Machine} {w : UInt32}

theorem run_cons {rest : List UInt32} (hcode : Holds m.memory m.pc.toNat (w :: rest))
    (h : execute other w m = some m') :
    Simulation.run (step other) (n + 1) m = Simulation.run (step other) n m' := by
  apply Simulation.run_succ_of_step
  have hword : wordAt m.memory m.pc.toNat = w := hcode 0 (Nat.zero_lt_succ _)
  rw [step, hword, h]

/-- A relative branch goes to its address and its displacement together. -/
theorem execute_of_isRelative {call : Bool} (h : IsRelative w call) :
    execute other w m = some (m.branch true (UInt64.ofInt (m.pc.toNat + displacement w)) call) := by
  have hdecode : decode w = .b (displacement w) false call := by
    simp only [decode, h.opcode, h.absolute, h.link]
  rw [execute, hdecode]
  rfl

theorem Holds.tail (h : Holds memory a (w :: words)) : Holds memory (a + 4) words :=
  (holds_append.mp (show Holds memory a ([w] ++ words) from h)).2

end GamePatch.PowerPC
