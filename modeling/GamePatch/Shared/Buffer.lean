import Mathlib.Data.List.TakeWhile

/-! # Buffers

A buffer is the list of its cells. A read or a write outside it fails, and so does
a loop that does not end. A string in a buffer ends at its first zero. -/

namespace GamePatch.Buffer

variable {α : Type}

def read (cells : List α) (i : ℕ) : Option α := cells[i]?

/-- The cell before a position. There is none before the first. -/
def readBefore (cells : List α) : ℕ → Option α
  | 0 => none
  | i + 1 => read cells i

def write (cells : List α) (i : ℕ) (x : α) : Option (List α) :=
  if i < cells.length then some (cells.set i x) else none

section Strings

variable (zero : α)

/-- The string `text` stands at a position, with its zero behind it. -/
structure Holds (cells : List α) (pos : ℕ) (text : List α) : Prop where
  not_mem : zero ∉ text
  split : ∃ before behind, cells = before ++ (text ++ zero :: behind) ∧ before.length = pos

variable [DecidableEq α]

/-- The position where the characters of the string that meet `p` end. -/
def scan (p : α → Bool) (cells : List α) : ℕ → ℕ → Option ℕ
  | 0, _ => none
  | fuel + 1, pos => do
      let c ← read cells pos
      if c = zero then return pos
      else if p c then scan p cells fuel (pos + 1)
      else return pos

def strlen (cells : List α) (pos : ℕ) : Option ℕ := do
  let stop ← scan zero (fun _ => true) cells cells.length pos
  return stop - pos

/-- The position of the first `c`, if the string has one. -/
def strchr (c : α) (cells : List α) (pos : ℕ) : Option (Option ℕ) := do
  let stop ← scan zero (fun x => decide (x ≠ c)) cells cells.length pos
  let x ← read cells stop
  return if x = c then some stop else none

/-- At most `n` characters of the string at a position. -/
def readUpTo (cells : List α) : ℕ → ℕ → Option (List α)
  | _, 0 => some []
  | pos, n + 1 => do
      let c ← read cells pos
      if c = zero then return []
      else
        let text ← readUpTo cells (pos + 1) n
        return c :: text

/-- `n` cells are written, those behind the string with zeros. -/
def strncpy (dest cells : List α) (pos n : ℕ) : Option (List α) := do
  let text ← readUpTo zero cells pos n
  if n ≤ dest.length then
    return text ++ List.replicate (n - text.length) zero ++ dest.drop n
  else none

end Strings

variable {zero : α} {cells : List α} {pos : ℕ} {c : α} {text text' : List α}

theorem read_append (before : List α) (c : α) (behind : List α) :
    read (before ++ c :: behind) before.length = some c := by
  rw [read, List.getElem?_append_right (Nat.le_refl _), Nat.sub_self, List.getElem?_cons_zero]

theorem write_append (before : List α) (c x : α) (behind : List α) :
    write (before ++ c :: behind) before.length x = some (before ++ x :: behind) := by
  rw [write, if_pos (by simp), List.set_append_right _ _ (Nat.le_refl _), Nat.sub_self,
    List.set_cons_zero]

namespace Holds

theorem of_padded (h : zero ∉ text) (behind : List α) :
    Holds zero (text ++ zero :: behind) 0 text :=
  ⟨h, [], behind, rfl, rfl⟩

theorem read_nil (h : Holds zero cells pos []) : read cells pos = some zero := by
  obtain ⟨before, behind, rfl, rfl⟩ := h.split
  exact read_append before zero behind

theorem read_cons (h : Holds zero cells pos (c :: text)) : read cells pos = some c := by
  obtain ⟨before, behind, rfl, rfl⟩ := h.split
  exact read_append before c _

theorem ne_zero (h : Holds zero cells pos (c :: text)) : c ≠ zero := by
  rintro rfl
  exact h.not_mem List.mem_cons_self

theorem append (h : Holds zero cells pos (text ++ text')) :
    Holds zero cells (pos + text.length) text' := by
  obtain ⟨before, behind, rfl, rfl⟩ := h.split
  refine ⟨fun hmem => h.not_mem (List.mem_append_right text hmem), before ++ text, behind, ?_, ?_⟩
  · simp
  · exact List.length_append

theorem tail (h : Holds zero cells pos (c :: text)) : Holds zero cells (pos + 1) text := by
  have happend : Holds zero cells pos ([c] ++ text) := h
  exact happend.append

theorem readBefore_tail (h : Holds zero cells pos (c :: text)) :
    readBefore cells (pos + 1) = some c :=
  h.read_cons

theorem lt_length (h : Holds zero cells pos text) : pos + text.length < cells.length := by
  obtain ⟨before, behind, rfl, rfl⟩ := h.split
  simp only [List.length_append, List.length_cons]
  omega

/-- A zero written into a string ends it there. -/
theorem cut (h : Holds zero cells pos (text ++ c :: text')) :
    ∃ cells', write cells (pos + text.length) zero = some cells' ∧
      cells'.length = cells.length ∧ Holds zero cells' pos text := by
  obtain ⟨before, behind, rfl, rfl⟩ := h.split
  have hwrite := write_append (before ++ text) c zero (text' ++ zero :: behind)
  rw [List.length_append] at hwrite
  refine ⟨before ++ (text ++ zero :: (text' ++ zero :: behind)), ?_, by simp, ?_⟩
  · simpa using hwrite
  · exact ⟨fun hmem => h.not_mem (List.mem_append_left _ hmem), before, _, rfl, rfl⟩

theorem length_lt (h : Holds zero cells pos text) : text.length < cells.length :=
  Nat.lt_of_le_of_lt (Nat.le_add_left _ _) h.lt_length

/-! ## Loops over a string -/

variable [DecidableEq α]

/-- A scan ends within the string. -/
theorem scan_eq (h : Holds zero cells pos text) (p : α → Bool) {fuel : ℕ}
    (hfuel : text.length < fuel) :
    scan zero p cells fuel pos = some (pos + (text.takeWhile p).length) := by
  induction text generalizing pos fuel with
  | nil =>
      cases fuel with
      | zero => omega
      | succ fuel => simp [scan, h.read_nil]
  | cons c text ih =>
      cases fuel with
      | zero => omega
      | succ fuel =>
          rw [List.length_cons] at hfuel
          cases hc : p c with
          | true =>
              have hrest := ih h.tail (show text.length < fuel by omega)
              simp only [scan, h.read_cons, h.ne_zero, hc, if_true, if_false, Option.bind_eq_bind,
                Option.bind_some, hrest, List.takeWhile_cons, List.length_cons]
              rw [Nat.add_right_comm, Nat.add_assoc]
          | false => simp [scan, h.read_cons, h.ne_zero, hc]

/-- A scan with as many rounds as there are cells. -/
theorem scan_cells (h : Holds zero cells pos text) (p : α → Bool) :
    scan zero p cells cells.length pos = some (pos + (text.takeWhile p).length) :=
  h.scan_eq p h.length_lt

omit [DecidableEq α] in
theorem dropWhile (h : Holds zero cells pos text) (p : α → Bool) :
    Holds zero cells (pos + (text.takeWhile p).length) (text.dropWhile p) := by
  apply append
  rwa [List.takeWhile_append_dropWhile]

theorem strlen_eq (h : Holds zero cells pos text) : strlen zero cells pos = some text.length := by
  have hall : text.takeWhile (fun _ => true) = text := by simp
  rw [strlen, h.scan_cells, hall]
  simp

/-- The reading of at most `n` characters. -/
theorem readUpTo_eq (h : Holds zero cells pos text) (n : ℕ) :
    readUpTo zero cells pos n = some (text.take n) := by
  induction n generalizing pos text with
  | zero => rfl
  | succ n ih =>
      cases text with
      | nil => simp [readUpTo, h.read_nil]
      | cons c text => simp [readUpTo, h.read_cons, h.ne_zero, ih h.tail]

theorem strncpy_eq (h : Holds zero cells pos text) (dest : List α) {n : ℕ}
    (hn : n ≤ dest.length) :
    strncpy zero dest cells pos n =
      some (text.take n ++ List.replicate (n - text.length) zero ++ dest.drop n) := by
  have hpad : n - min n text.length = n - text.length := by omega
  simp [strncpy, h.readUpTo_eq, hn, hpad]

/-- The copy of a part of a string leaves the rest of the buffer. -/
theorem strncpy_prefix (h : Holds zero cells pos (text ++ text')) (dest : List α)
    (hroom : text.length ≤ dest.length) :
    strncpy zero dest cells pos text.length = some (text ++ dest.drop text.length) := by
  rw [h.strncpy_eq dest hroom]
  simp

/-- The copy and a zero behind it. -/
theorem strncpy_write (h : Holds zero cells pos (text ++ text')) (dest : List α)
    (hroom : text.length < dest.length) :
    ∃ copy copy', strncpy zero dest cells pos text.length = some copy ∧
      write copy text.length zero = some copy' ∧ Holds zero copy' 0 text := by
  refine ⟨text ++ dest.drop text.length, text ++ zero :: dest.drop (text.length + 1), ?_, ?_, ?_⟩
  · exact h.strncpy_prefix dest hroom.le
  · rw [List.drop_eq_getElem_cons hroom, write_append]
  · exact of_padded (fun hmem => h.not_mem (List.mem_append_left _ hmem)) _

/-- The search that ends at the first `c`. -/
theorem strchr_found (h : Holds zero cells pos (text ++ c :: text')) (hc : c ∉ text) :
    strchr zero c cells pos = some (some (pos + text.length)) := by
  have hbefore : ∀ x ∈ text, decide (x ≠ c) = true :=
    fun x hx => decide_eq_true fun heq => hc (heq ▸ hx)
  rw [strchr, h.scan_cells, List.takeWhile_append_of_pos hbefore,
    List.takeWhile_cons_of_neg (by simp), List.append_nil]
  simp [h.append.read_cons]

/-- The search that ends at the zero. -/
theorem strchr_missing (h : Holds zero cells pos text) (hzero : c ≠ zero) (hc : c ∉ text) :
    strchr zero c cells pos = some none := by
  have hall : text.takeWhile (fun x => decide (x ≠ c)) = text :=
    List.takeWhile_eq_self_iff.mpr fun x hx => decide_eq_true fun heq => hc (heq ▸ hx)
  have hend : read cells (pos + text.length) = some zero := by
    apply read_nil
    apply append
    rwa [List.append_nil]
  rw [strchr, h.scan_cells, hall]
  simp [hend, hzero.symm]

end Holds

end GamePatch.Buffer
