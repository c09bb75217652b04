import GamePatch.Model.Pointers
import GamePatch.Verification.Parser.Identity

/-! # Strings and arrays behind pointers

What each operation on a string or an array needs to own, and what it owns afterwards. -/

namespace GamePatch.Pointers

open Heap
open scoped Pointwise

/-! ## Strings -/

abbrev stringAt (p : ℕ) (str : CString) : Assertion Block := cell p (.string str)

abbrev pointsTo : Option ℕ → Option CString → Assertion Block := optional stringAt

theorem reads_loadString (p : ℕ) (str : CString) :
    Reads (stringAt p str) (loadString p) (some str) :=
  .step (.refl _) (reads_load p _) (.pure _ _)

theorem reads_loadArray (p size : ℕ) : Reads (cell p (.array size)) (loadArray p) (some size) :=
  .step (.refl _) (reads_load p _) (.pure _ _)

theorem reads_loadOptional (p : Option ℕ) (str : Option CString) :
    Reads (pointsTo p str) (loadOptional p) (some str) := by
  cases p with
  | none =>
      cases str with
      | none => exact .pure _ _
      | some str => exact .empty
  | some p =>
      cases str with
      | none => exact .empty
      | some str => exact .step (.refl _) (reads_loadString p str) (.pure _ _)

theorem reads_loadUnchecked (p : Option ℕ) (str : Option CString) :
    Reads (pointsTo p str) (loadUnchecked p) str := by
  cases p with
  | none =>
      cases str with
      | none => exact fun _ _ _ _ _ => rfl
      | some str => exact .empty
  | some p =>
      cases str with
      | none => exact .empty
      | some str => exact reads_loadString p str

theorem follows_freeOptional (p : Option ℕ) (str : Option CString) :
    Follows (pointsTo p str) (freeOptional p) (some ()) fun _ _ => 0 := by
  cases p with
  | none =>
      cases str with
      | none => exact .pure subset_rfl
      | some str => exact .empty
  | some p =>
      cases str with
      | none => exact .empty
      | some str => exact follows_free p _

theorem follows_copyString (p : ℕ) (str : CString) :
    Follows (stringAt p str) (copyString p) (some str)
      fun copy str' => stringAt p str + stringAt copy str' := by
  refine .read (.refl _) (reads_loadString p str) ?_
  have hmalloc := (follows_malloc (Block.string str)).frame (stringAt p str)
  rw [zero_add] at hmalloc
  exact hmalloc.giving fun _ => (add_comm _ _).subset

theorem follows_strDup (env : Env) (p : Option ℕ) (str : Option CString) :
    Follows (pointsTo p str) (strDup env p) (env.strDup str)
      fun copy str' => pointsTo p str + pointsTo copy str' := by
  cases p with
  | none =>
      cases str with
      | some str => exact .empty
      | none =>
          rw [strDup, Env.strDup]
          by_cases hcrash : env.prx = false ∧ env.strdupNull = false
          · rw [if_pos hcrash, if_pos ⟨rfl, hcrash⟩]
            exact .failure
          · rw [if_neg hcrash, if_neg fun h => hcrash h.2]
            exact .pure (zero_add _).ge
  | some p =>
      cases str with
      | none => exact .empty
      | some str =>
          rw [Env.strDup, if_neg fun h => Option.some_ne_none str h.1]
          refine .silent (add_zero _).ge (follows_copyString p str) fun copy => ?_
          exact .pure (add_zero _).subset

theorem parseQuotedString_eq (str : CString) :
    GamePatch.parseQuotedString str =
      ((strchr '"' str).bind fun start => quotedBody start.tail).map unescapeString := by
  rw [GamePatch.parseQuotedString]
  cases strchr '"' str with
  | none => rfl
  | some start => rfl

/-- The copy that is unescaped is gone afterwards. -/
theorem follows_parseQuotedString (str : CString) :
    Follows 0 (parseQuotedString str) (some (GamePatch.parseQuotedString str)) pointsTo := by
  rw [parseQuotedString, parseQuotedString_eq]
  cases (strchr '"' str).bind fun start => quotedBody start.tail with
  | none => exact .pure subset_rfl
  | some body =>
      refine .silent (add_zero _).ge (follows_malloc (Block.string body)) fun escaped => ?_
      refine .read (.left (.refl _) _) (reads_loadString escaped body) ?_
      refine .silent (zero_add _).ge (follows_malloc (Block.string (unescapeString body)))
        fun result => ?_
      refine .silent (R := stringAt result (unescapeString body)) (Eq.subset ?_)
        (follows_free escaped (Block.string body)) fun _ => ?_
      · abel
      · exact .pure (zero_add _).subset

/-! ## Items -/

abbrev eachString : List ℕ → List CString → Assertion Block := each stringAt

/-- A closed item at the position. -/
def Closed (rest seen rest' : CString) : Prop := scanItem '"' rest = (seen, '"' :: rest')

theorem readItem_closed {rest seen rest' : CString} (h : Closed rest seen rest') :
    readItem ('"' :: rest) = do
      let item ← parseQuotedString ('"' :: seen ++ ['"'])
      return (item, rest') := by
  rw [readItem, h]
  rfl

theorem plain_readItem_closed {rest seen rest' : CString} (h : Closed rest seen rest') :
    GamePatch.readItem ('"' :: rest) =
      (GamePatch.parseQuotedString ('"' :: seen ++ ['"']), rest') := by
  rw [GamePatch.readItem, h]
  rfl

theorem readItem_open {rest : CString} (h : ∀ seen rest', ¬ Closed rest seen rest') :
    readItem ('"' :: rest) = Pure.pure (none, (scanItem '"' rest).2) := by
  rw [readItem]
  split
  · next hscan => exact (h _ _ hscan).elim
  · next hscan => rw [hscan]

theorem plain_readItem_open {rest : CString} (h : ∀ seen rest', ¬ Closed rest seen rest') :
    GamePatch.readItem ('"' :: rest) = (none, (scanItem '"' rest).2) := by
  rw [GamePatch.readItem]
  split
  · next hscan => exact (h _ _ hscan).elim
  · next hscan => rw [hscan]

theorem readItem_other {pos : CString} (h : ∀ rest, pos ≠ '"' :: rest) :
    readItem pos = Pure.pure (none, pos) := by
  rw [readItem]
  exact h

theorem plain_readItem_other {pos : CString} (h : ∀ rest, pos ≠ '"' :: rest) :
    GamePatch.readItem pos = (none, pos) := by
  rw [GamePatch.readItem]
  exact h

theorem follows_readItem (pos : CString) :
    Follows 0 (readItem pos) (some (GamePatch.readItem pos))
      fun a c => only (a.2 = c.2) (pointsTo a.1 c.1) := by
  by_cases hquote : ∃ rest, pos = '"' :: rest
  · rcases hquote with ⟨rest, rfl⟩
    by_cases hclosed : ∃ seen rest', Closed rest seen rest'
    · rcases hclosed with ⟨seen, rest', hclosed⟩
      rw [readItem_closed hclosed, plain_readItem_closed hclosed]
      refine .silent (add_zero _).ge (follows_parseQuotedString _) fun item => ?_
      exact .pure (subset_only rfl (add_zero _).subset)
    · have hopen : ∀ seen rest', ¬ Closed rest seen rest' :=
        fun seen rest' h => hclosed ⟨seen, rest', h⟩
      rw [readItem_open hopen, plain_readItem_open hopen]
      exact .pure (subset_only rfl subset_rfl)
  · have hother : ∀ rest, pos ≠ '"' :: rest := fun rest h => hquote ⟨rest, h⟩
    rw [readItem_other hother, plain_readItem_other hother]
    exact .pure (subset_only rfl subset_rfl)

/-- The strings stored are those of the plain loop, each in a block of its own. -/
theorem follows_itemLoop (fuel n : ℕ) (pos : CString) :
    Follows 0 (itemLoop fuel n pos) (some (GamePatch.itemLoop fuel n pos)) eachString := by
  induction fuel generalizing n pos with
  | zero => exact .pure subset_rfl
  | succ fuel ih =>
      cases n with
      | zero => exact .pure subset_rfl
      | succ n =>
          rw [itemLoop, GamePatch.itemLoop]
          cases pos.dropWhile isspace with
          | nil => exact .pure subset_rfl
          | cons c rest =>
              refine .silent (add_zero _).ge (follows_readItem (c :: rest)) fun read => ?_
              rcases read with ⟨item, pos'⟩
              cases hread : GamePatch.readItem (c :: rest) with
              | mk str pos'' =>
                  rw [only_add]
                  refine .of_only fun hpos => ?_
                  cases hpos
                  simp only [hread]
                  refine .of_optional (fun hitem hstr => ?_) fun p str' hitem hstr => ?_
                  · rw [hitem, hstr]
                    exact ih _ _
                  · rw [hitem, hstr]
                    refine .silent (add_comm _ _).subset (ih _ _) fun ps => ?_
                    exact .pure (add_comm _ _).subset

theorem follows_parseItems (maxItems : ℕ) (str : CString) :
    Follows 0 (parseItems maxItems str) (some (GamePatch.parseItems maxItems str)) eachString := by
  have hplain : GamePatch.parseItems maxItems str =
      ((strchr '[' (str.take maxLineLength)).bind fun start => listBody false start.tail).elim []
        fun body => GamePatch.itemLoop (body.length + 1) maxItems body := by
    rw [GamePatch.parseItems]
    cases strchr '[' (str.take maxLineLength) with
    | none => rfl
    | some start =>
        rw [Option.bind_some]
        cases hbody : listBody false start.tail with
        | none => simp only [hbody, Option.elim_none]
        | some body => simp only [hbody, Option.elim_some]
  rw [parseItems, hplain]
  cases (strchr '[' (str.take maxLineLength)).bind fun start => listBody false start.tail with
  | none => exact .pure subset_rfl
  | some body => exact follows_itemLoop _ _ _

/-! ## Arrays -/

/-- An array with room for `size` elements, or a null pointer without any. -/
def bufferAt : Option ℕ → ℕ → Assertion Block
  | some p, size => cell p (.array size)
  | none, 0 => 0
  | none, _ + 1 => ∅

variable {α γ : Type}

/-- An array with the elements stored in it. -/
def Table.holds (P : α → γ → Assertion Block) (table : Table α) (size : ℕ) (cs : List γ) :
    Assertion Block :=
  only (cs.length ≤ size) (bufferAt table.buffer size + each P table.elems cs)

theorem reads_size (table : Table α) (size : ℕ) :
    Reads (bufferAt table.buffer size) table.size (some size) := by
  rw [Table.size]
  cases table.buffer with
  | some p => exact reads_loadArray p size
  | none =>
      cases size with
      | zero => exact .pure _ _
      | succ size => exact .empty

/-- Elements can be stored and looked at as far as the array has room for them. -/
theorem reads_access (P : α → γ → Assertion Block) (table : Table α) (as : List α) (cs : List γ)
    (size : ℕ) : Reads (bufferAt table.buffer size + each P as cs) (table.access as)
      (if cs.length ≤ size then some as else none) := by
  rintro h _ r ⟨m₁, hm₁, m₂, hm₂, rfl⟩ hblocks
  have hsize := reads_size table size hm₁ (hblocks.trans (add_assoc m₁ m₂ r))
  rw [Table.access, bind_apply, hsize, ← length_of_each hm₂]
  change (if as.length ≤ size then Pure.pure as else Alternative.failure : HeapM Block _) h = _
  split
  · rfl
  · rfl

theorem follows_freeElems {P : α → γ → Assertion Block} {freeElem : α → HeapM Block Unit}
    (hfree : ∀ a c, Follows (P a c) (freeElem a) (some ()) fun _ _ => 0) (table : Table α)
    (size : ℕ) (cs : List γ) :
    Follows (table.holds P size cs) (table.freeElems freeElem) (some ())
      fun _ _ => bufferAt table.buffer size := by
  refine .of_only fun hsize => ?_
  have haccess := reads_access P table table.elems cs size
  rw [if_pos hsize] at haccess
  refine .read (.refl _) haccess ?_
  have hloop := (Follows.forM_each hfree table.elems cs).frame (bufferAt table.buffer size)
  rw [add_comm (bufferAt _ _)]
  exact hloop.mono subset_rfl fun _ _ => (zero_add _).subset

theorem follows_free_table {P : α → γ → Assertion Block} {freeElem : α → HeapM Block Unit}
    (hfree : ∀ a c, Follows (P a c) (freeElem a) (some ()) fun _ _ => 0) (table : Table α)
    (size : ℕ) (cs : List γ) :
    Follows (table.holds P size cs) (table.free freeElem) (some ()) fun _ _ => 0 := by
  cases hbuffer : table.buffer with
  | some p =>
      have hprog : table.free freeElem = (do
          table.freeElems freeElem
          Heap.free p) := by
        rw [Table.free, hbuffer]
      rw [hprog]
      refine .silent (add_zero _).ge (follows_freeElems hfree table size cs) fun _ => ?_
      rw [hbuffer, add_zero]
      exact follows_free p _
  | none =>
      have hprog : table.free freeElem = pure () := by
        rw [Table.free, hbuffer]
      rw [hprog]
      refine .of_only fun hsize => .pure ?_
      rintro _ ⟨m₁, hm₁, m₂, hm₂, rfl⟩
      rw [hbuffer] at hm₁
      cases size with
      | succ size => exact hm₁.elim
      | zero =>
          rw [List.length_eq_zero_iff.mp (Nat.le_zero.mp hsize)] at hm₂
          cases helems : table.elems with
          | nil =>
              rw [helems] at hm₂
              rw [show m₁ = 0 from hm₁, show m₂ = 0 from hm₂]
              rfl
          | cons a as =>
              rw [helems] at hm₂
              exact hm₂.elim

theorem follows_mallocArray (ok : Bool) (size : ℕ) :
    Follows 0 (mallocArray ok size) (some ())
      fun buffer _ => only (buffer.isSome = ok) (bufferAt buffer (if ok then size else 0)) := by
  cases ok with
  | false => exact .pure (subset_only rfl subset_rfl)
  | true =>
      rw [mallocArray, if_pos rfl]
      refine .silent (add_zero _).ge (follows_malloc (Block.array size)) fun p => ?_
      exact .pure (subset_only rfl (add_zero _).subset)

theorem follows_freeBuffer (buffer : Option ℕ) (size : ℕ) :
    Follows (bufferAt buffer size) (freeOptional buffer) (some ()) fun _ _ => 0 := by
  cases buffer with
  | some p => exact follows_free p _
  | none =>
      cases size with
      | zero => exact .pure subset_rfl
      | succ size => exact .empty

theorem follows_realloc (buffer : Option ℕ) (size size' : ℕ) :
    Follows (bufferAt buffer size) (realloc buffer size') (some ())
      fun p _ => bufferAt (some p) size' := by
  refine .silent (zero_add _).ge (follows_malloc (Block.array size')) fun p => ?_
  refine .silent (add_comm _ _).subset (follows_freeBuffer buffer size) fun _ => ?_
  exact .pure (zero_add _).subset

/-- A growing array as the parser has it. Its capacity never lags behind its buffer. -/
def GrowArray.holds (P : α → γ → Assertion Block) (a : GrowArray α)
    (a' : GamePatch.GrowArray γ) : Assertion Block :=
  only (a.capacity = a'.capacity ∧ a'.allocated ≤ a'.capacity)
    (a.toTable.holds P a'.allocated a'.elems)

theorem isFull_eq {P : α → γ → Assertion Block} {a : GrowArray α} {a' : GamePatch.GrowArray γ}
    {m : Multiset (ℕ × Block)} (hm : m ∈ a.holds P a') : a.isFull = a'.isFull := by
  rcases hm with ⟨⟨hcapacity, _⟩, _, _, _, m', hm', _⟩
  rw [GrowArray.isFull, GamePatch.GrowArray.isFull, hcapacity, length_of_each hm']

theorem follows_grow {P : α → γ → Assertion Block} (a : GrowArray α)
    (a' : GamePatch.GrowArray γ) (ok : Bool) :
    Follows (a.holds P a') (a.grow ok) (some ()) fun b _ => b.holds P (a'.grow ok) := by
  refine .of_only fun hroom => .of_only fun hlength => ?_
  obtain ⟨hcapacity, hallocated⟩ := hroom
  cases ok with
  | false =>
      refine .pure (subset_only ⟨?_, ?_⟩ (subset_only hlength subset_rfl))
      · exact congrArg (· * 2) hcapacity
      · exact hallocated.trans (Nat.le_mul_of_pos_right _ (by decide))
  | true =>
      rw [GrowArray.grow, if_pos rfl]
      refine .silent subset_rfl (follows_realloc a.buffer a'.allocated (a.capacity * 2))
        fun p => ?_
      refine .pure (subset_only ⟨congrArg (· * 2) hcapacity, le_refl _⟩ (subset_only ?_ ?_))
      · exact (hlength.trans hallocated).trans (Nat.le_mul_of_pos_right _ (by decide))
      · rw [hcapacity]
        exact subset_rfl

/-- What the parser makes of an array before it stores one more element. -/
def roomy (a : GamePatch.GrowArray γ) : GamePatch.GrowArray γ :=
  if a.isFull then a.grow true else a

theorem follows_makeRoom {P : α → γ → Assertion Block} (a : GrowArray α)
    (a' : GamePatch.GrowArray γ) :
    Follows (a.holds P a') a.makeRoom (some ()) fun b _ => b.holds P (roomy a') := by
  refine .of_mem (fun m hm => isFull_eq hm) fun hfull => ?_
  rw [GrowArray.makeRoom, roomy, hfull]
  split
  · exact follows_grow a a' true
  · exact .pure subset_rfl

theorem reads_place {P : α → γ → Assertion Block} (a : GrowArray α)
    (a' : GamePatch.GrowArray γ) :
    Reads (a.holds P a') a.place (if a'.elems.length < a'.allocated then some () else none) := by
  rintro h _ r ⟨hcapacity, hlength, m₁, hm₁, m₂, hm₂, rfl⟩ hblocks
  have hsize := reads_size a.toTable a'.allocated hm₁ (hblocks.trans (add_assoc m₁ m₂ r))
  rw [GrowArray.place, bind_apply, hsize, ← length_of_each hm₂]
  change (if a.elems.length < a'.allocated then Pure.pure () else Alternative.failure :
    HeapM Block _) h = _
  split
  · rfl
  · rfl

theorem append_holds (P : α → γ → Assertion Block) (a : GrowArray α)
    (a' : GamePatch.GrowArray γ) (x : α) (x' : γ) (hplace : a'.elems.length < a'.allocated) :
    a.holds P a' + P x x' ⊆ (a.append x).holds P { a' with elems := a'.elems ++ [x'] } := by
  rw [GrowArray.holds, only_add, Table.holds, only_add, add_assoc]
  rintro m ⟨hcapacity, _, hm⟩
  refine ⟨hcapacity, ?_, Set.add_subset_add_left (Eq.trans_subset ?_ (each_append P _ _ _ _)) hm⟩
  · rw [List.length_append, List.length_singleton]
    exact hplace
  · rw [each_cons, each_nil, add_zero]

theorem follows_push {P : α → γ → Assertion Block} (a : GrowArray α)
    (a' : GamePatch.GrowArray γ) (x : α) (x' : γ) :
    Follows (a.holds P a' + P x x') (a.push x) (a'.push x') fun b b' => b.holds P b' := by
  have hspec : a'.push x' = (if a'.elems.length < a'.allocated then some () else none) >>=
      fun _ => some { a' with elems := a'.elems ++ [x'] } := by
    rw [GamePatch.GrowArray.push]
    split
    · rfl
    · rfl
  rw [hspec]
  refine .look (.left (.refl _) _) (reads_place a a') fun _ hplace => ?_
  rw [Option.ite_none_right_eq_some] at hplace
  exact .pure (append_holds P a a' x x' hplace.1)

end GamePatch.Pointers
