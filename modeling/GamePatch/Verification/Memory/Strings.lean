import GamePatch.Model.Memory
import GamePatch.Verification.Parser.Bodies

/-! # Quoted strings in memory

Each loop over a string is followed along the text that stands in its buffer. It
stops at the zero behind the text at the latest, so every cell it looks at is there,
and it stops where the function on the text does. -/

namespace GamePatch.Memory

open Buffer

variable {cells : Cells} {pos : ℕ} {c : Char} {text : CString}

/-! ## Escapes -/

theorem digitLoop_eq (digit : Char → Option ℕ) (base n : ℕ) :
    ∀ {pos text} (value digits : ℕ), Holds '\x00' cells pos text →
      digitLoop digit base cells n value digits pos =
        some (GamePatch.digitLoop digit base n value digits text) := by
  induction n with
  | zero => exact fun _ _ _ => rfl
  | succ n ih =>
      intro pos text value digits h
      cases text with
      | nil => simp [digitLoop, GamePatch.digitLoop, h.read_nil]
      | cons c text =>
          cases hdigit : digit c with
          | none => simp [digitLoop, GamePatch.digitLoop, h.read_cons, h.ne_zero, hdigit]
          | some d =>
              simp [digitLoop, GamePatch.digitLoop, h.read_cons, h.ne_zero, hdigit, ih _ _ h.tail]

theorem unescapeOctal_eq (h : Holds '\x00' cells pos (c :: text)) :
    unescapeOctal cells pos = some (GamePatch.unescapeOctal text) := by
  simp [unescapeOctal, GamePatch.unescapeOctal, digitLoop_eq _ _ _ _ _ h.tail]

/-- Nothing is read behind the zero, not even after a backslash at the end. -/
theorem unescapeChar_eq (h : Holds '\x00' cells pos (c :: text)) :
    unescapeChar cells pos = some (GamePatch.unescapeChar (c :: text)) := by
  by_cases hslash : c = '\\'
  · subst hslash
    rw [GamePatch.unescapeChar]
    cases text with
    | nil =>
        have hnext := h.tail.read_nil
        simp [unescapeChar, h.read_cons, hnext, unescapeAfterBackslash, parseOctalDigit]
    | cons d rest =>
        have hnext := h.tail.read_cons
        have hoctal := unescapeOctal_eq h
        unfold unescapeChar unescapeAfterBackslash
        simp only [h.read_cons, hnext, Option.bind_eq_bind, Option.bind_some, ne_eq,
          not_true_eq_false, if_false]
        split
        case h_8 =>
            cases rest with
            | nil => simp [h.tail.tail.read_nil]
            | cons e rest =>
                have hread := h.tail.tail.read_cons
                cases hdigit : isdigit e <;> simp [hread, h.tail.tail.ne_zero, hdigit, hoctal]
        case h_9 =>
            rw [digitLoop_eq _ _ _ _ _ h.tail.tail]
            rfl
        case h_10 =>
            cases (parseOctalDigit d).isSome <;> simp [hoctal]
        all_goals rfl
  · simp [unescapeChar, h.read_cons, hslash, GamePatch.unescapeChar]

/-- Where the loop of `unescape_string` stands: the text still to read, or behind the
zero after an escape that the end of the string cuts off. -/
def Unread (str : Cells) (len src : ℕ) (text : CString) : Prop :=
  (Holds '\x00' str src text ∧ src + text.length = len) ∨ (text = [] ∧ len ≤ src)

theorem Unread.drop {str : Cells} {len src : ℕ} (h : Holds '\x00' str src text)
    (hlen : src + text.length = len) (n : ℕ) : Unread str len (src + n) (text.drop n) := by
  by_cases hn : n ≤ text.length
  · have hsplit := List.take_append_drop n text
    have htake := List.length_take_of_le hn
    rw [← hsplit] at h
    have hrest := h.append
    rw [htake] at hrest
    refine .inl ⟨hrest, ?_⟩
    rw [List.length_drop]
    omega
  · refine .inr ⟨?_, ?_⟩
    · exact List.drop_eq_nil_of_le (by omega)
    · omega

/-- The last round writes the zero. -/
theorem unescapeLoop_nil {str : Cells} {len src : ℕ} (h : Unread str len src []) (fuel : ℕ)
    (done : Cells) (x : Char) (stale : Cells) :
    unescapeLoop str len (fuel + 1) src done.length (done ++ x :: stale) =
      some (done ++ '\x00' :: stale) := by
  have hend : len ≤ src := by
    rcases h with ⟨-, hlen⟩ | ⟨-, hlen⟩
    · exact Nat.le_of_eq hlen.symm
    · exact hlen
  rw [unescapeLoop, if_neg (Nat.not_lt_of_le hend), write_append]

/-- The result grows by one character each round, and the text shrinks by at least one. -/
theorem unescapeLoop_eq (str : Cells) (len : ℕ) : ∀ (fuel : ℕ) {text : CString} {src : ℕ}
    (done stale : Cells), Unread str len src text → text.length ≤ fuel →
      text.length < stale.length →
      ∃ behind, unescapeLoop str len (fuel + 1) src done.length (done ++ stale) =
        some (done ++ GamePatch.unescapeLoop fuel text ++ '\x00' :: behind) := by
  intro fuel
  induction fuel with
  | zero =>
      intro text src done stale h hfuel hroom
      obtain rfl : text = [] := List.eq_nil_of_length_eq_zero (Nat.le_zero.mp hfuel)
      rcases List.exists_cons_of_length_pos hroom with ⟨x, stale, rfl⟩
      refine ⟨stale, ?_⟩
      rw [unescapeLoop_nil h, GamePatch.unescapeLoop, List.append_nil]
  | succ fuel ih =>
      intro text src done stale h hfuel hroom
      cases text with
      | nil =>
          rcases List.exists_cons_of_length_pos hroom with ⟨x, stale, rfl⟩
          refine ⟨stale, ?_⟩
          rw [unescapeLoop_nil h, GamePatch.unescapeLoop, List.append_nil]
      | cons c text =>
          rcases h.resolve_right (by simp) with ⟨hholds, hlen⟩
          rcases List.exists_cons_of_length_pos (Nat.zero_lt_of_lt hroom) with ⟨x, stale, rfl⟩
          have hpos := unescapeChar_pos (c :: text)
          have hread := unescapeChar_eq hholds
          have hunread := Unread.drop hholds hlen (GamePatch.unescapeChar (c :: text)).2
          simp only [List.length_cons] at hlen hfuel hroom
          obtain ⟨behind, hrest⟩ := ih (done ++ [(GamePatch.unescapeChar (c :: text)).1]) stale
            hunread (by rw [List.length_drop, List.length_cons]; omega)
            (by rw [List.length_drop, List.length_cons]; omega)
          refine ⟨behind, ?_⟩
          rw [unescapeLoop, if_pos (by omega), hread, GamePatch.unescapeLoop]
          simp only [Option.bind_eq_bind, Option.bind_some, write_append]
          simpa using hrest

/-- `unescape_string` reads no cell behind the zero and stays in a block with one
more cell than the string has characters. -/
theorem unescapeString_eq (m : Allocation) (h : Holds '\x00' cells 0 text) :
    ∃ result, unescapeString m cells = some result ∧
      (m.result = true → result = some (GamePatch.unescapeString text)) := by
  cases hresult : m.result with
  | false => exact ⟨none, by simp [unescapeString, h.strlen_eq, hresult], nofun⟩
  | true =>
      obtain ⟨behind, hloop⟩ := unescapeLoop_eq cells text.length text.length []
        (m.fresh (text.length + 1)) (.inl ⟨h, Nat.zero_add _⟩) (Nat.le_refl _)
        (by simp [Allocation.fresh])
      refine ⟨_, ?_, fun _ => rfl⟩
      rw [List.length_nil, List.nil_append, List.nil_append] at hloop
      simp only [unescapeString, h.strlen_eq, hresult, if_true, Option.bind_eq_bind,
        Option.bind_some, hloop, cstring_append_zero]
      rfl

/-! ## Scans for a closing mark -/

theorem startsEscape_pair (h : Holds '\x00' cells pos ('\\' :: c :: text)) :
    startsEscape cells pos '\\' = some true := by
  simp [startsEscape, h.tail.read_cons, h.tail.ne_zero]

theorem startsEscape_plain (h : Holds '\x00' cells pos (c :: text))
    (hplain : ∀ d rest, c = '\\' → text = d :: rest → False) :
    startsEscape cells pos c = some false := by
  by_cases hslash : c = '\\'
  · cases text with
    | nil => simp [startsEscape, hslash, h.tail.read_nil]
    | cons d rest => exact absurd rfl (hplain d rest hslash)
  · simp [startsEscape, hslash]

/-- A scan over `text` that finds the mark behind `body` stops there, and at the end
when there is no such mark. -/
def StopsAfter (mark : Char) (text : CString) (body : Option CString) (n : ℕ) : Prop :=
  match body with
  | some body => (∃ rest, text = body ++ mark :: rest) ∧ n = body.length
  | none => n = text.length

theorem StopsAfter.cons {mark : Char} {body : Option CString} {n : ℕ}
    (h : StopsAfter mark text body n) (c : Char) :
    StopsAfter mark (c :: text) (body.map fun body => c :: body) (n + 1) := by
  cases body with
  | none => exact congrArg (· + 1) h
  | some body =>
      rcases h with ⟨⟨rest, htext⟩, hn⟩
      exact ⟨⟨rest, congrArg (c :: ·) htext⟩, congrArg (· + 1) hn⟩

/-- The character at which the scan stops tells whether the mark was found. -/
theorem StopsAfter.read {mark : Char} {body : Option CString} {n : ℕ}
    (h : StopsAfter mark text body n) (hholds : Holds '\x00' cells pos text) :
    Buffer.read cells (pos + n) = some (if body.isSome then mark else '\x00') := by
  cases body with
  | none =>
      obtain rfl : n = text.length := h
      exact (Holds.append (by rwa [List.append_nil])).read_nil
  | some body =>
      rcases h with ⟨⟨rest, rfl⟩, rfl⟩
      exact hholds.append.read_cons

theorem StopsAfter.escape {mark : Char} {body : Option CString} {n : ℕ}
    (h : StopsAfter mark text body n) (c d : Char) :
    StopsAfter mark (c :: d :: text) (body.map fun body => c :: d :: body) (n + 2) := by
  have htwo := (h.cons d).cons c
  rwa [Option.map_map] at htwo

theorem exists_succ_of_lt {m n : ℕ} (h : m < n) : ∃ k, n = k + 1 :=
  Nat.exists_eq_succ_of_ne_zero (Nat.ne_zero_of_lt h)

theorem closingQuote_eq (text : CString) : ∀ {pos fuel}, Holds '\x00' cells pos text →
    text.length < fuel → ∃ n, closingQuote cells fuel pos = some (pos + n) ∧
      StopsAfter '"' text (quotedBody text) n := by
  fun_induction quotedBody text with
  | case1 =>
      intro pos fuel h hfuel
      rcases exists_succ_of_lt hfuel with ⟨fuel, rfl⟩
      refine ⟨0, ?_, rfl⟩
      simp [closingQuote, h.read_nil]
  | case2 c rest ih =>
      intro pos fuel h hfuel
      rcases exists_succ_of_lt hfuel with ⟨fuel, rfl⟩
      simp only [List.length_cons] at hfuel
      rcases ih h.tail.tail (show rest.length < fuel by omega) with ⟨n, hrest, hstops⟩
      refine ⟨n + 2, ?_, hstops.escape '\\' c⟩
      simp only [closingQuote, h.read_cons, h.ne_zero, startsEscape_pair h, if_true, if_false,
        hrest, Option.bind_eq_bind, Option.bind_some]
      exact congrArg some (by omega)
  | case3 rest =>
      intro pos fuel h hfuel
      rcases exists_succ_of_lt hfuel with ⟨fuel, rfl⟩
      refine ⟨0, ?_, ⟨rest, rfl⟩, rfl⟩
      simp [closingQuote, h.read_cons, startsEscape_plain h]
  | case4 c rest hescape hquote ih =>
      intro pos fuel h hfuel
      rcases exists_succ_of_lt hfuel with ⟨fuel, rfl⟩
      rw [List.length_cons] at hfuel
      rcases ih h.tail (show rest.length < fuel by omega) with ⟨n, hrest, hstops⟩
      refine ⟨n + 1, ?_, hstops.cons c⟩
      simp only [closingQuote, h.read_cons, h.ne_zero, startsEscape_plain h hescape, if_false,
        if_neg hquote, hrest, Option.bind_eq_bind, Option.bind_some, Bool.false_eq_true]
      exact congrArg some (by omega)

/-! ## Quoted strings -/

/-- Both allocations are served. -/
def Allocation.Succeeds (m : Allocation) : Prop := m.escaped = true ∧ m.result = true

theorem parseQuotedString_eq (m : Allocation) (h : Holds '\x00' cells 0 text) :
    ∃ result, parseQuotedString m cells = some result ∧
      (m.Succeeds → result = GamePatch.parseQuotedString text) := by
  by_cases hmem : '"' ∈ text
  · rcases List.eq_append_cons_of_mem hmem with ⟨before, rest, rfl, hbefore⟩
    have hlist := strchr_append (b := rest) hbefore
    have hquote := h.strchr_found hbefore
    have hstart := h.append.tail
    rw [Nat.zero_add] at hquote hstart
    rcases closingQuote_eq rest hstart hstart.length_lt with ⟨n, hscan, hstops⟩
    have hread := hstops.read hstart
    cases hbody : quotedBody rest with
    | none =>
        refine ⟨none, ?_, fun _ => ?_⟩
        · rw [hbody] at hread
          simp [parseQuotedString, hquote, hscan, hread]
        · simp [GamePatch.parseQuotedString, hlist, hbody]
    | some body =>
        rw [hbody] at hread hstops
        rcases hstops with ⟨⟨behind, rfl⟩, rfl⟩
        cases hescaped : m.escaped with
        | false =>
            refine ⟨none, ?_, fun hm => absurd hm.1 (by simp [hescaped])⟩
            simp [parseQuotedString, hquote, hscan, hread, hescaped]
        | true =>
            obtain ⟨copy, escaped, hcopy, hzero, hholds⟩ := hstart.strncpy_write
              (m.fresh (body.length + 1)) (by simp [Allocation.fresh])
            rcases unescapeString_eq m hholds with ⟨result, hresult, hvalue⟩
            refine ⟨result, ?_, fun hm => ?_⟩
            · simp [parseQuotedString, hquote, hscan, hread, hescaped, hcopy, hzero, hresult]
            · rw [hvalue hm.2]
              simp [GamePatch.parseQuotedString, hlist, hbody]
  · refine ⟨none, ?_, fun _ => ?_⟩
    · simp [parseQuotedString, h.strchr_missing (by decide) hmem]
    · simp [GamePatch.parseQuotedString, strchr_not_mem hmem]

end GamePatch.Memory
