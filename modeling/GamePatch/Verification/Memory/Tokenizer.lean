import GamePatch.Verification.Memory.Strings

/-! # Bracketed lists in memory

The tokenizers cut their text to a buffer, end it at the closing bracket and copy
each item to a buffer of its own. -/

namespace GamePatch.Memory

open Buffer

variable {cells : Cells} {pos : ℕ} {c : Char} {text : CString}

/-! ## Scans -/

theorem closingBracket_eq (inQuote : Bool) (text : CString) : ∀ {pos fuel},
    Holds '\x00' cells pos text → text.length < fuel →
      ∃ n, closingBracket cells fuel inQuote pos = some (pos + n) ∧
        StopsAfter ']' text (listBody inQuote text) n := by
  fun_induction listBody inQuote text with
  | case1 inQuote =>
      intro pos fuel h hfuel
      rcases exists_succ_of_lt hfuel with ⟨fuel, rfl⟩
      refine ⟨0, ?_, rfl⟩
      simp [closingBracket, h.read_nil]
  | case2 inQuote c rest ih =>
      intro pos fuel h hfuel
      rcases exists_succ_of_lt hfuel with ⟨fuel, rfl⟩
      simp only [List.length_cons] at hfuel
      rcases ih h.tail.tail (show rest.length < fuel by omega) with ⟨n, hrest, hstops⟩
      refine ⟨n + 2, ?_, hstops.escape '\\' c⟩
      simp only [closingBracket, h.read_cons, h.ne_zero, startsEscape_pair h, if_true, if_false,
        hrest, Option.bind_eq_bind, Option.bind_some]
      exact congrArg some (by omega)
  | case3 inQuote rest _ ih =>
      intro pos fuel h hfuel
      rcases exists_succ_of_lt hfuel with ⟨fuel, rfl⟩
      rw [List.length_cons] at hfuel
      rcases ih h.tail (show rest.length < fuel by omega) with ⟨n, hrest, hstops⟩
      refine ⟨n + 1, ?_, hstops.cons '"'⟩
      simp only [closingBracket, h.read_cons, h.ne_zero, startsEscape_plain h (by simp), if_false,
        if_true, hrest, Option.bind_eq_bind, Option.bind_some, Bool.false_eq_true]
      rw [if_neg (by simp)]
      exact congrArg some (by omega)
  | case4 inQuote c rest hescape hquote hclose =>
      intro pos fuel h hfuel
      rcases exists_succ_of_lt hfuel with ⟨fuel, rfl⟩
      refine ⟨0, ?_, ⟨rest, by rw [hclose.2]; rfl⟩, rfl⟩
      simp only [closingBracket, h.read_cons, h.ne_zero, startsEscape_plain h hescape, if_false,
        if_neg hquote, if_pos hclose, Option.bind_eq_bind, Option.bind_some, Bool.false_eq_true]
      rfl
  | case5 inQuote c rest hescape hquote hopen ih =>
      intro pos fuel h hfuel
      rcases exists_succ_of_lt hfuel with ⟨fuel, rfl⟩
      rw [List.length_cons] at hfuel
      rcases ih h.tail (show rest.length < fuel by omega) with ⟨n, hrest, hstops⟩
      refine ⟨n + 1, ?_, hstops.cons c⟩
      simp only [closingBracket, h.read_cons, h.ne_zero, startsEscape_plain h hescape, if_false,
        if_neg hquote, if_neg hopen, hrest, Option.bind_eq_bind, Option.bind_some,
        Bool.false_eq_true]
      exact congrArg some (by omega)

/-- The scan looks at the character before a quote. -/
theorem scanItem_eq (prev : Char) (text : CString) : ∀ {pos fuel}, Holds '\x00' cells pos text →
    readBefore cells pos = some prev → text.length < fuel →
      scanItem cells fuel pos = some (pos + (GamePatch.scanItem prev text).1.length) := by
  fun_induction GamePatch.scanItem prev text with
  | case1 prev =>
      intro pos fuel h hprev hfuel
      rcases exists_succ_of_lt hfuel with ⟨fuel, rfl⟩
      simp [scanItem, h.read_nil]
  | case2 prev c rest seen rest' hscan ih =>
      intro pos fuel h hprev hfuel
      rcases exists_succ_of_lt hfuel with ⟨fuel, rfl⟩
      simp only [List.length_cons] at hfuel
      have hrest := ih h.tail.tail h.tail.readBefore_tail (show rest.length < fuel by omega)
      rw [hscan] at hrest
      have hcloses : closesItem cells pos '\\' = some false := by simp [closesItem]
      simp only [scanItem, h.read_cons, h.ne_zero, hcloses, startsEscape_pair h, if_true,
        if_false, Bool.false_eq_true, Option.bind_eq_bind, Option.bind_some, hrest]
      exact congrArg some (by simp only [List.length_cons]; omega)
  | case3 prev c rest hescape h' =>
      intro pos fuel h hprev hfuel
      rcases exists_succ_of_lt hfuel with ⟨fuel, rfl⟩
      have hcloses : closesItem cells pos c = some true := by simp [closesItem, h'.1, hprev, h'.2]
      simp [scanItem, h.read_cons, h.ne_zero, hcloses]
  | case4 prev c rest hescape hopen seen rest' hscan ih =>
      intro pos fuel h hprev hfuel
      rcases exists_succ_of_lt hfuel with ⟨fuel, rfl⟩
      rw [List.length_cons] at hfuel
      have hrest := ih h.tail h.readBefore_tail (show rest.length < fuel by omega)
      rw [hscan] at hrest
      have hcloses : closesItem cells pos c = some false := by
        by_cases hquote : c = '"'
        · have hprev' : prev = '\\' := by
            by_contra hne
            exact hopen ⟨hquote, hne⟩
          simp [closesItem, hquote, hprev, hprev']
        · simp [closesItem, hquote]
      simp only [scanItem, h.read_cons, h.ne_zero, hcloses, startsEscape_plain h hescape,
        if_false, Bool.false_eq_true, Option.bind_eq_bind, Option.bind_some, hrest]
      exact congrArg some (by simp only [List.length_cons]; omega)

/-! ## Items -/

/-- The strings counted in the table. -/
structure Output.Stores (output : Output) (items : List CString) : Prop where
  count : output.count = items.length
  strings : output.strings.take items.length = items.map some

theorem Output.Stores.store {output : Output} {items : List CString} (h : output.Stores items)
    (hroom : output.count < output.strings.length) (item : Option CString) :
    ∃ output', output.store item = some output' ∧
      output'.strings.length = output.strings.length ∧ output'.Stores (items ++ item.toList) := by
  have hwrite : write output.strings output.count item =
      some (output.strings.set output.count item) := if_pos hroom
  rw [h.count] at hwrite hroom
  refine ⟨⟨output.strings.set items.length item,
    if item.isSome then items.length + 1 else items.length⟩, ?_, List.length_set, ?_, ?_⟩
  · simp only [Output.store, h.count, hwrite, Option.bind_eq_bind, Option.bind_some]
    rfl
  · cases item <;> simp
  · have hkept : (output.strings.set items.length item).take items.length = items.map some :=
      (List.take_set_of_le (Nat.le_refl _)).trans h.strings
    cases item with
    | none =>
        rw [Option.toList_none, List.append_nil]
        exact hkept
    | some str =>
        rw [Option.toList_some, List.length_append, List.length_singleton, List.map_append,
          List.take_add_one, hkept]
        simp [hroom]

theorem length_lineBuffer : lineBuffer.length = maxLineLength + 1 :=
  List.length_replicate

/-- The copy of an item ends in a zero, written behind it or left from the start. -/
theorem copyItem (zeroBehind : Bool) {text' : CString} (h : Holds '\x00' cells pos (text ++ text'))
    (hroom : text.length ≤ maxLineLength) :
    ∃ copy temp, Buffer.strncpy '\x00' lineBuffer cells pos text.length = some copy ∧
      (if zeroBehind then write copy text.length '\x00' else some copy) = some temp ∧
      Holds '\x00' temp 0 text := by
  have hlt : text.length < lineBuffer.length := by
    rw [length_lineBuffer]
    omega
  cases zeroBehind with
  | true => exact h.strncpy_write _ hlt
  | false =>
      refine ⟨_, _, h.strncpy_prefix _ hlt.le, rfl, ?_⟩
      have hfirst : lineBuffer[text.length] = '\x00' := List.getElem_replicate _
      rw [List.drop_eq_getElem_cons hlt, hfirst]
      exact .of_padded (fun hmem => h.not_mem (List.mem_append_left _ hmem)) _

variable {buffer : Cells} (heap : ℕ → Allocation)

/-- The call ends where the rest of the text starts, with the item stored if its
allocations succeed. -/
def Reads (buffer : Cells) (output : Output) (items : List CString)
    (expected : Option CString × CString) (result : Option (ℕ × Output)) : Prop :=
  ∃ pos output' item, result = some (pos, output') ∧ Holds '\x00' buffer pos expected.2 ∧
    output'.strings.length = output.strings.length ∧ output'.Stores (items ++ item.toList) ∧
    ((∀ i, (heap i).Succeeds) → item = expected.1)

/-- The item at a quote is copied and stored. -/
theorem readItem_eq (zeroBehind : Bool) {quoteStart : ℕ} {rest : CString}
    (h : Holds '\x00' buffer quoteStart ('"' :: rest)) (hbuffer : buffer.length = maxLineLength + 1)
    {output : Output} {items : List CString} (hstores : output.Stores items)
    (hroom : output.count < output.strings.length) :
    Reads heap buffer output items (GamePatch.readItem ('"' :: rest))
      (readItem zeroBehind heap buffer quoteStart output) := by
  have hscan := scanItem_eq '"' rest h.tail h.readBefore_tail h.tail.length_lt
  rcases scanItem_split '"' rest with ⟨hsplit, hend⟩
  rcases hpair : GamePatch.scanItem '"' rest with ⟨seen, rest'⟩
  rw [hpair] at hscan hsplit hend
  dsimp only at hscan hsplit hend
  rcases hend with rfl | ⟨rest', rfl⟩
  · rw [readItem_unclosed hpair]
    rw [List.append_nil] at hsplit
    subst hsplit
    have hseen : Holds '\x00' buffer (quoteStart + 1) (seen ++ []) := by
      rw [List.append_nil]
      exact h.tail
    have hstop := hseen.append
    refine ⟨_, output, none, ?_, hstop, rfl, by simpa using hstores, fun _ => rfl⟩
    simp [readItem, hscan, hstop.read_nil]
  · rw [readItem_closed hpair]
    subst hsplit
    have hitem : '"' :: (seen ++ '"' :: rest') = ('"' :: seen ++ ['"']) ++ rest' := by simp
    have hstop := h.tail.append
    rw [hitem] at h
    have hlt := h.lt_length
    have hlength : ('"' :: seen ++ ['"']).length =
        quoteStart + 1 + seen.length + 1 - quoteStart := by
      simp only [List.length_append, List.length_cons, List.length_nil]
      omega
    rw [List.length_append] at hlt
    rcases copyItem zeroBehind h (by omega) with ⟨copy, temp, hcopy, hzero, htemp⟩
    rcases parseQuotedString_eq (heap quoteStart) htemp with ⟨item, hparse, hvalue⟩
    rcases hstores.store hroom item with ⟨output', hstore, hsame, hstores'⟩
    rw [hlength] at hcopy hzero
    refine ⟨_, output', item, ?_, hstop.tail, hsame, hstores', fun hheap => hvalue (hheap _)⟩
    simp only [readItem, hscan, hstop.read_cons, if_true, hcopy, hzero, hparse, hstore,
      Option.bind_eq_bind, Option.bind_some]
    rfl

/-- The branch for the text at a position, which does nothing where no quote stands. -/
theorem branch_eq (zeroBehind : Bool) {d : Char} {rest : CString}
    (h : Holds '\x00' buffer pos (d :: rest)) (hbuffer : buffer.length = maxLineLength + 1)
    {output : Output} {items : List CString} (hstores : output.Stores items)
    (hroom : output.count < output.strings.length) :
    Reads heap buffer output items (GamePatch.readItem (d :: rest))
      (if d = '"' then readItem zeroBehind heap buffer pos output else some (pos, output)) := by
  by_cases hquote : d = '"'
  · subst hquote
    rw [if_pos rfl]
    exact readItem_eq heap zeroBehind h hbuffer hstores hroom
  · have hread : GamePatch.readItem (d :: rest) = (none, d :: rest) := by
      simp [GamePatch.readItem, hquote]
    rw [if_neg hquote, hread]
    exact ⟨pos, output, none, rfl, h, rfl, by simpa using hstores, fun _ => rfl⟩

/-- Behind the next comma, or at the end. -/
theorem afterComma (h : Holds '\x00' buffer pos text) :
    ∃ pos' e, scan '\x00' (fun c => decide (c ≠ ',')) buffer buffer.length pos = some pos' ∧
      Buffer.read buffer pos' = some e ∧ Holds '\x00' buffer (if e = ',' then pos' + 1 else pos')
        (text.dropWhile fun c => decide (c ≠ ',')).tail := by
  have hstop := h.dropWhile fun c => decide (c ≠ ',')
  cases hrest : text.dropWhile fun c => decide (c ≠ ',') with
  | nil =>
      rw [hrest] at hstop
      exact ⟨_, '\x00', h.scan_cells _, hstop.read_nil, hstop⟩
  | cons e rest =>
      rw [hrest] at hstop
      have hcomma : e = ',' := by
        have hhead := List.head?_dropWhile_not (fun c => decide (c ≠ ',')) text
        rw [hrest] at hhead
        simpa using hhead
      refine ⟨_, e, h.scan_cells _, hstop.read_cons, ?_⟩
      rw [if_pos hcomma]
      exact hstop.tail

/-- The loop ends with more strings behind `items`, which the table has room for and
which are the expected ones as long as allocations succeed. -/
def Leaves (maxItems : ℕ) (output : Output) (items expected : List CString)
    (result : Option Output) : Prop :=
  ∃ output' items', result = some output' ∧
    output'.strings.length = output.strings.length ∧ output'.Stores (items ++ items') ∧
    (items ++ items').length ≤ maxItems ∧ ((∀ i, (heap i).Succeeds) → items' = expected)

variable {heap} {maxItems : ℕ} {output output' : Output} {items expected rest : List CString}
  {result : Option Output}

theorem Leaves.stop (hstores : output.Stores items) (hcount : items.length ≤ maxItems)
    (hresult : result = some output) (hexpected : expected = []) :
    Leaves heap maxItems output items expected result := by
  refine ⟨output, [], hresult, rfl, ?_, ?_, fun _ => hexpected.symm⟩
  · rwa [List.append_nil]
  · rwa [List.append_nil]

/-- One round in front. -/
theorem Leaves.round {item : Option CString}
    (h : Leaves heap maxItems output' (items ++ item.toList) rest result)
    (hlength : output'.strings.length = output.strings.length)
    (hexpected : (∀ i, (heap i).Succeeds) → expected = item.toList ++ rest) :
    Leaves heap maxItems output items expected result := by
  rcases h with ⟨last, items', hresult, hsame, hstores, hcount, hitems⟩
  rw [List.append_assoc] at hstores hcount
  refine ⟨last, item.toList ++ items', hresult, hsame.trans hlength, hstores, hcount, ?_⟩
  intro hheap
  rw [hexpected hheap, hitems hheap]

/-- The loop ends, the table has room for what it stores, and it stores what the loop
over the text does as long as allocations succeed. -/
theorem itemLoop_eq (zeroBehind : Bool) (hbuffer : buffer.length = maxLineLength + 1) :
    ∀ (fuel fuel' : ℕ) {text : CString} {pos : ℕ} {output : Output} {items : List CString},
      Holds '\x00' buffer pos text → text.length < fuel → text.length < fuel' →
      output.Stores items → items.length ≤ maxItems → maxItems ≤ output.strings.length →
      Leaves heap maxItems output items
        (GamePatch.itemLoop fuel' (maxItems - items.length) text)
        (itemLoop zeroBehind heap maxItems buffer fuel pos output) := by
  intro fuel
  induction fuel with
  | zero =>
      intro fuel' text pos output items _ hfuel
      omega
  | succ fuel ih =>
      intro fuel' text pos output items h hfuel hfuel' hstores hcount hroom
      obtain ⟨fuel', rfl⟩ := exists_succ_of_lt hfuel'
      cases text with
      | nil =>
          apply Leaves.stop hstores hcount
          · simp [itemLoop, h.read_nil]
          · cases maxItems - items.length <;> simp [GamePatch.itemLoop]
      | cons c text =>
          by_cases hfull : maxItems ≤ items.length
          · apply Leaves.stop hstores hcount
            · simp [itemLoop, h.read_cons, hstores.count, hfull]
            · rw [Nat.sub_eq_zero_of_le hfull, GamePatch.itemLoop]
          have hless := Nat.lt_of_not_le hfull
          have hcondition : c ≠ '\x00' ∧ output.count < maxItems :=
            ⟨h.ne_zero, hstores.count ▸ hless⟩
          obtain ⟨n, hn⟩ := exists_succ_of_lt (Nat.sub_pos_of_lt hless)
          have hblank := h.scan_cells isspace
          have hskip := h.dropWhile isspace
          have hshort := List.length_dropWhile_le isspace (c :: text)
          cases hrest : (c :: text).dropWhile isspace with
          | nil =>
              rw [hrest] at hskip
              apply Leaves.stop hstores hcount
              · simp [itemLoop, h.read_cons, hcondition, hblank, hskip.read_nil]
              · simp [hn, GamePatch.itemLoop, hrest]
          | cons d rest =>
              rw [hrest] at hskip hshort
              rcases branch_eq heap zeroBehind hskip hbuffer hstores (by omega) with
                ⟨pos₁, output₁, item, hbranch, hholds₁, hlength₁, hstores₁, hitem⟩
              rcases afterComma hholds₁ with ⟨pos₂, e, hcomma, hread, hholds₂⟩
              have hprogress := length_afterItem_le d rest
              have hone : item.toList.length ≤ 1 := Option.length_toList_le
              simp only [List.length_cons] at hshort hfuel hfuel'
              have hloop := ih fuel' hholds₂ (by omega) (by omega) hstores₁
                (by rw [List.length_append]; omega) (by omega)
              have hround : itemLoop zeroBehind heap maxItems buffer (fuel + 1) pos output =
                  itemLoop zeroBehind heap maxItems buffer fuel
                    (if e = ',' then pos₂ + 1 else pos₂) output₁ := by
                simp only [itemLoop, h.read_cons, if_pos hcondition, hblank, hskip.read_cons,
                  if_neg hskip.ne_zero, hbranch, hcomma, hread, Option.bind_eq_bind,
                  Option.bind_some]
              rw [hround]
              apply hloop.round hlength₁
              intro hheap
              rw [hn, GamePatch.itemLoop, hrest, List.length_append]
              dsimp only
              rw [← hitem hheap]
              cases item with
              | none => simp [hn]
              | some str =>
                  have hleft : maxItems - (items.length + 1) = n := by omega
                  simp [hleft]

/-! ## Whole texts -/

/-- The text cut to the buffer, whose last cell stays zero. -/
theorem copyText (h : '\x00' ∉ text) :
    ∃ buffer, Buffer.strncpy '\x00' lineBuffer (text ++ ['\x00']) 0 maxLineLength = some buffer ∧
      buffer.length = maxLineLength + 1 ∧ Holds '\x00' buffer 0 (text.take maxLineLength) := by
  have htail : lineBuffer.drop maxLineLength = ['\x00'] := by simp [lineBuffer]
  have hroom : maxLineLength ≤ lineBuffer.length := by simp [length_lineBuffer]
  have hcopy := (Holds.of_padded h []).strncpy_eq lineBuffer hroom
  rw [htail, List.append_assoc, ← List.replicate_succ', List.replicate_succ] at hcopy
  refine ⟨_, hcopy, ?_, .of_padded (fun hmem => h (List.mem_of_mem_take hmem)) _⟩
  simp only [List.length_append, List.length_take, List.length_cons, List.length_replicate]
  omega

theorem parseItems_eq (heap : ℕ → Allocation) (zeroBehind : Bool) (maxItems : ℕ)
    (h : '\x00' ∉ text) {strings : List (Option CString)} (hroom : maxItems ≤ strings.length) :
    ∃ output, parseItems zeroBehind heap maxItems (text ++ ['\x00']) strings = some output ∧
      output.strings.length = strings.length ∧ output.count ≤ maxItems ∧
      ((∀ i, (heap i).Succeeds) →
        output.strings.take output.count = (GamePatch.parseItems maxItems text).map some) := by
  rcases copyText h with ⟨buffer, hcopy, hlength, hholds⟩
  by_cases hmem : '[' ∈ text.take maxLineLength
  · rcases List.eq_append_cons_of_mem hmem with ⟨before, rest, hsplit, hbefore⟩
    rw [hsplit] at hholds
    have hlist := strchr_append (b := rest) hbefore
    have hbracket := hholds.strchr_found hbefore
    have hstart := hholds.append.tail
    rw [Nat.zero_add] at hbracket hstart
    rcases closingBracket_eq false rest hstart hstart.length_lt with ⟨n, hscan, hstops⟩
    have hread := hstops.read hstart
    cases hbody : listBody false rest with
    | none =>
        rw [hbody] at hread
        refine ⟨⟨strings, 0⟩, ?_, rfl, Nat.zero_le _, fun _ => ?_⟩
        · simp [parseItems, hcopy, hbracket, hscan, hread]
        · simp [GamePatch.parseItems, hsplit, hlist, hbody]
    | some body =>
        rw [hbody] at hread hstops
        rcases hstops with ⟨⟨behind, rfl⟩, rfl⟩
        rcases hstart.cut with ⟨buffer', hwrite, hlength', hholds'⟩
        have hempty : (⟨strings, 0⟩ : Output).Stores [] := ⟨rfl, rfl⟩
        obtain ⟨output, items, hloop, hsame, hstores, hcount, hitems⟩ : Leaves heap _ _ _ _ _ :=
          itemLoop_eq zeroBehind (hlength'.trans hlength) buffer'.length (body.length + 1) hholds'
            hholds'.length_lt (Nat.lt_succ_self _) hempty (Nat.zero_le _) hroom
        rw [List.nil_append] at hstores hcount
        refine ⟨output, ?_, hsame, hstores.count ▸ hcount, fun hheap => ?_⟩
        · simp only [parseItems, hcopy, hbracket, hscan, hread, Option.bind_eq_bind,
            Option.bind_some, Option.isSome_some, if_true, hwrite, ne_eq, not_true_eq_false,
            if_false, hloop]
        · rw [hstores.count, hstores.strings, hitems hheap]
          simp [GamePatch.parseItems, hsplit, hlist, hbody]
  · refine ⟨⟨strings, 0⟩, ?_, rfl, Nat.zero_le _, fun _ => ?_⟩
    · simp [parseItems, hcopy, hholds.strchr_missing (by decide) hmem]
    · simp [GamePatch.parseItems, strchr_not_mem hmem]

/-! ## Both tokenizers and the unescaper -/

/-- A table with room for `maxItems` strings after a call. The strings counted in it
are `items` as long as allocations succeed. -/
structure Filled (heap : ℕ → Allocation) (room maxItems : ℕ) (items : List CString)
    (output : Output) : Prop where
  room : output.strings.length = room
  count : output.count ≤ maxItems
  items : (∀ i, (heap i).Succeeds) → output.strings.take output.count = items.map some

/-- On every string the calls end without leaving a buffer. -/
theorem staysInside (h : '\x00' ∉ text) (heap : ℕ → Allocation) :
    (∀ (strings : List (Option CString)) (maxItems : ℕ), maxItems ≤ strings.length →
      ∃ output, parseStringList heap (text ++ ['\x00']) strings maxItems = some output ∧
        Filled heap strings.length maxItems (GamePatch.parseStringList text maxItems) output) ∧
    (∀ params : List (Option CString), params.length = maxPatchParams →
      ∃ output, parsePatchEntry heap (text ++ ['\x00']) params = some output ∧
        Filled heap maxPatchParams maxPatchParams (GamePatch.parsePatchEntry text).params output) ∧
    ∀ m : Allocation, ∃ result, unescapeString m (text ++ ['\x00']) = some result ∧
      (m.result = true → result = some (GamePatch.unescapeString text)) := by
  refine ⟨?_, ?_, ?_⟩
  · intro strings maxItems hroom
    rcases parseItems_eq heap true maxItems h hroom with ⟨output, hcall, hlength, hcount, hitems⟩
    exact ⟨output, hcall, hlength, hcount, hitems⟩
  · intro params hparams
    obtain ⟨output, hcall, hlength, hcount, hitems⟩ :=
      parseItems_eq heap false maxPatchParams h hparams.ge
    exact ⟨output, hcall, hlength.trans hparams, hcount, hitems⟩
  · intro m
    exact unescapeString_eq m (.of_padded h [])

/-- A list of two strings, the second one with an escaped quote in it. -/
def escapedQuoteText : CString := "a: [\"b\", \"c\\\"d\"]".toList

theorem staysInside_escapedQuote :
    ∃ output result,
      parseStringList (fun _ => ⟨true, true, fun _ => 'z'⟩) (escapedQuoteText ++ ['\x00'])
        (List.replicate 16 none) 16 = some output ∧
      output.strings.take output.count = [some ['b'], some ['c', '"', 'd']] ∧
      unescapeString ⟨true, true, fun _ => 'z'⟩ (escapedQuoteText ++ ['\x00']) = some result ∧
      result = some "a: [\"b\", \"c\"d\"]".toList := by
  have hzero : '\x00' ∉ escapedQuoteText := by decide
  rcases staysInside hzero fun _ => ⟨true, true, fun _ => 'z'⟩ with ⟨hlist, -, hunescape⟩
  rcases hlist (List.replicate 16 none) 16 (by simp) with ⟨output, hcall, hfilled⟩
  rcases hunescape ⟨true, true, fun _ => 'z'⟩ with ⟨result, hresult, htext⟩
  have hitems : GamePatch.parseStringList escapedQuoteText 16 = [['b'], ['c', '"', 'd']] := by
    decide +kernel
  have hunescaped : GamePatch.unescapeString escapedQuoteText =
      "a: [\"b\", \"c\"d\"]".toList := by decide +kernel
  refine ⟨output, result, hcall, ?_, hresult, ?_⟩
  · rw [hfilled.items fun _ => ⟨rfl, rfl⟩, hitems]
    rfl
  · rw [htext rfl, hunescaped]

end GamePatch.Memory
