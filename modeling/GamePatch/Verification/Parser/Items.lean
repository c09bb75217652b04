import GamePatch.Verification.Parser.Bodies

/-! # Lists split at their items

Every item that is stored uses up two quotes without a backslash before them. In a
rendered list each item has two such quotes, except that the closing one of a body
ending in an escaped backslash is none. So one such body costs an item. -/

namespace GamePatch

/-! ## Counting quotes -/

/-- The quotes of a text with no backslash right before them, `prev` standing before
the text. -/
def bareQuotes : Char → CString → ℕ
  | _, [] => 0
  | prev, c :: rest => (if c = '"' ∧ prev ≠ '\\' then 1 else 0) + bareQuotes c rest

theorem bareQuotes_cons_le (prev c : Char) (rest : CString) :
    bareQuotes c rest ≤ bareQuotes prev (c :: rest) := by
  rw [bareQuotes]
  omega

/-- White space holds no quote, and no backslash that would hide one. -/
theorem bareQuotes_blank {gap : CString} (h : gap.all isspace = true) {prev : Char}
    (hprev : prev ≠ '\\') (rest : CString) :
    ∃ prev', prev' ≠ '\\' ∧ bareQuotes prev (gap ++ rest) = bareQuotes prev' rest := by
  induction gap generalizing prev with
  | nil => exact ⟨prev, hprev, rfl⟩
  | cons c gap ih =>
      rw [List.all_cons, Bool.and_eq_true] at h
      have hc : c ≠ '"' ∧ c ≠ '\\' := by
        constructor <;> intro heq <;> rw [heq] at h <;> exact absurd h.1 (by decide)
      rcases ih h.2 hc.2 with ⟨prev', hprev', hcount⟩
      refine ⟨prev', hprev', ?_⟩
      rw [List.cons_append, bareQuotes, if_neg (by simp [hc.1]), hcount, Nat.zero_add]

theorem bareQuotes_dropWhile {prev : Char} (hprev : prev ≠ '\\') (pos : CString) :
    ∃ prev', prev' ≠ '\\' ∧
      bareQuotes prev pos = bareQuotes prev' (pos.dropWhile isspace) := by
  have hgap : (pos.takeWhile isspace).all isspace = true :=
    List.all_eq_true.2 fun c hc => List.mem_takeWhile_imp hc
  have hsplit := bareQuotes_blank hgap hprev (pos.dropWhile isspace)
  rwa [List.takeWhile_append_dropWhile] at hsplit

/-- What stands behind the next comma has no more of them. -/
theorem bareQuotes_afterComma (prev : Char) (pos : CString) :
    bareQuotes ',' (pos.dropWhile (· ≠ ',')).tail ≤ bareQuotes prev pos := by
  induction pos generalizing prev with
  | nil => exact Nat.zero_le _
  | cons c pos ih =>
      by_cases hc : c = ','
      · rw [List.dropWhile_cons_of_neg (by simp [hc]), List.tail_cons, ← hc]
        exact bareQuotes_cons_le prev c pos
      · rw [List.dropWhile_cons_of_pos (by simp [hc])]
        exact (ih c).trans (bareQuotes_cons_le prev c pos)

/-- The scan passes over no bare quote. -/
theorem bareQuotes_scanItem (prev : Char) (text : CString) :
    ∃ prev', bareQuotes prev text = bareQuotes prev' (scanItem prev text).2 ∧
      (∀ rest, (scanItem prev text).2 = '"' :: rest → prev' ≠ '\\') := by
  fun_induction scanItem prev text with
  | case1 prev => exact ⟨prev, rfl, by simp⟩
  | case2 prev c rest seen rest' hscan ih =>
      rcases ih with ⟨prev', hcount, hprev'⟩
      rw [hscan] at hcount hprev'
      refine ⟨prev', ?_, hprev'⟩
      rw [bareQuotes, bareQuotes, if_neg (by simp), if_neg (by simp), hcount, Nat.zero_add,
        Nat.zero_add]
  | case3 prev c rest _ h => exact ⟨prev, rfl, fun _ _ => h.2⟩
  | case4 prev c rest _ h seen rest' hscan ih =>
      rcases ih with ⟨prev', hcount, hprev'⟩
      rw [hscan] at hcount hprev'
      refine ⟨prev', ?_, hprev'⟩
      rw [bareQuotes, if_neg h, hcount, Nat.zero_add]

/-- An item read uses up two bare quotes. -/
theorem bareQuotes_readItem {prev : Char} (hprev : prev ≠ '\\') (pos : CString) :
    ∃ prev', 2 * (readItem pos).1.toList.length + bareQuotes prev' (readItem pos).2 ≤
      bareQuotes prev pos := by
  unfold readItem
  split
  · next rest =>
      rcases bareQuotes_scanItem '"' rest with ⟨prev', hcount, hprev'⟩
      split
      · next seen rest' hscan =>
          rw [hscan] at hcount hprev'
          refine ⟨'"', ?_⟩
          rw [bareQuotes, if_pos ⟨rfl, hprev⟩, hcount]
          dsimp only
          rw [bareQuotes, if_pos ⟨rfl, hprev' rest' rfl⟩]
          have hone : (parseQuotedString ('"' :: seen ++ ['"'])).toList.length ≤ 1 :=
            Option.length_toList_le
          omega
      · next seen rest' hne hscan =>
          rw [hscan] at hcount
          refine ⟨prev', ?_⟩
          simpa [← hcount] using bareQuotes_cons_le prev '"' rest
  · exact ⟨prev, by simp⟩

/-- The items stored are at most half as many as the bare quotes. -/
theorem itemLoop_bareQuotes (fuel n : ℕ) {prev : Char} (hprev : prev ≠ '\\') (pos : CString) :
    2 * (itemLoop fuel n pos).length ≤ bareQuotes prev pos := by
  induction fuel generalizing n prev pos with
  | zero => exact Nat.zero_le _
  | succ fuel ih =>
      cases n with
      | zero => exact Nat.zero_le _
      | succ n =>
          rcases bareQuotes_dropWhile hprev pos with ⟨prev', hprev', hblank⟩
          rw [itemLoop, hblank]
          cases pos.dropWhile isspace with
          | nil => exact Nat.zero_le _
          | cons c rest =>
              rcases bareQuotes_readItem hprev' (c :: rest) with ⟨prev'', hread⟩
              have hcomma := bareQuotes_afterComma prev'' (readItem (c :: rest)).2
              dsimp only
              cases hitem : (readItem (c :: rest)).1 with
              | none =>
                  have hrest := ih (n + 1) (by decide : ',' ≠ '\\')
                    ((readItem (c :: rest)).2.dropWhile (· ≠ ',')).tail
                  rw [hitem, Option.toList_none, List.length_nil] at hread
                  dsimp only
                  omega
              | some str =>
                  have hrest := ih n (by decide : ',' ≠ '\\')
                    ((readItem (c :: rest)).2.dropWhile (· ≠ ',')).tail
                  rw [hitem, Option.toList_some, List.length_singleton] at hread
                  dsimp only
                  rw [List.length_cons]
                  omega

/-! ## The quotes of a rendered list -/

theorem bareQuotes_bodyText (body : List BodyUnit) (prev : Char) (rest : CString) :
    bareQuotes prev (bodyText body ++ '"' :: rest) =
      (if lastChar prev body = '\\' then 0 else 1) + bareQuotes '"' rest := by
  induction body generalizing prev with
  | nil => by_cases h : prev = '\\' <;> simp [bareQuotes, h]
  | cons u body ih =>
      rw [lastChar_cons]
      cases u with
      | plain c hc =>
          rw [bodyText_plain, List.cons_append, bareQuotes, if_neg (by simp [hc.1]), ih,
            Nat.zero_add]
          rfl
      | escape c =>
          rw [bodyText_escape, List.cons_append, List.cons_append, bareQuotes, bareQuotes,
            if_neg (by simp), if_neg (by simp), ih, Nat.zero_add, Nat.zero_add]
          rfl

theorem bareQuotes_item (item : ListItem) {prev : Char} (hprev : prev ≠ '\\') (rest : CString) :
    ∃ prev', prev' ≠ '\\' ∧ bareQuotes prev (item.text ++ rest) =
      (if EndsInBackslash item.body then 1 else 2) + bareQuotes prev' rest := by
  rcases bareQuotes_blank item.before_blank hprev
    ('"' :: (bodyText item.body ++ '"' :: (item.after ++ rest))) with ⟨prev₁, hprev₁, hbefore⟩
  rcases bareQuotes_blank item.after_blank (by decide : '"' ≠ '\\') rest with
    ⟨prev₂, hprev₂, hafter⟩
  refine ⟨prev₂, hprev₂, ?_⟩
  have htext : item.text ++ rest =
      item.before ++ '"' :: (bodyText item.body ++ '"' :: (item.after ++ rest)) := by
    simp [ListItem.text]
  rw [htext, hbefore, bareQuotes, if_pos ⟨rfl, hprev₁⟩, bareQuotes_bodyText, hafter]
  by_cases hends : EndsInBackslash item.body
  · have hlast : lastChar '"' item.body = '\\' := hends
    rw [if_pos hends, if_pos hlast]
    omega
  · have hlast : ¬ lastChar '"' item.body = '\\' := hends
    rw [if_neg hends, if_neg hlast]
    omega

/-- Two for every item, less one for every body that ends in an escaped backslash. -/
theorem bareQuotes_listItemsText (items : List ListItem) {prev : Char} (hprev : prev ≠ '\\') :
    bareQuotes prev (listItemsText items) +
      items.countP (fun item => decide (EndsInBackslash item.body)) = 2 * items.length := by
  induction items using listItemsText.induct generalizing prev with
  | case1 => rfl
  | case2 item =>
      rcases bareQuotes_item item hprev [] with ⟨prev', -, hcount⟩
      rw [List.append_nil] at hcount
      rw [listItemsText, hcount, List.countP_singleton]
      by_cases hends : EndsInBackslash item.body <;> simp [hends, bareQuotes]
  | case3 item next items ih =>
      rcases bareQuotes_item item hprev (',' :: listItemsText (next :: items)) with
        ⟨prev', -, hcount⟩
      have hcomma : bareQuotes prev' (',' :: listItemsText (next :: items)) =
          bareQuotes ',' (listItemsText (next :: items)) := by
        rw [bareQuotes, if_neg (by simp), Nat.zero_add]
      have hrest := ih (by decide : ',' ≠ '\\')
      rw [listItemsText, hcount, hcomma, List.countP_cons, List.length_cons]
      by_cases hends : EndsInBackslash item.body
      · rw [if_pos hends, if_pos (decide_eq_true hends)]
        omega
      · rw [if_neg hends, if_neg (by simpa using hends)]
        omega

theorem parseItems_length_lt {lead gap : CString} (hlead : '[' ∉ lead)
    (hgap : gap.all isspace = true) {items : List ListItem} (n : ℕ)
    (h : ∃ item ∈ items, EndsInBackslash item.body)
    (hfits : (bracketed lead gap items).length ≤ maxLineLength) :
    (parseItems n (bracketed lead gap items)).length < items.length := by
  rcases h with ⟨item, hitem, hends⟩
  have hpos : 0 < items.countP fun item => decide (EndsInBackslash item.body) :=
    List.countP_pos_iff.2 ⟨item, hitem, decide_eq_true hends⟩
  have hcount := bareQuotes_listItemsText items (by decide : '[' ≠ '\\')
  have hstored := itemLoop_bareQuotes ((gap ++ listItemsText items).length + 1) n
    (by decide : '[' ≠ '\\') (listItemsText items)
  rw [parseItems_bracketed hlead hgap items n hfits, itemLoop_blank hgap]
  omega

/-! ## Both functions -/

/-- Both functions return the number of items of the list and store their bodies
unescaped, in order, as far as their tables have room for the list. -/
def SplitsAtItems (lead gap : CString) (items : List ListItem) : Prop :=
  (items.length ≤ maxArrayLength →
      parseStringList (bracketed lead gap items) maxArrayLength = items.map ListItem.value) ∧
    (items.length ≤ maxPatchParams →
      (parsePatchEntry (bracketed lead gap items)).params = items.map ListItem.value)

/-- A list is split at its items exactly when no body ends in an escaped backslash. -/
theorem splitsAtItems_iff {lead gap : CString} (hlead : '[' ∉ lead)
    (hgap : gap.all isspace = true) {items : List ListItem} (hcount : items.length ≤ maxArrayLength)
    (hfits : (bracketed lead gap items).length ≤ 1023) :
    SplitsAtItems lead gap items ↔ ∀ item ∈ items, item.body.getLast? ≠ some (.escape '\\') := by
  have hfits' : (bracketed lead gap items).length ≤ maxLineLength := hfits.trans (by decide)
  apply Iff.intro
  · intro h item hitem hends
    have hlt := parseItems_length_lt hlead hgap maxArrayLength
      ⟨item, hitem, (endsInBackslash_iff item.body).2 hends⟩ hfits'
    have heq := congrArg List.length (h.1 hcount)
    rw [List.length_map] at heq
    exact absurd heq (Nat.ne_of_lt hlt)
  · intro h
    have h' : ∀ item ∈ items, ¬ EndsInBackslash item.body :=
      fun item hitem hends => h item hitem ((endsInBackslash_iff item.body).1 hends)
    exact ⟨fun hn => parseItems_of_not_endsInBackslash hlead hgap h' hn hfits',
      fun hn => parseItems_of_not_endsInBackslash hlead hgap h' hn hfits'⟩

theorem comma_plain : ',' ≠ '"' ∧ ',' ≠ '\\' := by decide

theorem bracket_plain : ']' ≠ '"' ∧ ']' ≠ '\\' := by decide

theorem space_blank : [' '].all isspace = true := rfl

theorem nil_blank : ([] : CString).all isspace = true := rfl

/-- `",]\""` between two spaces. -/
def commaItem : ListItem where
  before := [' ']
  before_blank := space_blank
  body := [.plain ',' comma_plain, .plain ']' bracket_plain, .escape '"']
  after := [' ']
  after_blank := space_blank

/-- `"\\"` right at its neighbours. -/
def backslashItem : ListItem where
  before := []
  before_blank := nil_blank
  body := [.escape '\\']
  after := []
  after_blank := nil_blank

theorem splitsAtItems_commas : SplitsAtItems "app_ver: ".toList [] [commaItem, commaItem] :=
  (splitsAtItems_iff (by decide) rfl (by decide) (by decide)).2 (by simp [commaItem])

/-- `[ ",]\"" ,"\\"]`: the scan for the second closing quote runs out of the list. -/
theorem not_splitsAtItems :
    (bracketed "app_ver: ".toList [] [commaItem, backslashItem]).length ≤ 1023 ∧
      ¬ SplitsAtItems "app_ver: ".toList [] [commaItem, backslashItem] := by
  refine ⟨by decide, fun h => ?_⟩
  have hsplit := h.1 (by decide)
  have hlt : (parseItems maxArrayLength (bracketed "app_ver: ".toList []
      [commaItem, backslashItem])).length < [commaItem, backslashItem].length :=
    parseItems_length_lt (by decide) rfl maxArrayLength ⟨backslashItem, by simp, by decide⟩
      (by decide)
  have heq := congrArg List.length hsplit
  exact absurd heq (Nat.ne_of_lt hlt)

end GamePatch
