import GamePatch.Model.Patch

/-! # Quoted bodies and bracketed lists

Three scanners read a quoted text: the finder of the closing bracket and the reader
of quoted strings take a backslash and the character behind it as one unit, the
scanner of items asks only whether a backslash stands before a quote. -/

namespace GamePatch

/-! ## Bodies -/

/-- What stands between two quotes is made of plain characters and of escapes. -/
inductive BodyUnit where
  | plain (c : Char) (hc : c ≠ '"' ∧ c ≠ '\\')
  | escape (c : Char)

def BodyUnit.text : BodyUnit → CString
  | .plain c _ => [c]
  | .escape c => ['\\', c]

/-- The last character of a unit. -/
def BodyUnit.char : BodyUnit → Char
  | .plain c _ => c
  | .escape c => c

def bodyText (body : List BodyUnit) : CString := body.flatMap BodyUnit.text

@[simp] theorem bodyText_nil : bodyText [] = [] := rfl

@[simp] theorem bodyText_plain (c : Char) (hc : c ≠ '"' ∧ c ≠ '\\') (body : List BodyUnit) :
    bodyText (.plain c hc :: body) = c :: bodyText body := rfl

@[simp] theorem bodyText_escape (c : Char) (body : List BodyUnit) :
    bodyText (.escape c :: body) = '\\' :: c :: bodyText body := rfl

/-- The character before the closing quote, `prev` being the one before the body. -/
def lastChar (prev : Char) (body : List BodyUnit) : Char := (body.map BodyUnit.char).getLastD prev

@[simp] theorem lastChar_nil (prev : Char) : lastChar prev [] = prev := rfl

@[simp] theorem lastChar_cons (prev : Char) (u : BodyUnit) (body : List BodyUnit) :
    lastChar prev (u :: body) = lastChar u.char body := by
  rw [lastChar, List.map_cons, List.getLastD_cons, lastChar]

/-- The body ends in an escaped backslash. -/
def EndsInBackslash (body : List BodyUnit) : Prop := lastChar '"' body = '\\'

instance (body : List BodyUnit) : Decidable (EndsInBackslash body) :=
  inferInstanceAs (Decidable (lastChar '"' body = '\\'))

theorem endsInBackslash_iff (body : List BodyUnit) :
    EndsInBackslash body ↔ body.getLast? = some (.escape '\\') := by
  rw [EndsInBackslash]
  induction body using List.reverseRecOn with
  | nil => simp
  | append_singleton body u _ =>
      rw [lastChar, List.map_append, List.map_singleton, List.getLastD_concat,
        List.getLast?_concat]
      cases u with
      | plain c hc => simp [BodyUnit.char, hc.2]
      | escape c => simp [BodyUnit.char]

/-- The reader of quoted strings stops at the closing quote. -/
theorem quotedBody_bodyText (body : List BodyUnit) (rest : CString) :
    quotedBody (bodyText body ++ '"' :: rest) = some (bodyText body) := by
  induction body with
  | nil => simp [quotedBody]
  | cons u body ih =>
      cases u with
      | plain c hc =>
          rw [bodyText_plain, List.cons_append, quotedBody]
          · rw [ih, Option.map_some]
          · simp [hc.2]
          · simp [hc.1]
      | escape c =>
          rw [bodyText_escape, List.cons_append, List.cons_append, quotedBody, ih,
            Option.map_some]

/-- So does the finder of the closing bracket, whatever brackets the body holds. -/
theorem listBody_bodyText (body : List BodyUnit) (rest : CString) :
    listBody true (bodyText body ++ '"' :: rest) =
      (listBody false rest).map fun list => bodyText body ++ '"' :: list := by
  induction body with
  | nil => simp [listBody]
  | cons u body ih =>
      cases u with
      | plain c hc =>
          rw [bodyText_plain, List.cons_append, listBody]
          · rw [if_neg hc.1, if_neg (by simp), ih, Option.map_map]
            rfl
          · simp [hc.2]
      | escape c =>
          rw [bodyText_escape, List.cons_append, List.cons_append, listBody, ih, Option.map_map]
          rfl

/-- The scanner of items stops there when no backslash stands before the quote. -/
theorem scanItem_bodyText (body : List BodyUnit) {prev : Char} (h : lastChar prev body ≠ '\\')
    (rest : CString) :
    scanItem prev (bodyText body ++ '"' :: rest) = (bodyText body, '"' :: rest) := by
  induction body generalizing prev with
  | nil => simp_all [scanItem]
  | cons u body ih =>
      rw [lastChar_cons] at h
      cases u with
      | plain c hc =>
          rw [bodyText_plain, List.cons_append, scanItem]
          · rw [if_neg (by simp [hc.1]), show scanItem c _ = _ from ih h]
          · simp [hc.2]
      | escape c =>
          rw [bodyText_escape, List.cons_append, List.cons_append, scanItem,
            show scanItem c _ = _ from ih h]

theorem strchr_append {c : Char} {a b : CString} (h : c ∉ a) :
    strchr c (a ++ c :: b) = some (c :: b) := by
  induction a with
  | nil => simp [strchr]
  | cons x a ih =>
      have hx : x ≠ c := fun heq => h (by simp [heq])
      rw [List.cons_append, strchr, if_neg hx]
      exact ih fun hm => h (List.mem_cons_of_mem x hm)

theorem strchr_not_mem {c : Char} {text : CString} (h : c ∉ text) :
    strchr c text = none := by
  induction text with
  | nil => rfl
  | cons x text ih =>
      rw [List.mem_cons, not_or] at h
      rw [strchr, if_neg (Ne.symm h.1)]
      exact ih h.2

/-- The first quoted string of a text. -/
theorem parseQuotedString_bodyText {p : CString} (hp : '"' ∉ p) (body : List BodyUnit)
    (rest : CString) : parseQuotedString (p ++ '"' :: (bodyText body ++ '"' :: rest)) =
      some (unescapeString (bodyText body)) := by
  rw [parseQuotedString, strchr_append hp]
  simp only [List.tail_cons]
  rw [quotedBody_bodyText, Option.map_some]

theorem readItem_bodyText {body : List BodyUnit} (h : ¬ EndsInBackslash body) (rest : CString) :
    readItem ('"' :: (bodyText body ++ '"' :: rest)) =
      (some (unescapeString (bodyText body)), rest) := by
  have hquoted := parseQuotedString_bodyText (List.not_mem_nil) body []
  rw [readItem, scanItem_bodyText body h]
  exact congrArg (fun item => (item, rest)) hquoted

/-! ## How far a reader goes -/

/-- Every escape moves on. -/
theorem unescapeChar_pos (text : CString) : 0 < (unescapeChar text).2 := by
  unfold unescapeChar
  split
  · unfold unescapeAfterBackslash unescapeOctal
    split
    · exact Nat.two_pos
    · split
      case h_8 => split <;> (try split_ifs) <;> exact Nat.succ_pos _
      case h_9 => dsimp only; split_ifs <;> exact Nat.succ_pos _
      case h_10 => split_ifs <;> exact Nat.succ_pos _
      all_goals exact Nat.two_pos
  · exact Nat.one_pos
  · exact Nat.one_pos

/-- The halves of a scan over an item meet, at a quote or at the end. -/
theorem scanItem_split (prev : Char) (text : CString) :
    (scanItem prev text).1 ++ (scanItem prev text).2 = text ∧
      ((scanItem prev text).2 = [] ∨
        ∃ rest, (scanItem prev text).2 = '"' :: rest) := by
  fun_induction scanItem prev text with
  | case1 prev => exact ⟨rfl, .inl rfl⟩
  | case2 prev c rest seen rest' hscan ih =>
      rw [hscan] at ih
      exact ⟨congrArg (fun text => '\\' :: c :: text) ih.1, ih.2⟩
  | case3 prev c rest _ h => exact ⟨rfl, .inr ⟨rest, by rw [h.1]⟩⟩
  | case4 prev c rest _ h seen rest' hscan ih =>
      rw [hscan] at ih
      exact ⟨congrArg (c :: ·) ih.1, ih.2⟩

theorem readItem_closed {rest seen rest' : CString}
    (h : scanItem '"' rest = (seen, '"' :: rest')) :
    readItem ('"' :: rest) =
      (parseQuotedString ('"' :: seen ++ ['"']), rest') := by
  simp [readItem, h]

theorem readItem_unclosed {rest seen : CString} (h : scanItem '"' rest = (seen, [])) :
    readItem ('"' :: rest) = (none, []) := by
  simp [readItem, h]

theorem length_readItem_le (text : CString) :
    (readItem text).2.length ≤ text.length := by
  cases text with
  | nil => simp [readItem]
  | cons d rest =>
      by_cases hquote : d = '"'
      · subst hquote
        rcases scanItem_split '"' rest with ⟨hsplit, hend⟩
        rcases hpair : scanItem '"' rest with ⟨seen, rest'⟩
        rw [hpair] at hsplit hend
        have hlength := congrArg List.length hsplit
        rw [List.length_append] at hlength
        dsimp only at hlength hend
        rcases hend with rfl | ⟨rest', rfl⟩
        · simp [readItem_unclosed hpair]
        · rw [readItem_closed hpair]
          simp only [List.length_cons] at hlength ⊢
          omega
      · simp [readItem, hquote]

/-- A round of the loop uses up a character. -/
theorem length_afterItem_le (d : Char) (rest : CString) :
    ((readItem (d :: rest)).2.dropWhile fun c => decide (c ≠ ',')).tail.length ≤
      rest.length := by
  have hread := length_readItem_le (d :: rest)
  have hdrop := List.length_dropWhile_le (fun c => decide (c ≠ ','))
    (readItem (d :: rest)).2
  rw [List.length_cons] at hread
  rw [List.length_tail]
  omega

/-! ## Lists of items -/

/-- A quoted body with white space around it. -/
structure ListItem where
  before : CString
  before_blank : before.all isspace = true
  body : List BodyUnit
  after : CString
  after_blank : after.all isspace = true

namespace ListItem

def text (item : ListItem) : CString :=
  item.before ++ '"' :: (bodyText item.body ++ '"' :: item.after)

def value (item : ListItem) : CString := unescapeString (bodyText item.body)

end ListItem

/-- Items with commas between them. -/
def listItemsText : List ListItem → CString
  | [] => []
  | [item] => item.text
  | item :: next :: items => item.text ++ ',' :: listItemsText (next :: items)

theorem dropWhile_blank {gap : CString} (h : gap.all isspace = true) (rest : CString) :
    (gap ++ rest).dropWhile isspace = rest.dropWhile isspace := by
  rw [List.dropWhile_append_of_pos]
  exact fun c hc => List.all_eq_true.1 h c hc

/-- White space is passed over, quoted bodies too, whatever they hold. -/
theorem listBody_blank {gap : CString} (h : gap.all isspace = true) (rest : CString) :
    listBody false (gap ++ rest) = (listBody false rest).map fun list => gap ++ list := by
  induction gap with
  | nil => simp
  | cons c gap ih =>
      rw [List.all_cons, Bool.and_eq_true] at h
      have hc : c ≠ '\\' ∧ c ≠ '"' ∧ c ≠ ']' := by
        refine ⟨?_, ?_, ?_⟩ <;> intro heq <;> rw [heq] at h <;> exact absurd h.1 (by decide)
      rw [List.cons_append, listBody]
      · rw [if_neg hc.2.1, if_neg (by simp [hc.2.2]), ih h.2, Option.map_map]
        rfl
      · simp [hc.1]

theorem listBody_item (item : ListItem) (rest : CString) :
    listBody false (item.text ++ rest) =
      (listBody false rest).map fun list => item.text ++ list := by
  rw [ListItem.text, List.append_assoc, listBody_blank item.before_blank, List.cons_append,
    listBody]
  · rw [if_pos rfl, Bool.not_false, List.append_assoc, List.cons_append, listBody_bodyText,
      listBody_blank item.after_blank, Option.map_map, Option.map_map, Option.map_map]
    congr 1
    funext list
    simp
  · simp

theorem listBody_listItemsText (items : List ListItem) (rest : CString) :
    listBody false (listItemsText items ++ rest) =
      (listBody false rest).map fun list => listItemsText items ++ list := by
  induction items using listItemsText.induct with
  | case1 => simp [listItemsText]
  | case2 item => exact listBody_item item rest
  | case3 item next items ih =>
      have hcomma : listBody false (',' :: (listItemsText (next :: items) ++ rest)) =
          (listBody false (listItemsText (next :: items) ++ rest)).map fun list =>
            ',' :: list := by
        rw [listBody]
        · rw [if_neg (by decide), if_neg (by decide)]
        · simp
      rw [listItemsText, List.append_assoc, listBody_item, List.cons_append, hcomma, ih,
        Option.map_map, Option.map_map]
      congr 1
      funext list
      simp

/-- A round that stores an item. -/
theorem itemLoop_item {item : ListItem} (h : ¬ EndsInBackslash item.body) (fuel n : ℕ)
    (rest : CString) : itemLoop (fuel + 1) (n + 1) (item.text ++ rest) =
      item.value :: itemLoop fuel n ((item.after ++ rest).dropWhile (· ≠ ',')).tail := by
  have hskip : (item.text ++ rest).dropWhile isspace =
      '"' :: (bodyText item.body ++ '"' :: (item.after ++ rest)) := by
    rw [ListItem.text, List.append_assoc, dropWhile_blank item.before_blank, List.cons_append,
      List.dropWhile_cons_of_neg (by decide), List.append_assoc, List.cons_append]
  rw [itemLoop, hskip]
  dsimp only
  rw [readItem_bodyText h]
  rfl

theorem dropWhile_comma {gap : CString} (h : gap.all isspace = true) (rest : CString) :
    (gap ++ rest).dropWhile (· ≠ ',') = rest.dropWhile (· ≠ ',') := by
  rw [List.dropWhile_append_of_pos]
  intro c hc
  have hspace := List.all_eq_true.1 h c hc
  rw [decide_eq_true_iff]
  intro heq
  rw [heq] at hspace
  exact absurd hspace (by decide)

/-- The items are read back in order, as many as there are places for. -/
theorem itemLoop_listItemsText (items : List ListItem)
    (h : ∀ item ∈ items, ¬ EndsInBackslash item.body) :
    ∀ fuel n : ℕ, items.length < fuel → items.length ≤ n →
      itemLoop fuel n (listItemsText items) = items.map ListItem.value := by
  induction items using listItemsText.induct with
  | case1 =>
      intro fuel n hfuel _
      obtain ⟨fuel, rfl⟩ := Nat.exists_eq_add_one.mpr hfuel
      cases n <;> simp [itemLoop, listItemsText]
  | case2 item =>
      intro fuel n hfuel hn
      obtain ⟨fuel, rfl⟩ := Nat.exists_eq_add_one.mpr (Nat.zero_lt_of_lt hfuel)
      obtain ⟨n, rfl⟩ := Nat.exists_eq_add_one.mpr (Nat.zero_lt_of_lt hn)
      have hread := itemLoop_item (h item (by simp)) fuel n []
      rw [List.append_nil, List.append_nil] at hread
      have hend : item.after.dropWhile (· ≠ ',') = [] := by
        have hgap := dropWhile_comma item.after_blank []
        rwa [List.append_nil] at hgap
      rw [listItemsText, hread, hend]
      cases fuel <;> cases n <;> simp [itemLoop]
  | case3 item next items ih =>
      intro fuel n hfuel hn
      simp only [List.length_cons] at hfuel hn
      obtain ⟨fuel, rfl⟩ := Nat.exists_eq_add_one.mpr (Nat.zero_lt_of_lt hfuel)
      obtain ⟨n, rfl⟩ := Nat.exists_eq_add_one.mpr (Nat.zero_lt_of_lt hn)
      rw [listItemsText, itemLoop_item (h item (by simp)), dropWhile_comma item.after_blank,
        List.dropWhile_cons_of_neg (by simp), List.tail_cons,
        ih (fun u hu => h u (List.mem_cons_of_mem item hu)) fuel n
          (by simp only [List.length_cons]; omega) (by simp only [List.length_cons]; omega)]
      rfl

theorem length_le_listItemsText (items : List ListItem) :
    items.length ≤ (listItemsText items).length := by
  induction items using listItemsText.induct with
  | case1 => simp
  | case2 item => simp [listItemsText, ListItem.text]; omega
  | case3 item next items ih =>
      simp only [listItemsText, List.length_append, List.length_cons] at ih ⊢
      omega

/-- A bracketed list behind a text without an opening bracket. -/
def bracketed (lead gap : CString) (items : List ListItem) : CString :=
  lead ++ '[' :: (gap ++ listItemsText items ++ [']'])

/-- The items that the loop sees are those between the brackets. -/
theorem parseItems_bracketed {lead gap : CString} (hlead : '[' ∉ lead)
    (hgap : gap.all isspace = true) (items : List ListItem) (n : ℕ)
    (hfits : (bracketed lead gap items).length ≤ maxLineLength) :
    parseItems n (bracketed lead gap items) =
      itemLoop ((gap ++ listItemsText items).length + 1) n (gap ++ listItemsText items) := by
  have hbody : listBody false (gap ++ listItemsText items ++ [']']) =
      some (gap ++ listItemsText items) := by
    rw [List.append_assoc, listBody_blank hgap, listBody_listItemsText]
    simp [listBody]
  rw [parseItems, List.take_of_length_le hfits, bracketed, strchr_append hlead]
  dsimp only [List.tail_cons]
  rw [hbody]

theorem itemLoop_blank {gap : CString} (hgap : gap.all isspace = true) (fuel n : ℕ)
    (rest : CString) : itemLoop fuel n (gap ++ rest) = itemLoop fuel n rest := by
  cases fuel with
  | zero => rfl
  | succ fuel =>
      cases n with
      | zero => rfl
      | succ n => rw [itemLoop, itemLoop, dropWhile_blank hgap]

theorem parseItems_of_not_endsInBackslash {lead gap : CString} (hlead : '[' ∉ lead)
    (hgap : gap.all isspace = true) {items : List ListItem}
    (h : ∀ item ∈ items, ¬ EndsInBackslash item.body) {n : ℕ} (hn : items.length ≤ n)
    (hfits : (bracketed lead gap items).length ≤ maxLineLength) :
    parseItems n (bracketed lead gap items) = items.map ListItem.value := by
  have hlong := length_le_listItemsText items
  rw [parseItems_bracketed hlead hgap items n hfits, itemLoop_blank hgap]
  apply itemLoop_listItemsText items h _ n _ hn
  rw [List.length_append]
  omega

end GamePatch
