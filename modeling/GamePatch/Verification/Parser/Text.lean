import GamePatch.Model.Parser
import GamePatch.Shared.Split
import GamePatch.Verification.Parser.Bodies

/-! # The string helpers on rendered text

Plain values survive quoting, lists of them survive bracketing, and a text with a
single colon contains only the keys that end at it. -/

namespace GamePatch

/-! ## Values -/

/-- A character of a plain value: no quote, no backslash, no colon and no control
character. -/
def plainChar (c : Char) : Bool :=
  c ≠ '"' && c ≠ '\\' && c ≠ ':' && 32 ≤ c.toNat && c.toNat ≠ 127

def PlainValue (v : CString) : Prop := ∀ c ∈ v, plainChar c = true

instance (v : CString) : Decidable (PlainValue v) :=
  List.decidableBAll (fun c => plainChar c = true) v

theorem PlainValue.not_mem {v : CString} (h : PlainValue v) {c : Char} (hc : plainChar c = false) :
    c ∉ v := by
  intro hmem
  rw [h c hmem] at hc
  cases hc

def quote (v : CString) : CString := '"' :: v ++ ['"']

/-- The items of a list as they stand between the brackets. -/
def itemsText : List CString → CString
  | [] => []
  | [v] => quote v
  | v :: w :: vs => quote v ++ ", ".toList ++ itemsText (w :: vs)

def listText (vs : List CString) : CString := "[ ".toList ++ itemsText vs ++ " ]".toList

theorem not_mem_quote {v : CString} (hv : PlainValue v) {c : Char} (hc : plainChar c = false)
    (hquote : c ≠ '"') : c ∉ quote v := by
  simp [quote, hquote, hv.not_mem hc]

/-- Apart from the marks of a list, its text holds characters of plain values only. -/
theorem not_mem_listText {vs : List CString} (hvs : ∀ v ∈ vs, PlainValue v) {c : Char}
    (hc : plainChar c = false) (hmark : c ∉ ['[', ' ', '"', ',', ']']) : c ∉ listText vs := by
  have hmarks : c ≠ '[' ∧ c ≠ ' ' ∧ c ≠ '"' ∧ c ≠ ',' ∧ c ≠ ']' := by
    simpa using hmark
  rcases hmarks with ⟨hopen, hspace, hquote, hcomma, hclose⟩
  have hitems : c ∉ itemsText vs := by
    induction vs using itemsText.induct with
    | case1 => simp [itemsText]
    | case2 v => exact not_mem_quote (hvs v (by simp)) hc hquote
    | case3 v w vs ih =>
        have hfirst := not_mem_quote (hvs v (by simp)) hc hquote
        have hrest := ih fun u hu => hvs u (List.mem_cons_of_mem v hu)
        simp [itemsText, hfirst, hrest, hcomma, hspace]
  simp [listText, hitems, hopen, hspace, hclose]

/-! ## Searching -/

theorem strstr_isSome_iff {needle : CString} (hne : needle ≠ []) (hay : CString) :
    (strstr needle hay).isSome = true ↔ needle <:+: hay := by
  induction hay with
  | nil => simp [strstr, hne]
  | cons c hay ih =>
      rw [strstr, List.infix_cons_iff, ← ih]
      by_cases h : needle.isPrefixOf (c :: hay) = true
      · rw [if_pos h]
        exact iff_of_true rfl (Or.inl (List.isPrefixOf_iff_prefix.mp h))
      · rw [if_neg h]
        exact ⟨Or.inr, fun hor => hor.resolve_left fun hp => h (List.isPrefixOf_iff_prefix.mpr hp)⟩

/-- In a text with one colon, a key is found exactly when the text ends in it there. -/
theorem contains_of_colon {p rest : CString} (hp : ':' ∉ p) (hrest : ':' ∉ rest) (w : CString) :
    contains (p ++ ':' :: rest) (w ++ [':']) = decide (w <:+ p) := by
  rw [Bool.eq_iff_iff, decide_eq_true_iff, contains, strstr_isSome_iff (by simp)]
  exact Split.infix_iff_suffix hp hrest

theorem contains_of_no_colon {text : CString} (h : ':' ∉ text) (w : CString) :
    contains text (w ++ [':']) = false := by
  rw [Bool.eq_false_iff]
  intro hfound
  have hneedle := (strstr_isSome_iff (by simp) text).mp hfound
  exact h (hneedle.subset (by simp))

/-! ## Trimming -/

/-- A text that neither starts nor ends with white space. -/
structure Solid (text : CString) : Prop where
  first : ∃ c rest, text = c :: rest ∧ isspace c = false
  last : ∃ rest c, text = rest ++ [c] ∧ isspace c = false

theorem dropWhile_indent (n : ℕ) (text : CString) :
    (List.replicate n ' ' ++ text).dropWhile isspace = text.dropWhile isspace := by
  induction n with
  | zero => rfl
  | succ n ih =>
      rw [List.replicate_succ, List.cons_append, List.dropWhile_cons_of_pos (by decide)]
      exact ih

theorem Solid.dropWhile {text : CString} (h : Solid text) : text.dropWhile isspace = text := by
  rcases h.first with ⟨c, rest, rfl, hc⟩
  rw [List.dropWhile_cons_of_neg (by simp [hc])]

theorem Solid.trim_indent {text : CString} (h : Solid text) (n : ℕ) :
    trim (List.replicate n ' ' ++ text) = text := by
  rw [trim, dropWhile_indent, h.dropWhile]
  rcases h.last with ⟨rest, c, rfl, hc⟩
  rw [List.rdropWhile_concat_neg _ _ _ (by simp [hc])]

theorem Solid.getIndentLevel {text : CString} (h : Solid text) (n : ℕ) :
    getIndentLevel (List.replicate n ' ' ++ text) = n := by
  rcases h.first with ⟨c, rest, rfl, hc⟩
  have hne : c ≠ ' ' := by
    rintro rfl
    cases hc
  rw [GamePatch.getIndentLevel]
  induction n with
  | zero => simp [hne]
  | succ n ih => simpa [List.replicate_succ] using ih

theorem Solid.not_comment {text : CString} (h : Solid text) (hhash : text.head? ≠ some '#')
    (n : ℕ) : isCommentOrEmpty (List.replicate n ' ' ++ text) = false := by
  rw [isCommentOrEmpty, dropWhile_indent, h.dropWhile]
  rcases h.first with ⟨c, rest, rfl, hc⟩
  simpa using hhash

/-! ## The newline at the end of a line -/

theorem dropWhile_newline (line : CString) :
    (line ++ ['\n']).dropWhile isspace =
      if line.dropWhile isspace = [] then [] else line.dropWhile isspace ++ ['\n'] := by
  induction line with
  | nil => rfl
  | cons c line ih =>
      by_cases hc : isspace c = true
      · rw [List.cons_append, List.dropWhile_cons_of_pos hc, List.dropWhile_cons_of_pos hc, ih]
      · rw [List.cons_append, List.dropWhile_cons_of_neg hc, List.dropWhile_cons_of_neg hc,
          if_neg (by simp)]
        rfl

theorem trim_newline (line : CString) : trim (line ++ ['\n']) = trim line := by
  rw [trim, trim, dropWhile_newline]
  by_cases h : line.dropWhile isspace = []
  · rw [if_pos h, h]
  · rw [if_neg h, List.rdropWhile_concat_pos _ _ _ (by decide)]

theorem isCommentOrEmpty_newline (line : CString) :
    isCommentOrEmpty (line ++ ['\n']) = isCommentOrEmpty line := by
  rw [isCommentOrEmpty, isCommentOrEmpty, dropWhile_newline]
  cases h : line.dropWhile isspace <;> simp

theorem getIndentLevel_newline (line : CString) :
    getIndentLevel (line ++ ['\n']) = getIndentLevel line := by
  rw [getIndentLevel, getIndentLevel]
  induction line with
  | nil => rfl
  | cons c line ih =>
      by_cases hc : c = ' ' <;> simp_all

/-- The newline makes no difference to the parser. -/
theorem processLine_newline {σ : Type} (env : Env) (ctx : ParseContext σ) (line : CString) :
    processLine env ctx (line ++ ['\n']) = processLine env ctx line := by
  have hkind : lineKind ctx.inPatchesSection (line ++ ['\n']) =
      lineKind ctx.inPatchesSection line := by
    unfold lineKind
    rw [isCommentOrEmpty_newline, getIndentLevel_newline, trim_newline]
  unfold processLine
  rw [hkind, trim_newline]

/-! ## Quoted values -/

/-- A text that stands between quotes as it is: no quote, no backslash and no control
character. -/
def Quotable (v : CString) : Prop :=
  ∀ c ∈ v, (c ≠ '"' ∧ c ≠ '\\') ∧ 32 ≤ c.toNat ∧ c.toNat ≠ 127

instance (v : CString) : Decidable (Quotable v) :=
  List.decidableBAll (fun c => (c ≠ '"' ∧ c ≠ '\\') ∧ 32 ≤ c.toNat ∧ c.toNat ≠ 127) v

theorem PlainValue.quotable {v : CString} (h : PlainValue v) : Quotable v := by
  intro c hc
  have hplain := h c hc
  simp only [plainChar, Bool.and_eq_true, decide_eq_true_eq] at hplain
  exact ⟨hplain.1.1.1, hplain.1.2, hplain.2⟩

/-- The units of a value without escapes. -/
def plainBody (v : CString) (hv : Quotable v) : List BodyUnit :=
  v.pmap BodyUnit.plain fun c hc => (hv c hc).1

theorem bodyText_plainBody {v : CString} (hv : Quotable v) : bodyText (plainBody v hv) = v := by
  induction v with
  | nil => rfl
  | cons c v ih =>
      rw [plainBody, List.pmap_cons, bodyText_plain]
      exact congrArg (c :: ·) (ih fun d hd => hv d (List.mem_cons_of_mem c hd))

theorem not_endsInBackslash_plainBody {v : CString} (hv : Quotable v) :
    ¬ EndsInBackslash (plainBody v hv) := by
  rw [endsInBackslash_iff]
  intro h
  rcases List.mem_pmap.1 (List.mem_of_getLast? h) with ⟨c, hc, heq⟩
  cases heq

theorem unescapeLoop_plain {v : CString} (h : '\\' ∉ v) (fuel : ℕ) (hfuel : v.length ≤ fuel) :
    unescapeLoop fuel v = v := by
  induction v generalizing fuel with
  | nil => cases fuel <;> rfl
  | cons c v ih =>
      obtain ⟨fuel, rfl⟩ := Nat.exists_eq_add_one.mpr (Nat.zero_lt_of_lt hfuel)
      have hc : c ≠ '\\' := fun heq => h (by simp [heq])
      have hchar : unescapeChar (c :: v) = (c, 1) := by
        unfold unescapeChar
        split <;> simp_all
      rw [unescapeLoop, hchar]
      simp only [List.drop_succ_cons, List.drop_zero]
      rw [ih (fun hm => h (List.mem_cons_of_mem c hm)) fuel (by simpa using hfuel)]

theorem unescapeString_quotable {v : CString} (h : Quotable v) : unescapeString v = v := by
  have hbackslash : '\\' ∉ v := fun hm => (h _ hm).1.2 rfl
  rw [unescapeString, unescapeLoop_plain hbackslash v.length le_rfl, cstring]
  rw [List.takeWhile_eq_self_iff]
  intro c hc
  have hprint := (h c hc).2.1
  rw [decide_eq_true_iff]
  rintro rfl
  exact absurd hprint (by decide)

/-- The first quoted value of a text is read as it was written. -/
theorem parseQuotedString_append {p v : CString} (hp : '"' ∉ p) (hv : Quotable v)
    (rest : CString) : parseQuotedString (p ++ ('"' :: v ++ '"' :: rest)) = some v := by
  have hread := parseQuotedString_bodyText hp (plainBody v hv) rest
  rw [bodyText_plainBody, unescapeString_quotable hv] at hread
  exact hread

/-! ## Bracketed values -/

/-- The values of a list as its items, with a space around each. -/
theorem exists_listItems {vs : List CString} (hvs : ∀ v ∈ vs, Quotable v) (hne : vs ≠ []) :
    ∃ items : List ListItem, listItemsText items = ' ' :: itemsText vs ++ [' '] ∧
      items.map ListItem.value = vs ∧ ∀ item ∈ items, ¬ EndsInBackslash item.body := by
  induction vs using itemsText.induct with
  | case1 => exact absurd rfl hne
  | case2 v =>
      have hv := hvs v (by simp)
      refine ⟨[⟨[' '], rfl, plainBody v hv, [' '], rfl⟩], ?_, ?_, ?_⟩
      · simp [listItemsText, ListItem.text, itemsText, quote, bodyText_plainBody]
      · simp [ListItem.value, bodyText_plainBody, unescapeString_quotable hv]
      · simpa using not_endsInBackslash_plainBody hv
  | case3 v w vs ih =>
      have hv := hvs v (by simp)
      rcases ih (fun u hu => hvs u (List.mem_cons_of_mem v hu)) (by simp) with
        ⟨items, htext, hvalues, hends⟩
      cases items with
      | nil => cases hvalues
      | cons next items =>
          refine ⟨⟨[' '], rfl, plainBody v hv, [], rfl⟩ :: next :: items, ?_, ?_, ?_⟩
          · rw [listItemsText, htext]
            simp [ListItem.text, itemsText, quote, bodyText_plainBody]
          · rw [List.map_cons, hvalues]
            simp [ListItem.value, bodyText_plainBody, unescapeString_quotable hv]
          · intro item hitem
            rcases List.mem_cons.1 hitem with hfirst | hrest
            · exact hfirst ▸ not_endsInBackslash_plainBody hv
            · exact hends item hrest

/-- A list of at most `n` values is read back whole. -/
theorem parseItems_listText {p : CString} (hp : '[' ∉ p) {vs : List CString}
    (hvs : ∀ v ∈ vs, Quotable v) {n : ℕ} (hn : vs.length ≤ n)
    (hlen : (p ++ listText vs).length ≤ maxLineLength) :
    parseItems n (p ++ listText vs) = vs := by
  by_cases hne : vs = []
  · subst hne
    have htext : p ++ listText [] = bracketed p [' ', ' '] [] := by
      simp [listText, itemsText, bracketed, listItemsText]
    rw [htext] at hlen ⊢
    exact parseItems_of_not_endsInBackslash hp rfl (by simp) hn hlen
  · rcases exists_listItems hvs hne with ⟨items, htext, hvalues, hends⟩
    have hlist : p ++ listText vs = bracketed p [] items := by
      simp [listText, bracketed, htext]
    have hcount : items.length = vs.length := by rw [← hvalues, List.length_map]
    rw [hlist] at hlen ⊢
    rw [parseItems_of_not_endsInBackslash hp rfl hends (hcount ▸ hn) hlen, hvalues]

end GamePatch
