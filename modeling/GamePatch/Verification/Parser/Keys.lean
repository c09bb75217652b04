import GamePatch.Verification.Parser.Rendering

/-! # Keys inside of quoted text

A line is told apart by keys found anywhere in it. No key holds a quote, a space or
another mark of a list, so it is found in the line's own key or inside of one of the
quoted texts. -/

namespace GamePatch

open FirstMatch Split

/-! ## Needles without marks -/

/-- A needle that cannot reach over the end of a quoted text. -/
structure Markless (w : CString) : Prop where
  ne_nil : w ≠ []
  no_quote : '"' ∉ w
  no_space : ' ' ∉ w
  no_comma : ',' ∉ w
  no_opening : '[' ∉ w
  no_closing : ']' ∉ w
  no_dash : '-' ∉ w

instance (w : CString) : Decidable (Markless w) :=
  decidable_of_iff (w ≠ [] ∧ '"' ∉ w ∧ ' ' ∉ w ∧ ',' ∉ w ∧ '[' ∉ w ∧ ']' ∉ w ∧ '-' ∉ w)
    ⟨fun ⟨h, h1, h2, h3, h4, h5, h6⟩ => ⟨h, h1, h2, h3, h4, h5, h6⟩,
      fun h =>
        ⟨h.ne_nil, h.no_quote, h.no_space, h.no_comma, h.no_opening, h.no_closing, h.no_dash⟩⟩

theorem Markless.not_infix_nil {w : CString} (h : Markless w) : ¬ w <:+: [] :=
  fun hw => h.ne_nil (List.infix_nil.1 hw)

theorem Markless.infix_quote {w : CString} (h : Markless w) (v : CString) :
    w <:+: quote v ↔ w <:+: v := by
  have htext : quote v = [] ++ '"' :: (v ++ '"' :: []) := rfl
  rw [htext, infix_append_cons_iff h.no_quote, infix_append_cons_iff h.no_quote]
  simp [h.not_infix_nil]

theorem Markless.infix_itemsText {w : CString} (h : Markless w) (vs : List CString) :
    w <:+: itemsText vs ↔ ∃ v ∈ vs, w <:+: v := by
  induction vs using itemsText.induct with
  | case1 => simp [itemsText, h.ne_nil]
  | case2 v => simp [itemsText, h.infix_quote]
  | case3 v u vs ih =>
      have htext : itemsText (v :: u :: vs) =
          quote v ++ ',' :: ([] ++ ' ' :: itemsText (u :: vs)) := by
        simp [itemsText]
      rw [htext, infix_append_cons_iff h.no_comma, infix_append_cons_iff h.no_space, ih,
          h.infix_quote]
      simp [h.not_infix_nil]

theorem Markless.infix_entry {w : CString} (h : Markless w) (params : List CString) :
    w <:+: "- ".toList ++ listText params ↔ ∃ v ∈ params, w <:+: v := by
  have htext : "- ".toList ++ listText params =
      [] ++ '-' :: ([] ++ ' ' :: ([] ++ '[' :: ([] ++ ' ' ::
        (itemsText params ++ ' ' :: ([] ++ ']' :: []))))) := by
    simp [listText]
  rw [htext, infix_append_cons_iff h.no_dash, infix_append_cons_iff h.no_space,
    infix_append_cons_iff h.no_opening, infix_append_cons_iff h.no_space,
    infix_append_cons_iff h.no_space, infix_append_cons_iff h.no_closing, h.infix_itemsText]
  simp [h.not_infix_nil]

theorem contains_eq_decide {w : CString} (h : Markless w) (text : CString) :
    contains text w = decide (w <:+: text) := by
  rw [Bool.eq_iff_iff, decide_eq_true_iff, contains, strstr_isSome_iff h.ne_nil]

theorem contains_keyLine {w : CString} (h : Markless w) (k : Key) (v : CString) :
    contains (k.text ++ ' ' :: quote v) w = decide (w <:+: k.text ∨ w <:+: v) := by
  rw [contains_eq_decide h, decide_eq_decide, infix_append_cons_iff h.no_space, h.infix_quote]

theorem contains_entryLine {w : CString} (h : Markless w) (params : List CString) :
    contains ("- ".toList ++ listText params) w = decide (∃ v ∈ params, w <:+: v) := by
  rw [contains_eq_decide h, decide_eq_decide, h.infix_entry]

theorem Key.markless (k : Key) : Markless k.text := by
  cases k <;> decide

/-! ## The kind of a line with a key -/

/-- The keys that are looked for before `k`. -/
def Key.before (k : Key) : List Key := Key.cascade.takeWhile (· ≠ k)

theorem Key.mem_cascade (k : Key) : k ∈ Key.cascade := by
  cases k <;> decide

/-- The value holds no key that is looked for before the line's own. -/
structure KeyStands (k : Key) (n : ℕ) (v : CString) : Prop where
  earlier : ∀ k' ∈ k.before, ¬ k'.text <:+: v
  unindented : n = 0 → ¬ "titleid:".toList <:+: v ∧ ¬ "patch:".toList <:+: v

theorem key_not_infix_before (k : Key) : ∀ k' ∈ k.before, ¬ k'.text <:+: k.text := by
  cases k <;> decide

theorem opening_not_infix_key (k : Key) :
    ¬ "titleid:".toList <:+: k.text ∧ ¬ "patch:".toList <:+: k.text := by
  cases k <;> decide

/-- The key of a line is found exactly when its value holds none that is looked for
before. -/
theorem lineKind_keyLine_iff (inPatches : Bool) (k : Key) (n : ℕ) (v : CString) :
    lineKind inPatches (indented n (k.text ++ ' ' :: quote v)) = .key k ↔ KeyStands k n v := by
  have hsolid := solid_key k v
  have hhash := head_key_ne_hash k v
  have hcontains : ∀ w : CString, Markless w → ¬ w <:+: k.text →
      contains (k.text ++ ' ' :: quote v) w = decide (w <:+: v) := by
    intro w hw hkey
    rw [contains_keyLine hw]
    simp [hkey]
  have htitleid := hcontains "titleid:".toList (by decide) (opening_not_infix_key k).1
  have hpatch := hcontains "patch:".toList (by decide) (opening_not_infix_key k).2
  have hfind : (Key.cascade.find? fun k' => contains (k.text ++ ' ' :: quote v) k'.text) = some k ↔
      ∀ k' ∈ k.before, ¬ k'.text <:+: v := by
    have hown : contains (k.text ++ ' ' :: quote v) k.text = true := by
      rw [contains_keyLine k.markless]
      exact decide_eq_true (.inl (List.infix_refl _))
    rw [find?_eq_some_iff_takeWhile _ k.mem_cascade]
    simp only [hown, true_and]
    apply forall₂_congr
    intro k' hk'
    rw [hcontains _ k'.markless (key_not_infix_before k k' hk'), decide_eq_false_iff_not]
  unfold lineKind indented
  simp only [hsolid.trim_indent, hsolid.getIndentLevel, hsolid.not_comment hhash, htitleid, hpatch,
    Bool.false_eq_true, if_false, decide_eq_true_eq]
  by_cases hti : n = 0 ∧ "titleid:".toList <:+: v
  · rw [if_pos hti]
    exact iff_of_false (by simp) fun h => (h.unindented hti.1).1 hti.2
  · rw [if_neg hti]
    by_cases hpa : n = 0 ∧ "patch:".toList <:+: v
    · rw [if_pos hpa]
      exact iff_of_false (by simp) fun h => (h.unindented hpa.1).2 hpa.2
    · rw [if_neg hpa]
      apply Iff.intro
      · intro h
        refine ⟨?_, fun hn => ⟨fun hv => hti ⟨hn, hv⟩, fun hv => hpa ⟨hn, hv⟩⟩⟩
        rw [← hfind]
        split at h
        · next k' hk' => rw [hk', LineKind.key.inj h]
        · split_ifs at h
      · intro h
        rw [hfind.2 h.earlier]

/-! ## The kind of an entry -/

/-- The keys that are looked for before an entry. -/
def entryKeys : List CString :=
  Key.cascade.map Key.text ++ ["app_ver:".toList, "patches:".toList]

theorem entryKeys_markless : ∀ w ∈ entryKeys, Markless w := by decide

theorem lineKind_entryLine_iff {n : ℕ} (hn : 0 < n) (params : List CString) :
    lineKind true (indented n ("- ".toList ++ listText params)) = .entry ↔
      ∀ v ∈ params, ∀ w ∈ entryKeys, ¬ w <:+: v := by
  have hsolid := solid_entry params
  have hhash := head_entry_ne_hash params
  have hprefix : "- [".toList.isPrefixOf ("- ".toList ++ listText params) = true := rfl
  have hindent : ¬ n = 0 := by omega
  unfold lineKind indented
  simp only [hsolid.trim_indent, hsolid.getIndentLevel, hsolid.not_comment hhash, hprefix, hindent,
    Bool.false_eq_true, if_false, false_and, and_self, if_true]
  apply Iff.intro
  · intro h v hv w hw hinfix
    have hfound : contains ("- ".toList ++ listText params) w = true := by
      rw [contains_entryLine (entryKeys_markless w hw)]
      exact decide_eq_true ⟨v, hv, hinfix⟩
    rw [entryKeys, List.mem_append, List.mem_map] at hw
    rcases hw with ⟨k, hk, hkw⟩ | hw
    · split at h
      · cases h
      · next hnone =>
          have hnot := List.find?_eq_none.1 hnone k hk
          rw [hkw] at hnot
          exact hnot hfound
    · split at h
      · cases h
      · split_ifs at h with happVer hpatches
        simp only [List.mem_cons, List.not_mem_nil, or_false] at hw
        rcases hw with hw | hw
        · exact happVer (hw ▸ hfound)
        · exact hpatches (hw ▸ hfound)
  · intro h
    have hnot : ∀ w ∈ entryKeys, contains ("- ".toList ++ listText params) w = false := by
      intro w hw
      rw [contains_entryLine (entryKeys_markless w hw), decide_eq_false_iff_not]
      intro hfound
      rcases hfound with ⟨v, hv, hinfix⟩
      exact h v hv w hw hinfix
    have hfind : (Key.cascade.find? fun k => contains ("- ".toList ++ listText params) k.text) =
        none := by
      rw [List.find?_eq_none]
      intro k hk
      rw [hnot k.text (List.mem_append_left _ (List.mem_map_of_mem hk))]
      simp
    rw [hfind]
    simp only [hnot "app_ver:".toList (by decide), hnot "patches:".toList (by decide),
      Bool.false_eq_true, if_false]

/-! ## Every reachable context -/

variable {σ : Type}

/-- A context that lines can lead to, from a fresh one with any callbacks. -/
def Reachable (env : Env) (ctx : ParseContext σ) : Prop :=
  ∃ game mode title userData metaCallback entryCallback lines,
    runLines env { createParseContext game mode title userData with
      metaCallback := metaCallback
      entryCallback := entryCallback } lines = some ctx

/-- The line of a key writes its value into the field of the key and changes nothing
else. -/
def SetsOnlyKey (k : Key) (n : ℕ) (v : CString) : Prop :=
  ∀ {σ : Type} (env : Env) (ctx : ParseContext σ), Reachable env ctx →
    ctx.currentPatch.appVer ≠ none →
    processLine env ctx (indented n (k.text ++ ' ' :: quote v)) =
      some { ctx with currentPatch := ctx.currentPatch.setKey k (some v) }

/-- Behind the `patches:` line the line of an entry is taken as one and leaves the
block alone. Its parameters are those written, as far as the list fits the buffer. -/
def HandledAsEntry (n : ℕ) (params : List CString) : Prop :=
  ∀ {σ : Type} (env : Env) (ctx : ParseContext σ), Reachable env ctx →
    ctx.currentPatch.appVer ≠ none → ctx.inPatchesSection = true →
    lineKind ctx.inPatchesSection (indented n ("- ".toList ++ listText params)) = .entry ∧
      ((listText params).length ≤ maxLineLength →
        processLine env ctx (indented n ("- ".toList ++ listText params)) =
          processEntry env ctx ⟨params⟩) ∧
      ∀ ctx', processLine env ctx (indented n ("- ".toList ++ listText params)) = some ctx' →
        ctx'.currentPatch = ctx.currentPatch

theorem setsOnlyKey_of_keyStands {k : Key} {n : ℕ} {v : CString} (hv : Quotable v)
    (h : KeyStands k n v) : SetsOnlyKey k n v := by
  intro σ env ctx _ _
  have hkind := (lineKind_keyLine_iff ctx.inPatchesSection k n v).2 h
  rw [processLine_key hkind, parseQuotedString_key k hv n]

/-- The fields of a blank block after one line. -/
theorem readLine_blank_eq_setKey {line : CString} {k : Key} {v : CString}
    (h : (Patch.blank true).readLine line = (Patch.blank true).setKey k (some v)) :
    lineKind false line = .key k := by
  unfold Patch.readLine at h
  split at h
  · next k' hkind =>
      have hkey : k' = k := by
        cases k <;> cases k' <;> first | rfl | simp [Patch.setKey, Patch.blank] at h
      rw [hkind, hkey]
  · unfold Patch.setAppVer at h
    split at h <;> cases k <;> simp [Patch.setKey, Patch.blank] at h
  · cases k <;> simp [Patch.setKey, Patch.blank] at h

/-- A fresh context that lists the patches of a game. -/
def freshContext : ParseContext Unit := createParseContext runningGame .metadata none ()

theorem processLine_freshContext {env : Env} {line : CString} {ctx' : ParseContext Unit}
    (h : processLine env freshContext line = some ctx') :
    ctx'.currentPatch = (Patch.blank true).readLine line := by
  by_cases hopens : OpensBlock line
  · rw [processLine_patch (hopens.lineKind_eq _)] at h
    have hkeep : handlePatchComplete env freshContext = some freshContext := if_pos rfl
    rw [hkeep] at h
    rw [← Option.some.inj h, Patch.readLine, show lineKind false line = .patch from hopens]
    rfl
  · exact (processLine_insideBlock hopens h).currentPatch

theorem keyStands_of_setsOnlyKey {k : Key} {n : ℕ} {v : CString} (h : SetsOnlyKey k n v) :
    KeyStands k n v := by
  have hset := h (hostWith []) freshContext ⟨runningGame, .metadata, none, (), none, none, [], rfl⟩
    (by simp [freshContext, createParseContext, Patch.blank])
  rw [← lineKind_keyLine_iff false]
  exact readLine_blank_eq_setKey (processLine_freshContext hset).symm

theorem handledAsEntry_of_plain {n : ℕ} (hn : 0 < n) {params : List CString}
    (hcount : params.length ≤ maxPatchParams) (hparams : ∀ v ∈ params, Quotable v)
    (h : ∀ v ∈ params, ∀ w ∈ entryKeys, ¬ w <:+: v) : HandledAsEntry n params := by
  intro σ env ctx _ _ hsection
  have hkind : lineKind ctx.inPatchesSection (indented n ("- ".toList ++ listText params)) =
      .entry := by
    rw [hsection]
    exact (lineKind_entryLine_iff hn params).2 h
  refine ⟨hkind, ?_, ?_⟩
  · intro hfits
    have hitems : parsePatchEntry (listText params) = ⟨params⟩ :=
      congrArg PatchEntry.mk (parseItems_listText List.not_mem_nil hparams hcount hfits)
    rw [processLine_entry hkind, indented, (solid_entry params).trim_indent]
    exact congrArg (processEntry env ctx) hitems
  · intro ctx' hstep
    rw [processLine_entry hkind] at hstep
    rcases processEntry_frame hstep with ⟨data, entries, allocs, rfl⟩
    rfl

theorem plain_of_handledAsEntry {n : ℕ} (hn : 0 < n) {params : List CString}
    (h : HandledAsEntry n params) : ∀ v ∈ params, ∀ w ∈ entryKeys, ¬ w <:+: v := by
  have hrun : runLines (hostWith []) freshContext ["patches:".toList] =
      some { freshContext with inPatchesSection := true } := by
    have hline : processLine (hostWith []) freshContext "patches:".toList =
        some { freshContext with inPatchesSection := true } := by
      have hopens : OpensEntries "patches:".toList := by decide
      rw [processLine_patches (hopens.lineKind_eq _)]
      rfl
    rw [runLines, List.foldlM_cons, hline]
    rfl
  have hkind := (h (hostWith []) { freshContext with inPatchesSection := true }
    ⟨runningGame, .metadata, none, (), none, none, _, hrun⟩
    (by simp [freshContext, createParseContext, Patch.blank]) rfl).1
  exact (lineKind_entryLine_iff hn params).1 hkind

/-- A key line sets its field exactly when its value holds no key that is looked for
earlier; an entry is taken as one exactly when its parameters hold no key at all. -/
theorem classified_iff (n : ℕ) :
    (∀ (k : Key) (v : CString), Quotable v → (SetsOnlyKey k n v ↔ KeyStands k n v)) ∧
      ∀ params : List CString, 0 < n → minPatchParams ≤ params.length →
        params.length ≤ maxPatchParams → (∀ v ∈ params, Quotable v) →
        (HandledAsEntry n params ↔ ∀ v ∈ params, ∀ w ∈ entryKeys, ¬ w <:+: v) := by
  apply And.intro
  · intro k v hv
    exact ⟨keyStands_of_setsOnlyKey, setsOnlyKey_of_keyStands hv⟩
  · intro params hn _ hcount hparams
    exact ⟨plain_of_handledAsEntry hn, handledAsEntry_of_plain hn hcount hparams⟩

theorem classified_colons :
    SetsOnlyKey .notes 2 "see notes: a:b".toList ∧
      HandledAsEntry 4 ["append_arg".toList, "--mode:x".toList, "y".toList] :=
  ⟨((classified_iff 2).1 .notes _ (by decide)).2 ⟨by decide, by decide⟩,
    ((classified_iff 4).2 _ (by decide) (by decide) (by decide) (by decide)).2 (by decide)⟩

/-- `name: "title: x"` sets the title. -/
theorem not_setsOnlyKey :
    Quotable "title: x".toList ∧ ¬ SetsOnlyKey .name 2 "title: x".toList := by
  refine ⟨by decide, fun h => ?_⟩
  have hstands := keyStands_of_setsOnlyKey h
  exact hstands.earlier .title (by decide) (by decide)

end GamePatch
