import GamePatch.Verification.Parser.Blocks
import GamePatch.Verification.Parser.Stored
import GamePatch.Verification.Parser.Text

/-! # Rendered blocks

A block is written down as rows of text: its fields in any order, its `patches:`
line and its entries, with blank lines and comments between them. -/

namespace GamePatch

/-! ## Blocks and their rows -/

/-- The versions that a block is for. -/
inductive Versions where
  | single (v : CString)
  | list (vs : List CString)
  deriving DecidableEq, Repr

def Versions.all : Versions → List CString
  | .single v => [v]
  | .list vs => vs

def Versions.isList : Versions → Bool
  | .single _ => false
  | .list _ => true

def Versions.text : Versions → CString
  | .single v => quote v
  | .list vs => listText vs

/-- The fields of a block. -/
structure PatchSource where
  title : CString
  name : CString
  notes : CString
  author : CString
  version : CString
  appBin : CString
  appVer : Versions
  deriving DecidableEq, Repr

def PatchSource.value (s : PatchSource) : Key → CString
  | .title => s.title
  | .name => s.name
  | .notes => s.notes
  | .author => s.author
  | .version => s.version
  | .appBin => s.appBin

/-- The block that the parser should hold. -/
def PatchSource.patch (s : PatchSource) : Patch where
  title := some s.title
  name := some s.name
  notes := some s.notes
  author := some s.author
  version := some s.version
  appBin := some s.appBin
  appVer := some s.appVer.all
  isAppVerList := s.appVer.isList

inductive Field where
  | key (k : Key)
  | appVer
  deriving DecidableEq, Repr

def PatchSource.fieldText (s : PatchSource) : Field → CString
  | .key k => k.text ++ ' ' :: quote (s.value k)
  | .appVer => "app_ver: ".toList ++ s.appVer.text

def indented (n : ℕ) (text : CString) : CString := List.replicate n ' ' ++ text

/-- A row before the `patches:` line. -/
inductive HeaderRow where
  | filler (line : CString)
  | field (indent : ℕ) (f : Field)
  deriving DecidableEq, Repr

def HeaderRow.text (s : PatchSource) : HeaderRow → CString
  | .filler line => line
  | .field n f => indented n (s.fieldText f)

def HeaderRow.field? : HeaderRow → Option Field
  | .filler _ => none
  | .field _ f => some f

/-- A row behind the `patches:` line. -/
inductive BodyRow where
  | filler (line : CString)
  | entry (indent : ℕ) (params : List CString)
  deriving DecidableEq, Repr

def BodyRow.text : BodyRow → CString
  | .filler line => line
  | .entry n params => indented n ("- ".toList ++ listText params)

def BodyRow.entry? : BodyRow → Option PatchEntry
  | .filler _ => none
  | .entry _ params => some ⟨params⟩

/-- A blank line or a comment. -/
def FillerRow (line : CString) : Prop :=
  isCommentOrEmpty line = true ∧ '\x00' ∉ line ∧ '\n' ∉ line

instance (line : CString) : Decidable (FillerRow line) :=
  inferInstanceAs (Decidable (_ ∧ _ ∧ _))

def HeaderRow.Valid : HeaderRow → Prop
  | .filler line => FillerRow line
  | .field _ _ => True

instance : ∀ row : HeaderRow, Decidable row.Valid
  | .filler line => inferInstanceAs (Decidable (FillerRow line))
  | .field _ _ => inferInstanceAs (Decidable True)

/-- An entry has three to eight plain parameters. -/
def BodyRow.Valid : BodyRow → Prop
  | .filler line => FillerRow line
  | .entry _ params => minPatchParams ≤ params.length ∧ params.length ≤ maxPatchParams ∧
      ∀ v ∈ params, PlainValue v

instance : ∀ row : BodyRow, Decidable row.Valid
  | .filler line => inferInstanceAs (Decidable (FillerRow line))
  | .entry _ _ => inferInstanceAs (Decidable (_ ∧ _ ∧ _))

/-- A block with the rows it is written in. -/
structure RenderedBlock extends PatchSource where
  headerRows : List HeaderRow
  patchesIndent : ℕ
  bodyRows : List BodyRow
  plain_value : ∀ k ∈ Key.cascade, PlainValue (toPatchSource.value k)
  plain_appVer : ∀ v ∈ appVer.all, PlainValue v
  appVer_length : 1 ≤ appVer.all.length ∧ appVer.all.length ≤ maxArrayLength
  gives_key : ∀ k ∈ Key.cascade, Field.key k ∈ headerRows.filterMap HeaderRow.field?
  gives_appVer : Field.appVer ∈ headerRows.filterMap HeaderRow.field?
  valid_header : ∀ row ∈ headerRows, row.Valid
  valid_body : ∀ row ∈ bodyRows, row.Valid

namespace RenderedBlock

def entries (b : RenderedBlock) : List PatchEntry := b.bodyRows.filterMap BodyRow.entry?

def patchesRow (b : RenderedBlock) : CString := indented b.patchesIndent "patches:".toList

/-- The rows behind the opening one. -/
def inner (b : RenderedBlock) : List CString :=
  b.headerRows.map (HeaderRow.text b.toPatchSource) ++
    b.patchesRow :: b.bodyRows.map BodyRow.text

def rows (b : RenderedBlock) : List CString := "patch:".toList :: b.inner

end RenderedBlock

/-- A patch file: fillers, then blocks, all rows being short. -/
structure Document where
  preamble : List CString
  blocks : List RenderedBlock
  filler_preamble : ∀ line ∈ preamble, FillerRow line
  short : ∀ row ∈ preamble ++ blocks.flatMap RenderedBlock.rows, row.length ≤ 1000

def Document.rows (doc : Document) : List CString :=
  doc.preamble ++ doc.blocks.flatMap RenderedBlock.rows

/-! ## The kinds of the rows -/

theorem FillerRow.filler {line : CString} (h : FillerRow line) : Filler line := by
  refine Or.inl ?_
  unfold lineKind
  rw [if_pos h.1]

/-- The kind of a line with a single colon depends on what stands before it. -/
theorem lineKind_of_colon {w rest : CString} (hw : ':' ∉ w) (hrest : ':' ∉ rest)
    (hsolid : Solid (w ++ ':' :: rest)) (hhash : (w ++ ':' :: rest).head? ≠ some '#')
    (htitleid : ¬ "titleid".toList <:+ w) (hpatch : ¬ "patch".toList <:+ w) (n : ℕ) :
    lineKind false (indented n (w ++ ':' :: rest)) =
      ((Key.cascade.find? fun k => decide (k.text.dropLast <:+ w)).map LineKind.key).getD
        (if "app_ver".toList <:+ w then .appVer
        else if "patches".toList <:+ w then .patches
        else .other) := by
  have hcontains : ∀ key : CString, key = key.dropLast ++ [':'] →
      contains (w ++ ':' :: rest) key = decide (key.dropLast <:+ w) := by
    intro key hkey
    rw [hkey, contains_of_colon hw hrest, ← hkey]
  have hcascade : (fun k : Key => contains (w ++ ':' :: rest) k.text) =
      fun k => decide (k.text.dropLast <:+ w) := by
    funext k
    exact hcontains k.text (by cases k <;> rfl)
  have h1 : contains (w ++ ':' :: rest) "titleid:".toList = false := by
    rw [hcontains _ rfl]
    exact decide_eq_false htitleid
  have h2 : contains (w ++ ':' :: rest) "patch:".toList = false := by
    rw [hcontains _ rfl]
    exact decide_eq_false hpatch
  have h3 : contains (w ++ ':' :: rest) "app_ver:".toList = decide ("app_ver".toList <:+ w) :=
    hcontains _ rfl
  have h4 : contains (w ++ ':' :: rest) "patches:".toList = decide ("patches".toList <:+ w) :=
    hcontains _ rfl
  unfold lineKind indented
  simp only [hsolid.trim_indent, hsolid.not_comment hhash, h1, h2, h3, h4, hcascade,
    Bool.false_eq_true, and_false, false_and, if_false, decide_eq_true_eq]
  cases Key.cascade.find? fun k => decide (k.text.dropLast <:+ w) <;> rfl

/-- A line without a colon is an entry or unknown. -/
theorem lineKind_of_no_colon {text : CString} (hcolon : ':' ∉ text) (hsolid : Solid text)
    (hhash : text.head? ≠ some '#') (inPatches : Bool) (n : ℕ) :
    lineKind inPatches (indented n text) =
      if inPatches ∧ "- [".toList.isPrefixOf text then .entry else .other := by
  have hcontains : ∀ w : CString, contains text (w ++ [':']) = false :=
    contains_of_no_colon hcolon
  have hfind : Key.cascade.find? (fun k => contains text k.text) = none := by
    rw [List.find?_eq_none]
    intro k _
    rw [show k.text = k.text.dropLast ++ [':'] by cases k <;> rfl, hcontains]
    simp
  have h1 : contains text "titleid:".toList = false := hcontains "titleid".toList
  have h2 : contains text "patch:".toList = false := hcontains "patch".toList
  have h3 : contains text "app_ver:".toList = false := hcontains "app_ver".toList
  have h4 : contains text "patches:".toList = false := hcontains "patches".toList
  unfold lineKind indented
  simp only [hsolid.trim_indent, hsolid.not_comment hhash, h1, h2, h3, h4, hfind,
    Bool.false_eq_true, and_false, if_false]

/-- A key starts with a letter. -/
theorem Key.text_eq_cons (k : Key) :
    ∃ c rest, k.text = c :: rest ∧ isspace c = false ∧ c ≠ '#' := by
  cases k <;> exact ⟨_, _, rfl, by decide, by decide⟩

theorem Key.text_eq_append (k : Key) : k.text = k.text.dropLast ++ [':'] := by
  cases k <;> rfl

theorem solid_key (k : Key) (v : CString) : Solid (k.text ++ ' ' :: quote v) := by
  obtain ⟨c, rest, htext, hc, -⟩ := k.text_eq_cons
  exact ⟨⟨c, rest ++ ' ' :: quote v, by rw [htext]; rfl, hc⟩,
    ⟨k.text ++ ' ' :: '"' :: v, '"', by simp [quote], rfl⟩⟩

theorem head_key_ne_hash (k : Key) (v : CString) :
    (k.text ++ ' ' :: quote v).head? ≠ some '#' := by
  rcases k.text_eq_cons with ⟨c, rest, htext, -, hc⟩
  simpa [htext] using hc

theorem lineKind_key (k : Key) {v : CString} (hv : PlainValue v) (n : ℕ) :
    lineKind false (indented n (k.text ++ ' ' :: quote v)) = .key k := by
  have hrest : ':' ∉ ' ' :: quote v := by
    simpa using not_mem_quote hv (c := ':') (by decide) (by decide)
  have hsolid := solid_key k v
  have hhash := head_key_ne_hash k v
  rw [k.text_eq_append, List.append_assoc, List.singleton_append] at hsolid hhash ⊢
  rw [lineKind_of_colon (by cases k <;> decide) hrest hsolid hhash (by cases k <;> decide)
    (by cases k <;> decide)]
  cases k <;> decide

/-- Versions are written with a quote or a bracket at the end. -/
theorem Versions.text_eq_append (vs : Versions) :
    ∃ init c, vs.text = init ++ [c] ∧ isspace c = false := by
  cases vs with
  | single v => exact ⟨'"' :: v, '"', rfl, rfl⟩
  | list vs => exact ⟨"[ ".toList ++ itemsText vs ++ [' '], ']', by simp [text, listText], rfl⟩

theorem Versions.not_mem_text {vs : Versions} (hvs : ∀ v ∈ vs.all, PlainValue v) :
    ':' ∉ vs.text := by
  cases vs with
  | single v => exact not_mem_quote (hvs v (by simp [all])) (by decide) (by decide)
  | list vs => exact not_mem_listText hvs (by decide) (by decide)

theorem solid_appVer (vs : Versions) : Solid ("app_ver: ".toList ++ vs.text) := by
  obtain ⟨init, c, htext, hc⟩ := vs.text_eq_append
  exact ⟨⟨'a', "pp_ver: ".toList ++ vs.text, rfl, rfl⟩,
    ⟨"app_ver: ".toList ++ init, c, by rw [htext, List.append_assoc], hc⟩⟩

theorem lineKind_appVer {vs : Versions} (hvs : ∀ v ∈ vs.all, PlainValue v) (n : ℕ) :
    lineKind false (indented n ("app_ver: ".toList ++ vs.text)) = .appVer := by
  have hrest : ':' ∉ ' ' :: vs.text := by
    simpa using Versions.not_mem_text hvs
  have htext : "app_ver: ".toList ++ vs.text = "app_ver".toList ++ ':' :: (' ' :: vs.text) := rfl
  have hsolid := solid_appVer vs
  have hhash : ("app_ver: ".toList ++ vs.text).head? ≠ some '#' := by
    show some 'a' ≠ some '#'
    decide
  rw [htext] at hsolid hhash ⊢
  rw [lineKind_of_colon (by decide) hrest hsolid hhash (by decide) (by decide)]
  decide

theorem opensEntries_patches (n : ℕ) : OpensEntries (indented n "patches:".toList) := by
  have htext : "patches:".toList = "patches".toList ++ ':' :: [] := rfl
  have hsolid : Solid "patches:".toList :=
    ⟨⟨'p', "atches:".toList, rfl, rfl⟩, ⟨"patches".toList, ':', rfl, rfl⟩⟩
  rw [htext] at hsolid ⊢
  rw [OpensEntries, lineKind_of_colon (by decide) (by decide) hsolid (by decide) (by decide)
    (by decide)]
  decide

theorem opensBlock_patch : OpensBlock "patch:".toList := by
  decide

theorem solid_entry (params : List CString) : Solid ("- ".toList ++ listText params) :=
  ⟨⟨'-', ' ' :: listText params, rfl, rfl⟩,
    ⟨"- [ ".toList ++ itemsText params ++ [' '], ']', by simp [listText], rfl⟩⟩

theorem head_entry_ne_hash (params : List CString) :
    ("- ".toList ++ listText params).head? ≠ some '#' := by
  show some '-' ≠ some '#'
  decide

theorem lineKind_entry {params : List CString} (hparams : ∀ v ∈ params, PlainValue v)
    (inPatches : Bool) (n : ℕ) :
    lineKind inPatches (indented n ("- ".toList ++ listText params)) =
      if inPatches then .entry else .other := by
  have hcolon : ':' ∉ "- ".toList ++ listText params := by
    simpa using not_mem_listText hparams (c := ':') (by decide) (by decide)
  have hprefix : "- [".toList.isPrefixOf ("- ".toList ++ listText params) = true := rfl
  rw [lineKind_of_no_colon hcolon (solid_entry params) (head_entry_ne_hash params), hprefix]
  cases inPatches <;> rfl

/-! ## What the rows give -/

theorem Patch.readLine_of_key {line : CString} {k : Key} (h : lineKind false line = .key k)
    (patch : Patch) :
    patch.readLine line = patch.setKey k (parseQuotedString (trim line)) := by
  simp [readLine, h]

theorem Patch.readLine_of_appVer {line : CString} (h : lineKind false line = .appVer)
    (patch : Patch) : patch.readLine line = patch.setAppVer (trim line) := by
  simp [readLine, h]

theorem parseQuotedString_key (k : Key) {v : CString} (hv : Quotable v) (n : ℕ) :
    parseQuotedString (trim (indented n (k.text ++ ' ' :: quote v))) = some v := by
  have hmark : '"' ∉ k.text ++ [' '] := by
    cases k <;> decide
  rw [indented, (solid_key k v).trim_indent]
  simpa [quote] using parseQuotedString_append hmark hv []

theorem isListValue_text (vs : Versions) :
    isListValue ("app_ver: ".toList ++ vs.text) = vs.isList := by
  have hcolon : strchr ':' ("app_ver: ".toList ++ vs.text) = some (':' :: ' ' :: vs.text) :=
    strchr_append (a := "app_ver".toList) (by decide)
  rw [isListValue, hcolon]
  cases vs <;> rfl

theorem length_le_indented (n : ℕ) (text : CString) : text.length ≤ (indented n text).length := by
  simp [indented]

theorem Patch.setAppVer_text (patch : Patch) (happVer : patch.appVer ≠ none) {vs : Versions}
    (hvs : ∀ v ∈ vs.all, PlainValue v) (hcount : vs.all.length ≤ maxArrayLength) {n : ℕ}
    (hlen : (indented n ("app_ver: ".toList ++ vs.text)).length ≤ maxLineLength) :
    patch.setAppVer (trim (indented n ("app_ver: ".toList ++ vs.text))) =
      { patch with isAppVerList := vs.isList, appVer := some vs.all } := by
  have hshort := (length_le_indented n _).trans hlen
  obtain ⟨old, hold⟩ := Option.ne_none_iff_exists'.mp happVer
  rw [indented, (solid_appVer vs).trim_indent, setAppVer, isListValue_text, hold]
  cases vs with
  | single v =>
      have hquoted : parseQuotedString ("app_ver: ".toList ++ quote v) = some v :=
        parseQuotedString_append (by decide) (hvs v List.mem_cons_self).quotable []
      rw [Versions.text, hquoted]
      rfl
  | list vs =>
      have hitems : parseStringList ("app_ver: ".toList ++ listText vs) maxArrayLength = vs :=
        parseItems_listText (by decide) (fun v hv => (hvs v hv).quotable) hcount hshort
      rw [Versions.text, hitems]
      rfl

/-- The entry of a row behind the `patches:` line. -/
theorem lineEntries_entry {params : List CString} (hparams : ∀ v ∈ params, PlainValue v)
    (hmin : minPatchParams ≤ params.length) (hmax : params.length ≤ maxPatchParams) {n : ℕ}
    (hlen : (indented n ("- ".toList ++ listText params)).length ≤ maxLineLength) :
    lineEntries true (indented n ("- ".toList ++ listText params)) = [⟨params⟩] := by
  have hshort := (length_le_indented n _).trans hlen
  have hitems : parsePatchEntry (listText params) = ⟨params⟩ := by
    refine congrArg PatchEntry.mk (parseItems_listText (p := []) (by simp)
      (fun v hv => (hparams v hv).quotable) hmax ?_)
    simp only [List.length_append] at hshort
    rw [List.nil_append]
    omega
  have hdrop : ("- ".toList ++ listText params).drop 2 = listText params := rfl
  rw [lineEntries, lineKind_entry hparams, if_pos rfl, if_pos rfl, indented,
    (solid_entry params).trim_indent, hdrop, hitems]
  simp [hmin]

/-- With one `patches:` line, the entries are those of the lines behind it. -/
theorem sectionEntries_split {header body : List CString} {patches : CString}
    (hheader : ∀ line ∈ header, Plain line) (hpatches : OpensEntries patches)
    (hbody : ∀ line ∈ body, Plain line) :
    sectionEntries false (header ++ patches :: body) = body.flatMap (lineEntries true) := by
  induction header with
  | nil =>
      rw [List.nil_append, sectionEntries, lineEntries_false, decide_eq_true hpatches,
        sectionEntries_plain hbody]
      rfl
  | cons line header ih =>
      rw [List.cons_append, sectionEntries, lineEntries_false,
        decide_eq_false (hheader line (by simp)).2, Bool.or_false,
        ih fun l hl => hheader l (List.mem_cons_of_mem line hl), List.nil_append]

/-! ## The block read from its rows -/

/-- A field's value once its row has been read. -/
def PatchSource.keyGiven (s : PatchSource) (fields : List Field) (k : Key) : Option CString :=
  if Field.key k ∈ fields then some (s.value k) else none

/-- The block once the rows of some fields have been read. -/
def PatchSource.given (s : PatchSource) (fields : List Field) : Patch where
  title := s.keyGiven fields .title
  name := s.keyGiven fields .name
  notes := s.keyGiven fields .notes
  author := s.keyGiven fields .author
  version := s.keyGiven fields .version
  appBin := s.keyGiven fields .appBin
  appVer := if Field.appVer ∈ fields then some s.appVer.all else some []
  isAppVerList := if Field.appVer ∈ fields then s.appVer.isList else false

namespace PatchSource

variable (s : PatchSource) (fields : List Field)

theorem given_nil : s.given [] = Patch.blank true := rfl

theorem given_key (k : Key) :
    (s.given fields).setKey k (some (s.value k)) = s.given (fields ++ [.key k]) := by
  cases k <;> simp [given, keyGiven, Patch.setKey]

theorem given_appVer :
    { s.given fields with isAppVerList := s.appVer.isList, appVer := some s.appVer.all } =
      s.given (fields ++ [.appVer]) := by
  simp [given, keyGiven]

theorem given_all (hkeys : ∀ k, Field.key k ∈ fields) (happVer : Field.appVer ∈ fields) :
    s.given fields = s.patch := by
  have hgiven : s.keyGiven fields = fun k => some (s.value k) := by
    funext k
    exact if_pos (hkeys k)
  rw [given, hgiven, if_pos happVer, if_pos happVer]
  rfl

end PatchSource

namespace RenderedBlock

variable (b : RenderedBlock)

theorem plainValue (k : Key) : PlainValue (b.value k) :=
  b.plain_value k (by cases k <;> decide)

/-- A row before the `patches:` line adds its field. -/
theorem readLine_header {row : HeaderRow} (hrow : row.Valid)
    (hlen : (row.text b.toPatchSource).length ≤ maxLineLength) (fields : List Field) :
    (b.given fields).readLine (row.text b.toPatchSource) =
      b.given (fields ++ row.field?.toList) := by
  cases row with
  | filler line =>
      rw [HeaderRow.field?, Option.toList_none, List.append_nil]
      exact Patch.readLine_of_filler hrow.filler _
  | field n f =>
      cases f with
      | key k =>
          have hkind :
              lineKind false ((HeaderRow.field n (.key k)).text b.toPatchSource) = .key k :=
            lineKind_key k (b.plainValue k) n
          have hvalue : parseQuotedString
              (trim ((HeaderRow.field n (.key k)).text b.toPatchSource)) = some (b.value k) :=
            parseQuotedString_key k (b.plainValue k).quotable n
          rw [Patch.readLine_of_key hkind, hvalue]
          exact b.given_key fields k
      | appVer =>
          have hkind :
              lineKind false ((HeaderRow.field n .appVer).text b.toPatchSource) = .appVer :=
            lineKind_appVer b.plain_appVer n
          have hgiven : (b.given fields).appVer ≠ none := by
            unfold PatchSource.given
            dsimp only
            split_ifs <;> simp
          rw [Patch.readLine_of_appVer hkind]
          exact (Patch.setAppVer_text _ hgiven b.plain_appVer b.appVer_length.2 hlen).trans
            (b.given_appVer fields)

theorem foldl_header (rows : List HeaderRow) (hrows : ∀ row ∈ rows, row.Valid)
    (hlen : ∀ row ∈ rows, (row.text b.toPatchSource).length ≤ maxLineLength)
    (fields : List Field) :
    (rows.map (HeaderRow.text b.toPatchSource)).foldl Patch.readLine (b.given fields) =
      b.given (fields ++ rows.filterMap HeaderRow.field?) := by
  induction rows generalizing fields with
  | nil => simp
  | cons row rows ih =>
      rw [List.map_cons, List.foldl_cons,
        b.readLine_header (hrows row (by simp)) (hlen row (by simp)),
        ih (fun r hr => hrows r (List.mem_cons_of_mem row hr))
          (fun r hr => hlen r (List.mem_cons_of_mem row hr))]
      cases hfield : row.field? <;> simp [hfield]

theorem plain_header {row : HeaderRow} (hrow : row.Valid) : Plain (row.text b.toPatchSource) := by
  cases row with
  | filler line => exact hrow.filler.plain
  | field n f =>
      have hkind : lineKind false ((HeaderRow.field n f).text b.toPatchSource) =
          match f with
          | .key k => .key k
          | .appVer => .appVer := by
        cases f with
        | key k => exact lineKind_key k (b.plainValue k) n
        | appVer => exact lineKind_appVer b.plain_appVer n
      rw [Plain, OpensBlock, OpensEntries, hkind]
      cases f <;> simp

theorem opensEntries_patchesRow : OpensEntries b.patchesRow := opensEntries_patches b.patchesIndent

theorem filler_body {row : BodyRow} (hrow : row.Valid) : Filler row.text := by
  cases row with
  | filler line => exact hrow.filler
  | entry n params => exact Or.inr (Or.inr (lineKind_entry hrow.2.2 false n))

/-- The lines of a rendered block give the block. -/
theorem ownPatch_inner (hlen : ∀ line ∈ b.inner, line.length ≤ maxLineLength) :
    ownPatch true b.inner = b.patch := by
  have hheader : ∀ row ∈ b.headerRows, (row.text b.toPatchSource).length ≤ maxLineLength :=
    fun row hrow => hlen _ (List.mem_append_left _ (List.mem_map_of_mem hrow))
  have hbody : ∀ line ∈ b.bodyRows.map BodyRow.text, Filler line :=
    List.forall_mem_map.mpr fun row hrow => filler_body (b.valid_body row hrow)
  rw [ownPatch, inner, List.foldl_append, List.foldl_cons, ← b.given_nil,
    b.foldl_header b.headerRows b.valid_header hheader,
    Patch.readLine_of_opensEntries b.opensEntries_patchesRow,
    foldl_readLine_of_filler hbody, List.nil_append]
  exact b.given_all _ (fun k => b.gives_key k (by cases k <;> decide)) b.gives_appVer

theorem lineEntries_body {row : BodyRow} (hrow : row.Valid)
    (hlen : row.text.length ≤ maxLineLength) : lineEntries true row.text = row.entry?.toList := by
  cases row with
  | filler line =>
      have hkind : lineKind true line = .ignored := by
        unfold lineKind
        rw [if_pos hrow.1]
      rw [BodyRow.text, lineEntries, hkind]
      rfl
  | entry n params => exact lineEntries_entry hrow.2.2 hrow.1 hrow.2.1 hlen

/-- The lines of a rendered block give its entries in order. -/
theorem sectionEntries_inner (hlen : ∀ line ∈ b.inner, line.length ≤ maxLineLength) :
    sectionEntries false b.inner = b.entries := by
  have hheader : ∀ line ∈ b.headerRows.map (HeaderRow.text b.toPatchSource), Plain line :=
    List.forall_mem_map.mpr fun row hrow => b.plain_header (b.valid_header row hrow)
  have hbody : ∀ line ∈ b.bodyRows.map BodyRow.text, Plain line :=
    List.forall_mem_map.mpr fun row hrow => (filler_body (b.valid_body row hrow)).plain
  rw [inner, sectionEntries_split hheader b.opensEntries_patchesRow hbody,
    List.flatMap_map, entries, List.filterMap_eq_flatMap_toList]
  refine List.flatMap_congr fun row hrow => ?_
  refine lineEntries_body (b.valid_body row hrow) (hlen _ ?_)
  exact List.mem_append_right _ (List.mem_cons_of_mem _ (List.mem_map_of_mem hrow))

theorem not_opensBlock_inner : ∀ line ∈ b.inner, ¬ OpensBlock line := by
  intro line hline
  rw [inner, List.mem_append, List.mem_cons] at hline
  rcases hline with hline | rfl | hline
  · obtain ⟨row, hrow, rfl⟩ := List.mem_map.mp hline
    exact (b.plain_header (b.valid_header row hrow)).1
  · intro hopens
    cases hopens.symm.trans b.opensEntries_patchesRow
  · obtain ⟨row, hrow, rfl⟩ := List.mem_map.mp hline
    exact (filler_body (b.valid_body row hrow)).plain.1

end RenderedBlock

end GamePatch
