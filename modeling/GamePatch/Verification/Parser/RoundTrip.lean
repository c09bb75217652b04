import GamePatch.Model.ParseFile
import GamePatch.Verification.Parser.Listing
import GamePatch.Verification.Parser.Rendering

/-! # Rendered files are read back

The host reads a rendered file row by row and stores, in file order, one record for
each block of the wanted title and each of its versions that is the game's. -/

namespace GamePatch

variable {σ : Type} {env : Env}

/-! ## Reading rows -/

/-- Rows one under the other, the last one closed by a newline or not. -/
def joinRows (closed : Bool) : List CString → List Char
  | [] => []
  | [row] => if closed then row ++ ['\n'] else row
  | row :: next :: rows => row ++ '\n' :: joinRows closed (next :: rows)

/-- A row that `fgets` reads whole and that is a string. -/
structure ReadableRow (row : CString) : Prop where
  newline : '\n' ∉ row
  zero : '\x00' ∉ row
  short : row.length ≤ 1000

theorem takeLine_closed {row : List Char} (hrow : '\n' ∉ row) (rest : List Char) {n : ℕ}
    (hn : row.length < n) : takeLine n (row ++ '\n' :: rest) = (row ++ ['\n'], rest) := by
  induction row generalizing n with
  | nil =>
      obtain ⟨n, rfl⟩ := Nat.exists_eq_add_one.mpr hn
      simp [takeLine]
  | cons c row ih =>
      have hc : c ≠ '\n' := fun h => hrow (by simp [h])
      obtain ⟨n, rfl⟩ := Nat.exists_eq_add_one.mpr (Nat.zero_lt_of_lt hn)
      rw [List.cons_append, takeLine, if_neg hc,
        ih (fun h => hrow (List.mem_cons_of_mem c h)) (Nat.lt_of_succ_lt_succ hn)]
      rfl

theorem takeLine_open {row : List Char} (hrow : '\n' ∉ row) {n : ℕ} (hn : row.length ≤ n) :
    takeLine n row = (row, []) := by
  induction row generalizing n with
  | nil => cases n <;> rfl
  | cons c row ih =>
      have hc : c ≠ '\n' := fun h => hrow (by simp [h])
      obtain ⟨n, rfl⟩ := Nat.exists_eq_add_one.mpr (Nat.zero_lt_of_lt hn)
      rw [takeLine, if_neg hc,
        ih (fun h => hrow (List.mem_cons_of_mem c h)) (Nat.le_of_succ_le_succ hn)]

theorem fgetsLines_nil (fuel : ℕ) : fgetsLines fuel [] = [] := by
  cases fuel <;> rfl

theorem fgetsLines_closed {row : CString} (hrow : ReadableRow row) (fuel : ℕ) (rest : List Char) :
    fgetsLines (fuel + 1) (row ++ '\n' :: rest) = (row ++ ['\n']) :: fgetsLines fuel rest := by
  have hlen : row.length < maxLineLength - 1 := by
    have := hrow.short
    unfold maxLineLength
    omega
  have hzero : '\x00' ∉ row ++ ['\n'] := by
    simpa using hrow.zero
  rw [fgetsLines, fgets, if_neg (by simp), takeLine_closed hrow.newline rest hlen]
  dsimp only
  rw [cstring_of_not_mem hzero]

theorem fgetsLines_open {row : CString} (hrow : ReadableRow row) (hne : row ≠ []) (fuel : ℕ) :
    fgetsLines (fuel + 1) row = [row] := by
  have hlen : row.length ≤ maxLineLength - 1 := by
    have := hrow.short
    unfold maxLineLength
    omega
  rw [fgetsLines, fgets, if_neg hne, takeLine_open hrow.newline hlen]
  dsimp only
  rw [cstring_of_not_mem hrow.zero, fgetsLines_nil]

theorem processLine_nil (ctx : ParseContext σ) : processLine env ctx [] = some ctx :=
  processLine_ignored (by simp [lineKind, isCommentOrEmpty])

/-- The parser reads the rows of a file, however the file ends. -/
theorem runLines_joinRows (closed : Bool) (rows : List CString)
    (hrows : ∀ row ∈ rows, ReadableRow row) (fuel : ℕ)
    (hfuel : (joinRows closed rows).length < fuel) (ctx : ParseContext σ) :
    runLines env ctx (fgetsLines fuel (joinRows closed rows)) = runLines env ctx rows := by
  obtain ⟨fuel, rfl⟩ := Nat.exists_eq_add_one.mpr (Nat.zero_lt_of_lt hfuel)
  induction rows generalizing fuel ctx with
  | nil => rw [joinRows, fgetsLines_nil]
  | cons row rows ih =>
      have hrow := hrows row (by simp)
      cases rows with
      | nil =>
          cases closed with
          | true =>
              rw [joinRows, if_pos rfl, fgetsLines_closed hrow, fgetsLines_nil, runLines_cons,
                processLine_newline, runLines_cons]
          | false =>
              rw [joinRows, if_neg (by simp)]
              by_cases hne : row = []
              · rw [hne, fgetsLines_nil, runLines_cons, processLine_nil]
                rfl
              · rw [fgetsLines_open hrow hne]
      | cons next rows =>
          rw [joinRows, List.length_append, List.length_cons] at hfuel
          obtain ⟨fuel, rfl⟩ := Nat.exists_eq_add_one.mpr (by omega : 0 < fuel)
          rw [joinRows, fgetsLines_closed hrow, runLines_cons, processLine_newline, runLines_cons]
          congr 1
          funext ctx'
          exact ih (fun r hr => hrows r (List.mem_cons_of_mem row hr)) ctx' fuel (by omega)

/-! ## The rows of a document -/

/-- The characters that no row may hold. -/
def EndsRow (c : Char) : Prop := c = '\n' ∨ c = '\x00'

section

variable {c : Char}

theorem EndsRow.not_mem_quote (hc : EndsRow c) {v : CString} (hv : PlainValue v) : c ∉ quote v := by
  rcases hc with rfl | rfl <;> exact GamePatch.not_mem_quote hv rfl (by decide)

theorem EndsRow.not_mem_listText (hc : EndsRow c) {vs : List CString}
    (hvs : ∀ v ∈ vs, PlainValue v) : c ∉ listText vs := by
  rcases hc with rfl | rfl <;> exact GamePatch.not_mem_listText hvs rfl (by decide)

theorem EndsRow.not_mem_indented (hc : EndsRow c) {text : CString} (h : c ∉ text) (n : ℕ) :
    c ∉ indented n text := by
  have hspace : c ≠ ' ' := by
    rcases hc with rfl | rfl <;> decide
  simp [indented, hspace, h]

theorem FillerRow.not_mem {line : CString} (h : FillerRow line) (hc : EndsRow c) : c ∉ line := by
  rcases hc with rfl | rfl
  · exact h.2.2
  · exact h.2.1

namespace RenderedBlock

variable (b : RenderedBlock)

theorem not_mem_fieldText (hc : EndsRow c) (f : Field) : c ∉ b.fieldText f := by
  cases f with
  | key k =>
      have hkey : c ∉ k.text ++ [' '] := by
        rcases hc with rfl | rfl <;> cases k <;> decide
      have htext : b.fieldText (.key k) = k.text ++ [' '] ++ quote (b.value k) := by
        rw [List.append_assoc]
        rfl
      rw [htext, List.mem_append]
      exact not_or_intro hkey (hc.not_mem_quote (b.plainValue k))
  | appVer =>
      have hkey : c ∉ "app_ver: ".toList := by
        rcases hc with rfl | rfl <;> decide
      have hversions : c ∉ b.appVer.text := by
        have hplain := b.plain_appVer
        cases happVer : b.appVer with
        | single v => exact hc.not_mem_quote (hplain v (by simp [happVer, Versions.all]))
        | list vs => exact hc.not_mem_listText (by simpa [happVer, Versions.all] using hplain)
      exact fun hmem => (List.mem_append.mp hmem).elim hkey hversions

theorem not_mem_header (hc : EndsRow c) {row : HeaderRow} (hrow : row.Valid) :
    c ∉ row.text b.toPatchSource := by
  cases row with
  | filler line => exact FillerRow.not_mem hrow hc
  | field n f => exact hc.not_mem_indented (b.not_mem_fieldText hc f) n

theorem not_mem_body (hc : EndsRow c) {row : BodyRow} (hrow : row.Valid) : c ∉ row.text := by
  cases row with
  | filler line => exact FillerRow.not_mem hrow hc
  | entry n params =>
      have hdash : c ∉ "- ".toList := by
        rcases hc with rfl | rfl <;> decide
      apply hc.not_mem_indented
      exact fun hmem => (List.mem_append.mp hmem).elim hdash (hc.not_mem_listText hrow.2.2)

theorem not_mem_rows (hc : EndsRow c) : ∀ row ∈ b.rows, c ∉ row := by
  intro row hrow
  rw [rows, inner, List.mem_cons, List.mem_append, List.mem_cons] at hrow
  rcases hrow with rfl | hrow | rfl | hrow
  · rcases hc with rfl | rfl <;> decide
  · obtain ⟨source, hsource, rfl⟩ := List.mem_map.mp hrow
    exact b.not_mem_header hc (b.valid_header source hsource)
  · apply hc.not_mem_indented
    rcases hc with rfl | rfl <;> decide
  · obtain ⟨source, hsource, rfl⟩ := List.mem_map.mp hrow
    exact not_mem_body hc (b.valid_body source hsource)

end RenderedBlock

end

theorem Document.readableRow (doc : Document) : ∀ row ∈ doc.rows, ReadableRow row := by
  intro row hrow
  have hfree : ∀ c, EndsRow c → c ∉ row := by
    intro c hc
    rcases List.mem_append.mp hrow with hpreamble | hblocks
    · exact (doc.filler_preamble row hpreamble).not_mem hc
    · obtain ⟨b, -, hb⟩ := List.mem_flatMap.mp hblocks
      exact b.not_mem_rows hc row hb
  exact ⟨hfree '\n' (Or.inl rfl), hfree '\x00' (Or.inr rfl), doc.short row hrow⟩

/-! ## The records of a document -/

/-- The record of a block for one of its versions, the block being the `i`-th. -/
def RenderedBlock.data (b : RenderedBlock) (env : Env) (game : GamePatchInfo) (i : ℕ)
    (v : CString × ℕ) : PatchData :=
  ⟨versionMetadata env game i b.patch (some v.1, v.2), b.entries⟩

/-- The records of the blocks with the wanted title, for their versions that are
the game's. -/
def Document.data (doc : Document) (env : Env) (game : GamePatchInfo) (title : Option CString) :
    List PatchData :=
  doc.blocks.zipIdx.flatMap fun p =>
    if title = some p.1.title then
      (p.1.appVer.all.zipIdx.filter fun v => v.1 = game.appVer).map (p.1.data env game p.2)
    else []

/-- The file that holds a document, its last row closed by a newline or not. -/
def Document.text (doc : Document) (closed : Bool) : List Char := joinRows closed doc.rows

theorem sizeT_number (env : Env) (i k : ℕ) :
    env.sizeT (env.sizeT i * 100 + k) = env.sizeT (i * 100 + k) := by
  simp [Env.sizeT, Nat.add_mod, Nat.mul_mod]

theorem versionMetadata_sizeT (env : Env) (game : GamePatchInfo) (i : ℕ) (patch : Patch)
    (v : Option CString × ℕ) :
    versionMetadata env game (env.sizeT i) patch v = versionMetadata env game i patch v := by
  have hhash : versionHash env game (env.sizeT i) patch v = versionHash env game i patch v := by
    rw [versionHash, sizeT_number]
    rfl
  rw [versionMetadata, hhash, sizeT_number]
  rfl

namespace RenderedBlock

variable (b : RenderedBlock) {game : GamePatchInfo} {title : Option CString} {i : ℕ}

theorem versions_patch : b.patch.versions = b.appVer.all.zipIdx.map (Prod.map some id) := by
  have hversions : b.patch.appVers = b.appVer.all := rfl
  have hlen := b.appVer_length.1
  rw [Patch.versions, hversions]
  cases hall : b.appVer.all with
  | nil =>
      rw [hall] at hlen
      exact absurd hlen (by simp)
  | cons v vs => exact List.zipIdx_map

theorem completes (hprx : env.prx = false) (hlen : ∀ line ∈ b.inner, line.length ≤ maxLineLength) :
    Completes env .all game i b.inner := by
  have hown := b.ownPatch_inner hlen
  refine ⟨b.not_opensBlock_inner, ?_, ?_⟩
  · rw [hown]
    exact Option.some_ne_none b.title
  · intro v hv
    rw [hown, b.versions_patch] at hv
    obtain ⟨w, -, rfl⟩ := List.mem_map.mp hv
    rw [hown]
    refine ⟨Option.some_ne_none w.1, fun _ => ?_⟩
    apply metadataDefined_of_host hprx (Option.some_ne_none b.appBin)
    -- No string of the block is absent, so none of its copies can fail.
    have hcopy : ∀ str, env.strDup (some str) = some (some str) := by
      intro str
      simp [Env.strDup]
    simp [PatchSource.patch, hcopy]

theorem blockData_inner (hlen : ∀ line ∈ b.inner, line.length ≤ maxLineLength) :
    blockData env .all game title i b.inner =
      if title = some b.title then
        (b.appVer.all.zipIdx.filter fun v => v.1 = game.appVer).map (b.data env game i)
      else [] := by
  rw [blockData, b.ownPatch_inner hlen, b.sectionEntries_inner hlen, b.versions_patch,
    ParseMode.storedData, if_pos rfl, ParseMode.keeps, if_pos rfl, List.filterMap_map]
  by_cases htitle : title = some b.title
  · rw [if_pos htitle, ← List.filterMap_eq_map, List.filterMap_filter]
    apply List.filterMap_congr
    rintro ⟨v, k⟩ _
    have hwanted : title = b.patch.title := htitle
    have hsome : title ≠ none := by simp [htitle]
    simp [versionData, versionMetadata_sizeT, data, ← hwanted, hsome]
  · rw [if_neg htitle, List.filterMap_eq_nil_iff]
    intro v _
    have hwanted : ¬ title = b.patch.title := htitle
    simp [versionData, hwanted]

end RenderedBlock

/-- The host reads the records of a document back from its file. -/
theorem Document.parsePatchFile_text (doc : Document) (closed : Bool) (env : Env)
    (game : GamePatchInfo) (title : Option CString) (data : σ) (hprx : env.prx = false)
    (halloc : ∀ n, env.alloc n = true) :
    ∃ ctx, parsePatchFile env (createParseContext game .all title data)
        (some (doc.text closed)) = some (ctx, 0) ∧
      ctx.allPatches.elems = doc.data env game title := by
  have hinner : ∀ b ∈ doc.blocks, ∀ line ∈ b.inner, line.length ≤ maxLineLength := by
    intro b hb line hline
    have hrow : line ∈ doc.rows := List.mem_append_right _
      (List.mem_flatMap.mpr ⟨b, hb, List.mem_cons_of_mem _ hline⟩)
    exact (doc.short line hrow).trans (by decide)
  have hrows : doc.rows =
      doc.preamble ++ linesOf (doc.blocks.map fun b => ("patch:".toList, b.inner)) := by
    rw [rows, linesOf, List.flatMap_map]
    rfl
  have hcompletes : ∀ p ∈ (doc.blocks.map fun b => ("patch:".toList, b.inner)).zipIdx,
      Completes env .all game p.2 p.1.2 := by
    intro p hp
    rw [List.zipIdx_map] at hp
    obtain ⟨q, hq, rfl⟩ := List.mem_map.mp hp
    exact q.1.completes hprx (hinner q.1 (List.fst_mem_of_mem_zipIdx hq))
  obtain ⟨ctx, hrun, hdata, -⟩ := file_stored .all game title hprx halloc (by simp) doc.preamble
    (fun line hline => (doc.filler_preamble line hline).filler)
    (doc.blocks.map fun b => ("patch:".toList, b.inner))
    (List.forall_mem_map.mpr fun _ _ => opensBlock_patch) hcompletes data
  refine ⟨ctx, ?_, ?_⟩
  · rw [parsePatchFile, if_neg (by simp [createParseContext]), parseLines, text,
      runLines_joinRows closed doc.rows doc.readableRow _ (Nat.lt_succ_self _), hrows]
    exact congrArg (Option.map fun ctx => (ctx, (0 : ℤ))) hrun
  · rw [hdata, List.zipIdx_map, List.flatMap_map]
    apply List.flatMap_congr
    intro q hq
    exact q.1.blockData_inner (hinner q.1 (List.fst_mem_of_mem_zipIdx hq))

/-- A block for two versions, with a comment and a blank line in it. -/
def twoVersionsBlock : RenderedBlock where
  title := "A".toList
  name := "Sixty frames".toList
  notes := []
  author := "B".toList
  version := "1.0".toList
  appBin := "EBOOT.BIN".toList
  appVer := .list ["0".toList, "1".toList]
  headerRows := [.field 2 (.key .title), .filler "# by hand".toList, .field 2 (.key .name),
    .field 2 (.key .notes), .field 2 (.key .author), .field 2 (.key .version),
    .field 2 (.key .appBin), .field 2 .appVer]
  patchesIndent := 2
  bodyRows := [.entry 4 ["be32".toList, "0x10".toList, "[0]".toList], .filler []]
  plain_value := by decide +kernel
  plain_appVer := by decide +kernel
  appVer_length := by decide +kernel
  gives_key := by decide +kernel
  gives_appVer := by decide +kernel
  valid_header := by decide +kernel
  valid_body := by decide +kernel

def twoBlocksDocument : Document where
  preamble := ["# patches".toList]
  blocks := [twoVersionsBlock, twoVersionsBlock]
  filler_preamble := by decide +kernel
  short := by decide +kernel

theorem Document.parsePatchFile_text_twoBlocks :
    ∃ ctx, parsePatchFile (hostWith []) (createParseContext runningGame .all (some "A".toList) ())
        (some (twoBlocksDocument.text false)) = some (ctx, 0) ∧
      ctx.allPatches.elems.map (fun d => (d.metadata.patchNumber, d.entries)) =
        [(1, twoVersionsBlock.entries), (101, twoVersionsBlock.entries)] := by
  obtain ⟨ctx, hrun, hdata⟩ := twoBlocksDocument.parsePatchFile_text false (hostWith [])
    runningGame (some "A".toList) () rfl fun _ => rfl
  refine ⟨ctx, hrun, ?_⟩
  rw [hdata]
  decide +kernel

end GamePatch
