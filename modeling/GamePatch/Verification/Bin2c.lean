import GamePatch.Model.Bin2c
import GamePatch.Shared.CArray

/-! # What a compiler makes of the output of `bin2c`

The text written for a file declares an array of the bytes of the file. Only an empty
file has no such array, and its text is no declaration. -/

namespace GamePatch.Bin2c

open CArray

/-! ## Elements -/

theorem isWordChar_digits : "0123456789abcdef".toList.all isWordChar = true := by decide

/-- The word that a byte is written as. -/
def constant (c : UInt8) : List Char := '0' :: 'x' :: Hex.text 2 c.toNat

theorem constant_word (c : UInt8) : (constant c).all isWordChar = true := by
  rw [constant, List.all_eq_true, List.forall_mem_cons, List.forall_mem_cons]
  exact ⟨rfl, rfl, fun d hd => List.all_eq_true.mp isWordChar_digits d (Hex.mem_text hd)⟩

theorem element_constant (c : UInt8) : CArray.element (constant c) = some c := by
  have hlt : c.toNat < 256 := c.toNat_lt
  have hdigits : Hex.text 2 c.toNat ≠ [] := by
    intro hnil
    have hlength := congrArg List.length hnil
    rw [Hex.length_text] at hlength
    cases hlength
  rw [constant, CArray.element, if_neg hdigits, Hex.read_text, Option.bind_some,
    Nat.mod_eq_of_lt (by omega), if_pos hlt, UInt8.ofNat_toNat]

/-- The tokens of an element. -/
def elementTokens (c : UInt8) : List Token := [.word (constant c), .mark ',']

theorem lex_element (c : UInt8) (cs : List Char) :
    lex .between (element c ++ cs) = (lex .between cs).map (elementTokens c ++ ·) := by
  have htext : element c ++ cs = constant c ++ ',' :: ' ' :: cs := by
    rw [element, constant, List.cons_append, List.cons_append, List.append_assoc]
    rfl
  have hne : constant c ≠ [] := List.cons_ne_nil _ _
  rw [htext, lex_between hne (constant_word c), lex_mark rfl rfl, lex_blank rfl rfl,
    Option.map_map]
  rfl

/-- Where the lines of the text end makes no difference. -/
theorem lex_processLoop (col : ℕ) (bytes : List UInt8) (cs : List Char) :
    lex .between (processLoop col bytes ++ cs) =
      (lex .between cs).map (bytes.flatMap elementTokens ++ ·) := by
  induction bytes generalizing col with
  | nil => exact Option.map_id'.symm
  | cons c bytes ih =>
      have hrest (col : ℕ) : lex .between (element c ++ processLoop col bytes ++ cs) =
          (lex .between cs).map ((c :: bytes).flatMap elementTokens ++ ·) := by
        rw [List.append_assoc, lex_element, ih, Option.map_map]
        rfl
      rw [processLoop]
      split
      · rw [List.cons_append, lex_blank rfl rfl, hrest, Option.map_map]
        rfl
      · exact hrest _

theorem elements_tokens {bytes : List UInt8} (hne : bytes ≠ []) :
    elements (bytes.flatMap elementTokens ++ [.mark '}', .mark ';']) = some bytes := by
  induction bytes with
  | nil => exact absurd rfl hne
  | cons c bytes ih =>
      cases bytes with
      | nil =>
          change (CArray.element (constant c)).map ([·]) = some [c]
          rw [element_constant]
          rfl
      | cons c' bytes =>
          have hrest := ih (List.cons_ne_nil _ _)
          simp only [List.flatMap_cons, elementTokens, List.cons_append, List.nil_append]
            at hrest ⊢
          simp only [elements, element_constant, hrest]
          rfl

/-! ## The declaration -/

/-- The tokens up to the brace. -/
def headTokens (const : Bool) (name : List Char) : List Token :=
  .word "static".toList :: ((if const then [.word "const".toList] else []) ++
    [.word "unsigned".toList, .word "char".toList, .word name, .mark '[', .mark ']', .mark '=',
      .mark '{'])

theorem lex_words {w : List Char} (hne : w ≠ []) (hw : w.all isWordChar = true)
    (cs : List Char) :
    lex .between (w ++ ' ' :: cs) = (lex .between cs).map (.word w :: ·) := by
  rw [lex_between hne hw, lex_blank rfl rfl]
  rfl

theorem lex_lineComment {line : List Char} (hline : '\n' ∉ line) (cs : List Char) :
    lex .between ('/' :: '/' :: (line ++ '\n' :: cs)) = lex .between cs :=
  (congrArg (Option.map _) (lex_comment hline)).trans Option.map_id'

theorem lex_static (cs : List Char) :
    lex .between ("// clang-format off\nstatic ".toList ++ cs) =
      (lex .between cs).map ([.word "static".toList] ++ ·) := by
  have htext : "// clang-format off\nstatic ".toList =
      '/' :: '/' :: (" clang-format off".toList ++ '\n' :: ("static".toList ++ [' '])) := by
    decide
  rw [htext, List.cons_append, List.cons_append, List.append_assoc, List.cons_append,
    List.append_assoc, lex_lineComment (by decide), List.singleton_append,
    lex_words (by decide) (by decide)]
  rfl

theorem lex_const (useconst : Bool) (cs : List Char) :
    lex .between ((if useconst then "const ".toList else []) ++ cs) =
      (lex .between cs).map ((if useconst then [.word "const".toList] else []) ++ ·) := by
  have htext : "const ".toList = "const".toList ++ [' '] := by decide
  cases useconst with
  | true =>
      rw [if_pos rfl, if_pos rfl, htext, List.append_assoc, List.singleton_append,
        lex_words (by decide) (by decide)]
      rfl
  | false => exact Option.map_id'.symm

theorem lex_unsignedChar (cs : List Char) :
    lex .between ("unsigned char ".toList ++ cs) =
      (lex .between cs).map ([.word "unsigned".toList, .word "char".toList] ++ ·) := by
  have htext : "unsigned char ".toList =
      "unsigned".toList ++ ' ' :: ("char".toList ++ [' ']) := by decide
  rw [htext, List.append_assoc, List.cons_append, List.append_assoc, List.singleton_append,
    lex_words (by decide) (by decide), lex_words (by decide) (by decide), Option.map_map]
  rfl

theorem lex_name {charName : CString} (hname : Name charName) (cs : List Char) :
    lex .between (charName ++ ("[] = \x7b\n".toList ++ cs)) =
      (lex .between cs).map
        ([.word charName, .mark '[', .mark ']', .mark '=', .mark '{'] ++ ·) := by
  have htext : "[] = \x7b\n".toList = ['[', ']', ' ', '=', ' ', '{', '\n'] := by decide
  rw [htext, lex_between hname.nonempty hname.chars]
  simp only [List.cons_append, List.nil_append]
  rw [lex_mark rfl rfl, lex_mark rfl rfl, lex_blank rfl rfl, lex_mark rfl rfl, lex_blank rfl rfl,
    lex_mark rfl rfl, lex_blank rfl rfl]
  simp only [Option.map_map]
  rfl

theorem lex_end : lex .between "\n\x7d;\n// clang-format on\n".toList =
    some [.mark '}', .mark ';'] := by
  have htext : "\n\x7d;\n// clang-format on\n".toList =
      '\n' :: '}' :: ';' :: '\n' :: '/' :: '/' :: (" clang-format on".toList ++ ['\n']) := by
    decide
  rw [htext, lex_blank rfl rfl, lex_mark rfl rfl, lex_mark rfl rfl, lex_blank rfl rfl,
    lex_lineComment (by decide)]
  rfl

theorem lex_process (options : Options) (ifile : List UInt8) {charName : CString}
    (hname : Name charName) :
    lex .between (process options ifile charName) =
      some (headTokens options.useconst charName ++
        ((myfgetcs options.zeroterminated ifile).flatMap elementTokens ++
          [.mark '}', .mark ';'])) := by
  unfold process
  simp only [List.append_assoc]
  rw [lex_static, lex_const, lex_unsignedChar, lex_name hname, lex_processLoop, lex_end]
  simp only [Option.map_some, headTokens, List.cons_append, List.nil_append, List.append_assoc]

/-- The text declares an array of the bytes, unless there are none. -/
theorem read_process (options : Options) (ifile : List UInt8) {charName : CString}
    (hname : Name charName) :
    CArray.read (process options ifile charName) =
      if myfgetcs options.zeroterminated ifile = [] then none
      else some ⟨options.useconst, charName, myfgetcs options.zeroterminated ifile⟩ := by
  have hhead (rest : List Token) :
      declaration (headTokens options.useconst charName ++ rest) =
        (elements rest).map fun values => ⟨options.useconst, charName, values⟩ := by
    cases options.useconst with
    | true => exact if_pos hname
    | false => exact if_pos hname
  rw [CArray.read, lex_process options ifile hname, Option.bind_some, hhead]
  by_cases hnil : myfgetcs options.zeroterminated ifile = []
  · rw [hnil, if_pos rfl]
    rfl
  · rw [elements_tokens hnil, if_neg hnil]
    rfl

/-! ## The program -/

/-- The options that `main` knows. -/
def flagTexts : List CString := ["-c".toList, "-z".toList, "-cz".toList]

def setsConst (flag : CString) : Bool := flag = "-c".toList ∨ flag = "-cz".toList

def setsZero (flag : CString) : Bool := flag = "-z".toList ∨ flag = "-cz".toList

theorem parseArgs_cons (options : Options) (arg : CString) {args : List CString}
    (h : 3 ≤ args.length) :
    parseArgs options (arg :: args) =
      if arg = "-c".toList then parseArgs { options with useconst := true } args
      else if arg = "-z".toList then parseArgs { options with zeroterminated := true } args
      else if arg = "-cz".toList then parseArgs ⟨true, true⟩ args
      else none := if_pos h

theorem parseArgs_flags {flags : List CString} (hflags : ∀ flag ∈ flags, flag ∈ flagTexts)
    (options : Options) (ifname ofname charName : CString) :
    parseArgs options (flags ++ [ifname, ofname, charName]) =
      some (⟨options.useconst || flags.any setsConst,
        options.zeroterminated || flags.any setsZero⟩, ifname, ofname, charName) := by
  induction flags generalizing options with
  | nil => simp [parseArgs]
  | cons flag flags ih =>
      rw [List.forall_mem_cons] at hflags
      have hlength : 3 ≤ (flags ++ [ifname, ofname, charName]).length := by simp
      rw [List.cons_append, parseArgs_cons options flag hlength]
      have hknown : flag = "-c".toList ∨ flag = "-z".toList ∨ flag = "-cz".toList := by
        simpa [flagTexts] using hflags.1
      rcases hknown with rfl | rfl | rfl
      · rw [if_pos rfl, ih hflags.2, List.any_cons, List.any_cons,
          show setsConst "-c".toList = true by decide, show setsZero "-c".toList = false by decide]
        simp
      · rw [if_neg (by decide), if_pos rfl, ih hflags.2, List.any_cons, List.any_cons,
          show setsConst "-z".toList = false by decide, show setsZero "-z".toList = true by decide]
        simp
      · rw [if_neg (by decide), if_neg (by decide), if_pos rfl, ih hflags.2, List.any_cons,
          List.any_cons, show setsConst "-cz".toList = true by decide,
          show setsZero "-cz".toList = true by decide]
        simp

/-- The file that `bin2c` writes declares an array of the bytes of the file it reads, with
a zero behind them where that is asked for. Without any byte it declares nothing. -/
theorem main_declares {flags : List CString} (hflags : ∀ flag ∈ flags, flag ∈ flagTexts)
    {ifname ofname charName : CString} (hname : Name charName) (hne : ofname ≠ ifname)
    {files : CString → Option (List UInt8)} {ifile : List UInt8}
    (hfile : files ifname = some ifile) :
    ∃ text, main (flags ++ [ifname, ofname, charName]) files = some (ofname, text) ∧
      CArray.read text =
        if ifile = [] ∧ flags.any setsZero = false then none
        else some ⟨flags.any setsConst, charName,
          ifile ++ if flags.any setsZero then [0] else []⟩ := by
  have hargs := parseArgs_flags hflags ⟨false, false⟩ ifname ofname charName
  refine ⟨_, ?_, (read_process ⟨flags.any setsConst, flags.any setsZero⟩ ifile hname).trans ?_⟩
  · rw [main, hargs]
    simp only [Option.bind_eq_bind, Option.bind_some, hfile, if_neg hne, Bool.false_or]
    rfl
  · cases flags.any setsZero with
    | true => simp [myfgetcs]
    | false => simp [myfgetcs]

theorem main_declares_const :
    ∃ text, main (["-c".toList] ++ ["list.yml".toList, "list.h".toList, "list_data".toList])
        (fun _ => some [0x2d, 0x0a, 0xff]) = some ("list.h".toList, text) ∧
      CArray.read text = some ⟨true, "list_data".toList, [0x2d, 0x0a, 0xff]⟩ := by
  have hflags : ∀ flag ∈ ["-c".toList], flag ∈ flagTexts := by decide
  have hname : Name "list_data".toList := by decide
  have hne : "list.h".toList ≠ "list.yml".toList := by decide
  let files (_ : CString) : Option (List UInt8) := some [0x2d, 0x0a, 0xff]
  have hfile : files "list.yml".toList = some [0x2d, 0x0a, 0xff] := rfl
  exact main_declares hflags hname hne hfile

end GamePatch.Bin2c
