import GamePatch.Model.ProgramArgs
import Mathlib.Data.List.GetD

/-! The argument vector handed to the game. An invariant relates the count, the
slots and the buffers; the loops of `copy_main_args` establish it and every call of
`append_arg` keeps it. -/

namespace GamePatch.Arguments

/-! ## The loops over the slots -/

theorem storeSlot_of_lt (slots : Vector BigInt maxArgs) {i : ℕ} (value : BigInt)
    (h : i < maxArgs) : storeSlot slots i value = some (slots.set i value h) := by
  have hi : 0 ≤ (i : ℤ) ∧ (i : ℤ).toNat < maxArgs := ⟨Int.natCast_nonneg i, by simpa using h⟩
  rw [storeSlot, dif_pos hi]
  simp

theorem copySlots_spec (argv : ℕ → BigInt) (n i : ℕ) (slots : Vector BigInt maxArgs)
    (h : i + n ≤ maxArgs) : ∃ out, copySlots argv n i slots = some out ∧
      ∀ j (hj : j < maxArgs), out[j] =
        if i ≤ j ∧ j < i + n ∧ (argv j).lo ≠ .null then argv j else slots[j] := by
  induction n generalizing i slots with
  | zero =>
      refine ⟨slots, rfl, ?_⟩
      intro j hj
      rw [if_neg (by omega)]
  | succ n ih =>
      by_cases hnull : (argv i).lo = .null
      · rcases ih (i + 1) slots (by omega) with ⟨out, hout, hspec⟩
        refine ⟨out, by rw [copySlots, if_pos hnull, hout], ?_⟩
        intro j hj
        rw [hspec j hj]
        apply if_congr _ rfl rfl
        apply Iff.intro
        · intro hj'
          exact ⟨by omega, by omega, hj'.2.2⟩
        · intro hj'
          have hne : j ≠ i := fun hji => hj'.2.2 (hji ▸ hnull)
          exact ⟨by omega, by omega, hj'.2.2⟩
      · have hi : i < maxArgs := by omega
        rcases ih (i + 1) (slots.set i (argv i) hi) (by omega) with ⟨out, hout, hspec⟩
        refine ⟨out, ?_, ?_⟩
        · rw [copySlots, if_neg hnull, storeSlot_of_lt _ _ hi, Option.bind_some, hout]
        intro j hj
        rw [hspec j hj, Vector.getElem_set]
        by_cases hji : i = j
        · subst hji
          simp [hnull]
        · rw [if_neg hji]
          apply if_congr _ rfl rfl
          apply Iff.intro
          · intro hj'
            exact ⟨by omega, by omega, hj'.2.2⟩
          · intro hj'
            exact ⟨by omega, by omega, hj'.2.2⟩

theorem clearSlots_spec (n i : ℕ) (slots : Vector BigInt maxArgs) (h : i + n ≤ maxArgs) :
    ∃ out, clearSlots n i slots = some out ∧
      ∀ j (hj : j < maxArgs), out[j] = if i ≤ j ∧ j < i + n then .zero else slots[j] := by
  induction n generalizing i slots with
  | zero =>
      refine ⟨slots, rfl, ?_⟩
      intro j hj
      rw [if_neg (by omega)]
  | succ n ih =>
      have hi : i < maxArgs := by omega
      rcases ih (i + 1) (slots.set i .zero hi) (by omega) with ⟨out, hout, hspec⟩
      refine ⟨out, ?_, ?_⟩
      · rw [clearSlots, storeSlot_of_lt _ _ hi, Option.bind_some, ← hout]
        rfl
      · intro j hj
        rw [hspec j hj, Vector.getElem_set]
        by_cases hji : i = j
        · subst hji
          simp
        · rw [if_neg hji]
          exact if_congr (by omega) rfl rfl

/-- Counting from below zero, the first store misses the table. -/
theorem clearSlots_negative (n : ℕ) {i : ℤ} (slots : Vector BigInt maxArgs) (h : i < 0) :
    clearSlots (n + 1) i slots = none := by
  rw [clearSlots, storeSlot, dif_neg (by omega)]
  rfl

/-! ## The buffers -/

theorem strncpy_getElem (row : ArgBuffer) (arg : CString) (i : ℕ) (h : i < maxArgBuf + 1) :
    (strncpy row arg)[i] =
      if i < maxArgBuf then (cstring arg).getD i '\x00' else row[i] := by
  simp [strncpy]

/-- A buffer whose last cell is zero holds the copied string, cut to fit. -/
def Holds (row : ArgBuffer) (text : CString) : Prop :=
  cstring row.toList = text.take maxArgBuf ∧ row[maxArgBuf] = '\x00'

theorem zero_not_mem_cstring (arg : CString) : '\x00' ∉ cstring arg := by
  intro hmem
  simpa using List.mem_takeWhile_imp hmem

theorem holds_strncpy {row : ArgBuffer} (arg : CString) (h : row[maxArgBuf] = '\x00') :
    Holds (strncpy row arg) (cstring arg) := by
  refine ⟨?_, by rw [strncpy_getElem, if_neg (by omega), h]⟩
  have hlist : (strncpy row arg).toList = (cstring arg).take maxArgBuf ++
      List.replicate (maxArgBuf + 1 - ((cstring arg).take maxArgBuf).length) '\x00' := by
    apply List.ext_getElem
    · rw [Vector.length_toList, List.length_append, List.length_replicate, List.length_take]
      omega
    · intro i hi hi'
      have hi : i < maxArgBuf + 1 := by simpa using hi
      rw [Vector.getElem_toList, strncpy_getElem _ _ _ hi]
      by_cases hin : i < ((cstring arg).take maxArgBuf).length
      · have hlen : i < maxArgBuf ∧ i < (cstring arg).length := by
          simp only [List.length_take] at hin
          omega
        rw [List.getElem_append_left hin, if_pos hlen.1, List.getElem_take,
          List.getD_eq_getElem _ _ hlen.2]
      · rw [List.getElem_append_right (by omega), List.getElem_replicate]
        split
        · next hlt =>
            have hge : (cstring arg).length ≤ i := by
              simp only [List.length_take] at hin
              omega
            rw [List.getD_eq_default _ _ hge]
        · next hlt =>
            have hieq : i = maxArgBuf := by omega
            subst hieq
            exact h
  rw [hlist]
  exact cstring_padded (fun hmem => zero_not_mem_cstring arg (List.mem_of_mem_take hmem)) _

/-! ## The invariant -/

/-- The table after `copy_main_args` with `argc` arguments and calls of `append_arg`
that accepted these strings: the game's own arguments, the strings in order, a null
slot, and zeros in every buffer not used yet. -/
structure Table (argc : ℕ) (argv : ℕ → BigInt) (accepted : List CString) (p : ProgramArgs) :
    Prop where
  count : p.argc.toNat = argc + accepted.length
  fits : accepted ≠ [] → argc + accepted.length ≤ maxArgs
  main : ∀ i (h : i < maxArgs), i < argc → (argv i).lo ≠ .null → p.newArgv[i] = argv i
  appended : ∀ k (hk : k < accepted.length) (h : argc + k < maxArgs),
    p.newArgv[argc + k] = ⟨.null, .replaceArg (argc + k)⟩ ∧
      Holds p.replaceArgs[argc + k] (cstring accepted[k])
  terminator : ∀ h : p.argc.toNat < maxArgs, p.newArgv[p.argc.toNat] = .zero
  unused : ∀ i (h : i < maxArgs), argc + accepted.length ≤ i →
    p.replaceArgs[i][maxArgBuf] = '\x00'

theorem toNat_toUInt32 {argc : Int32} (h : 0 ≤ argc.toInt) :
    argc.toUInt32.toNat = argc.toInt.toNat := by
  have hlow : argc.toInt < 2 ^ 31 := Int32.toInt_lt argc
  have hbv : argc.toInt = argc.toUInt32.toBitVec.toInt := rfl
  have hnat : argc.toUInt32.toNat = argc.toUInt32.toBitVec.toNat := rfl
  rw [hbv, BitVec.toInt_eq_toNat_cond] at h hlow ⊢
  rw [hnat]
  split at h <;> split <;> omega

theorem copyMainArgs_table {pargs : ProgramArgs} (argc : Int32) (argv : ℕ → BigInt)
    (hargc : 0 ≤ argc.toInt)
    (hclean : ∀ i (h : i < maxArgs), pargs.replaceArgs[i][maxArgBuf] = '\x00') :
    ∃ p, copyMainArgs pargs argc argv = some p ∧ Table argc.toInt.toNat argv [] p := by
  rcases copySlots_spec argv (min argc.toInt maxArgs).toNat 0 pargs.newArgv (by omega) with
    ⟨copied, hcopied, hcopy⟩
  have hclear : ∃ out, clearSlots (maxArgs - argc.toInt).toNat argc.toInt copied = some out ∧
      ∀ j (hj : j < maxArgs), out[j] = if argc.toInt.toNat ≤ j then .zero else copied[j] := by
    by_cases hfull : argc.toInt.toNat ≤ maxArgs
    · rcases clearSlots_spec (maxArgs - argc.toInt).toNat argc.toInt.toNat copied (by omega) with
        ⟨out, hout, hspec⟩
      rw [Int.toNat_of_nonneg hargc] at hout
      refine ⟨out, hout, ?_⟩
      intro j hj
      rw [hspec j hj]
      exact if_congr (by omega) rfl rfl
    · have hnone : (maxArgs - argc.toInt).toNat = 0 := by omega
      refine ⟨copied, by rw [hnone]; rfl, ?_⟩
      intro j hj
      rw [if_neg (by omega)]
  rcases hclear with ⟨cleared, hcleared, hspec⟩
  refine ⟨{ pargs with argc := argc.toUInt32, argv, newArgv := cleared }, ?_, ?_⟩
  · simp [copyMainArgs, hcopied, hcleared]
  · constructor
    · simp [toNat_toUInt32 hargc]
    · intro h
      exact absurd rfl h
    · intro i h hi hnull
      rw [hspec i h, if_neg (by omega), hcopy i h, if_pos ⟨by omega, by omega, hnull⟩]
    · intro k hk
      exact absurd hk (by simp)
    · intro h
      simp only [toNat_toUInt32 hargc] at h ⊢
      rw [hspec _ h, if_pos le_rfl]
    · intro i h _
      exact hclean i h

/-- Below zero the clearing loop leaves the table. -/
theorem copyMainArgs_negative (pargs : ProgramArgs) {argc : Int32} (argv : ℕ → BigInt)
    (h : argc.toInt < 0) : copyMainArgs pargs argc argv = none := by
  rcases copySlots_spec argv (min argc.toInt maxArgs).toNat 0 pargs.newArgv (by omega) with
    ⟨copied, hcopied, -⟩
  have hrounds : (maxArgs - argc.toInt).toNat = ((maxArgs - argc.toInt).toNat - 1) + 1 := by omega
  rw [copyMainArgs, hcopied]
  show (clearSlots _ _ copied).bind _ = none
  rw [hrounds, clearSlots_negative _ _ h]
  rfl

/-! ## One call of `append_arg` -/

theorem appendArg_of_full {p : ProgramArgs} (arg : CString) (h : ¬ p.argc.toNat < maxArgs) :
    appendArg p arg = (p, false) := by
  rw [appendArg, dif_neg h]

theorem appendArg_succeeds (p : ProgramArgs) (arg : CString) :
    (appendArg p arg).2 = decide (p.argc.toNat < maxArgs) := by
  by_cases h : p.argc.toNat < maxArgs
  · rw [appendArg, dif_pos h, decide_eq_true h]
  · rw [appendArg, dif_neg h, decide_eq_false h]

theorem appendArg_argc {p : ProgramArgs} (arg : CString) (h : p.argc.toNat < maxArgs) :
    (appendArg p arg).1.argc.toNat = p.argc.toNat + 1 := by
  have h32 : p.argc.toNat < 32 := h
  rw [appendArg, dif_pos h]
  show (p.argc + 1).toNat = p.argc.toNat + 1
  rw [UInt32.toNat_add, UInt32.toNat_one]
  omega

theorem appendArg_newArgv {p : ProgramArgs} (arg : CString) (h : p.argc.toNat < maxArgs)
    {i : ℕ} (hi : i < maxArgs) : (appendArg p arg).1.newArgv[i] =
      if i = p.argc.toNat + 1 then .zero
      else if i = p.argc.toNat then { p.newArgv[p.argc.toNat] with lo := .replaceArg i }
      else p.newArgv[i] := by
  simp only [appendArg, dif_pos h]
  by_cases hlast : p.argc.toNat + 1 < maxArgs
  · simp only [dif_pos hlast, Vector.getElem_set]
    by_cases hnext : i = p.argc.toNat + 1
    · rw [if_pos hnext.symm, if_pos hnext]
    · rw [if_neg (Ne.symm hnext), if_neg hnext]
      by_cases hidx : i = p.argc.toNat
      · rw [if_pos hidx.symm, if_pos hidx, hidx]
      · rw [if_neg (Ne.symm hidx), if_neg hidx]
  · simp only [dif_neg hlast, Vector.getElem_set]
    rw [if_neg (show ¬ i = p.argc.toNat + 1 by omega)]
    by_cases hidx : i = p.argc.toNat
    · rw [if_pos hidx.symm, if_pos hidx, hidx]
    · rw [if_neg (Ne.symm hidx), if_neg hidx]

theorem appendArg_replaceArgs {p : ProgramArgs} (arg : CString) (h : p.argc.toNat < maxArgs)
    {i : ℕ} (hi : i < maxArgs) : (appendArg p arg).1.replaceArgs[i] =
      if i = p.argc.toNat then strncpy p.replaceArgs[i] arg else p.replaceArgs[i] := by
  simp only [appendArg, dif_pos h, Vector.getElem_set]
  by_cases hidx : i = p.argc.toNat
  · subst hidx
    simp
  · rw [if_neg (Ne.symm hidx), if_neg hidx]

/-- An accepted string becomes the last argument. -/
theorem Table.append {argc : ℕ} {argv : ℕ → BigInt} {accepted : List CString} {p : ProgramArgs}
    (ht : Table argc argv accepted p) (arg : CString) (h : p.argc.toNat < maxArgs) :
    Table argc argv (accepted ++ [arg]) (appendArg p arg).1 := by
  have hcount := ht.count
  constructor
  · rw [appendArg_argc arg h, hcount, List.length_append, List.length_singleton]
    omega
  · intro _
    rw [List.length_append, List.length_singleton]
    omega
  · intro i hi hlt hnull
    rw [appendArg_newArgv arg h hi, if_neg (by omega), if_neg (by omega)]
    exact ht.main i hi hlt hnull
  · intro k hk hi
    rw [List.length_append, List.length_singleton] at hk
    rw [appendArg_newArgv arg h hi, appendArg_replaceArgs arg h hi, if_neg (by omega)]
    by_cases hlast : k = accepted.length
    · have hidx : argc + k = p.argc.toNat := by omega
      subst hlast
      rw [if_pos hidx, if_pos hidx, ht.terminator h, List.getElem_concat_length rfl]
      exact ⟨rfl, holds_strncpy arg (ht.unused _ hi (by omega))⟩
    · have hidx : ¬ argc + k = p.argc.toNat := by omega
      rw [if_neg hidx, if_neg hidx, List.getElem_append_left (by omega)]
      exact ht.appended k (by omega) hi
  · intro hnext
    rw [appendArg_newArgv arg h hnext, if_pos (appendArg_argc arg h)]
  · intro i hi hle
    rw [List.length_append, List.length_singleton] at hle
    rw [appendArg_replaceArgs arg h hi, if_neg (by omega)]
    exact ht.unused i hi (by omega)

/-! ## Every sequence of calls -/

/-- Of the strings given, those for which the table has room are accepted. -/
theorem Table.appendArgs {argc : ℕ} {argv : ℕ → BigInt} {accepted : List CString} {p : ProgramArgs}
    (ht : Table argc argv accepted p) (args : List CString) :
    Table argc argv (accepted ++ args.take (maxArgs - (argc + accepted.length)))
        (appendArgs p args).1 ∧
      (appendArgs p args).2 =
        args.mapIdx fun k _ => decide (argc + accepted.length + k < maxArgs) := by
  induction args generalizing accepted p with
  | nil => exact ⟨by simpa [GamePatch.appendArgs] using ht, rfl⟩
  | cons arg args ih =>
      rw [GamePatch.appendArgs, List.mapIdx_cons]
      simp only [appendArg_succeeds, ht.count, Nat.add_zero]
      by_cases h : p.argc.toNat < maxArgs
      · have hcount := ht.count
        rcases ih (ht.append arg h) with ⟨htable, hresults⟩
        have hroom : maxArgs - (argc + accepted.length) =
            (maxArgs - (argc + (accepted ++ [arg]).length)) + 1 := by
          rw [List.length_append, List.length_singleton]
          omega
        apply And.intro
        · rw [hroom, List.take_succ_cons, List.append_cons]
          exact htable
        · rw [hresults]
          refine congrArg (_ :: ·) (congrArg (fun f => args.mapIdx f) ?_)
          funext k _
          rw [List.length_append, List.length_singleton]
          exact decide_eq_decide.2 (by omega)
      · have hcount := ht.count
        have hroom : maxArgs - (argc + accepted.length) = 0 := by omega
        rcases ih ht with ⟨htable, hresults⟩
        rw [appendArg_of_full arg h]
        apply And.intro
        · rw [hroom, List.take_zero] at htable ⊢
          exact htable
        · rw [hresults]
          refine congrArg (_ :: ·) (congrArg (fun f => args.mapIdx f) ?_)
          funext k _
          exact decide_eq_decide.2 (by omega)

/-- The argument vector is well formed after these calls of `append_arg`. -/
structure WellFormed (argc : ℕ) (argv : ℕ → BigInt) (args : List CString) (p : ProgramArgs) :
    Prop where
  count : p.argc.toNat = max argc (min (argc + args.length) maxArgs)
  main : ∀ i (h : i < maxArgs), i < argc → (argv i).lo ≠ .null → p.newArgv[i] = argv i
  appended : ∀ k (hk : k < args.length) (h : argc + k < maxArgs),
    p.newArgv[argc + k] = ⟨.null, .replaceArg (argc + k)⟩ ∧
      Holds p.replaceArgs[argc + k] (cstring args[k])
  terminator : ∀ h : p.argc.toNat < maxArgs, p.newArgv[p.argc.toNat] = .zero
  accepts : ∀ arg, (appendArg p arg).2 = true ↔ p.argc.toNat < maxArgs
  refuses : ∀ arg, (appendArg p arg).2 = false → (appendArg p arg).1 = p

theorem Table.wellFormed {argc : ℕ} {argv : ℕ → BigInt} {args : List CString} {p : ProgramArgs}
    (ht : Table argc argv (args.take (maxArgs - argc)) p) : WellFormed argc argv args p := by
  have hcount := ht.count
  rw [List.length_take] at hcount
  constructor
  · omega
  · exact ht.main
  · intro k hk h
    have hroom : k < (args.take (maxArgs - argc)).length := by
      rw [List.length_take]
      omega
    have hslot := ht.appended k hroom h
    rwa [List.getElem_take] at hslot
  · exact ht.terminator
  · intro arg
    rw [appendArg_succeeds, decide_eq_true_eq]
  · intro arg hfull
    rw [appendArg_succeeds, decide_eq_false_iff_not] at hfull
    rw [appendArg_of_full arg hfull]

/-- `copy_main_args` stays inside of the table, and whatever strings are appended
afterwards, the vector is well formed and the calls succeed while it has room. -/
def HandsOver (pargs : ProgramArgs) (argc : Int32) (argv : ℕ → BigInt) : Prop :=
  ∃ p, copyMainArgs pargs argc argv = some p ∧ ∀ args,
    WellFormed argc.toInt.toNat argv args (appendArgs p args).1 ∧
      (appendArgs p args).2 = args.mapIdx fun k _ => decide (argc.toInt.toNat + k < maxArgs)

/-- A record whose `replace_args` is all zero. -/
def Cleared (pargs : ProgramArgs) : Prop :=
  ∀ i (h : i < maxArgs) j (h' : j < maxArgBuf + 1), pargs.replaceArgs[i][j] = '\x00'

theorem handsOver_iff (pargs : ProgramArgs) (argc : Int32) (argv : ℕ → BigInt)
    (hclean : Cleared pargs) : HandsOver pargs argc argv ↔ 0 ≤ argc.toInt := by
  apply Iff.intro
  · intro h
    rcases h with ⟨p, hp, -⟩
    by_contra hneg
    rw [copyMainArgs_negative pargs argv (by omega)] at hp
    exact absurd hp (by simp)
  · intro hargc
    rcases copyMainArgs_table argc argv hargc (fun i h => hclean i h maxArgBuf (by omega)) with
      ⟨p, hp, ht⟩
    refine ⟨p, hp, ?_⟩
    intro args
    rcases ht.appendArgs args with ⟨htable, hresults⟩
    exact ⟨Table.wellFormed htable, hresults⟩

/-- A record before the game's arguments are copied. -/
def freshArgs : ProgramArgs where
  argc := 0
  argv _ := .zero
  newArgv := Vector.replicate maxArgs ⟨.null, .outside 1⟩
  replaceArgs := Vector.replicate maxArgs (Vector.replicate (maxArgBuf + 1) '\x00')
  changed := false

theorem freshArgs_cleared : Cleared freshArgs := by
  intro i h j h'
  simp [freshArgs]

/-- Thirty arguments of the game leave room for two of three that are appended. -/
theorem handsOver_overfull : ∃ p,
    copyMainArgs freshArgs 30 (fun i => ⟨.null, .outside (UInt32.ofNat (i + 1))⟩) = some p ∧
    (appendArgs p ["-a".toList, "-b".toList, "-c".toList]).2 = [true, true, false] ∧
    WellFormed 30 (fun i => ⟨.null, .outside (UInt32.ofNat (i + 1))⟩)
      ["-a".toList, "-b".toList, "-c".toList]
      (appendArgs p ["-a".toList, "-b".toList, "-c".toList]).1 := by
  rcases (handsOver_iff freshArgs 30 (fun i => ⟨.null, .outside (UInt32.ofNat (i + 1))⟩)
    freshArgs_cleared).2 (by decide) with ⟨p, hp, hargs⟩
  rcases hargs ["-a".toList, "-b".toList, "-c".toList] with ⟨hwellFormed, hresults⟩
  exact ⟨p, hp, hresults, hwellFormed⟩

/-- With the count 0xffffffff the clearing loop starts at slot -1. -/
theorem not_handsOver : Cleared freshArgs ∧ ¬ HandsOver freshArgs (-1) fun _ => .zero := by
  refine ⟨freshArgs_cleared, ?_⟩
  rintro ⟨p, hp, -⟩
  rw [copyMainArgs_negative _ _ (by decide)] at hp
  exact absurd hp (by simp)

end GamePatch.Arguments
