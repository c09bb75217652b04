import GamePatch.Verification.Settings.Codec
import Mathlib.Logic.Function.Basic

/-! # The settings file as a map

Three levels of one store: the bytes of the file, the record list they decode
to, and the map from hashes to switches that callers see. Every operation of
the code acts on the map as a single assignment. -/

namespace GamePatch.Settings

open Words FirstMatch

/-! ## The map -/

/-- The position of every switch; `none` where the user never set one. -/
abbrev Switches := UInt32 → Option Bool

/-- A call of `write_patch_state` or of `toggle_patch_state`. -/
inductive Operation where
  | write (hash : UInt32) (enabled : Bool)
  | toggle (hash : UInt32)
  deriving DecidableEq, Repr

def Operation.hash : Operation → UInt32
  | .write h _ => h
  | .toggle h => h

/-- The position an operation leaves its switch in, given the one it finds. -/
def Operation.position (old : Option Bool) : Operation → Bool
  | .write _ e => e
  | .toggle _ => decide (old ≠ some true)

/-- The value an operation returns when it succeeds. -/
def Operation.result (old : Option Bool) : Operation → ℤ
  | .write _ _ => 0
  | .toggle h => if (Operation.toggle h).position old then 1 else 0

/-- Every operation assigns its own switch and returns its result. -/
def Switches.perform (m : Switches) (op : Operation) : Switches × ℤ :=
  (Function.update m op.hash (some (op.position (m op.hash))), op.result (m op.hash))

def Switches.performAll (m : Switches) : List Operation → Switches × List ℤ
  | [] => (m, [])
  | op :: ops =>
      let (m', r) := m.perform op
      let (m'', rs) := Switches.performAll m' ops
      (m'', r :: rs)

/-- What `read_patch_state` answers for a switch. -/
def answer : Option Bool → ℤ
  | none => -1
  | some false => 0
  | some true => 1

/-! ## The record list -/

def PatchState.isOn (s : PatchState) : Bool := decide (s.enabled ≠ 0)

/-- The map a record list stands for. -/
def switches (states : List PatchState) : Switches := fun hash =>
  (lookup PatchState.hash hash states).map PatchState.isOn

/-- The record list an operation leaves behind. -/
def performRecords (states : List PatchState) (op : Operation) : List PatchState :=
  let e := op.position (switches states op.hash)
  upsert PatchState.hash op.hash (PatchState.setEnabled e) ⟨op.hash, enabledByte e⟩ states

@[simp] theorem PatchState.setEnabled_hash (e : Bool) (s : PatchState) :
    (s.setEnabled e).hash = s.hash := rfl

@[simp] theorem PatchState.isOn_setEnabled (e : Bool) (s : PatchState) :
    (s.setEnabled e).isOn = e := by
  cases e <;> simp [setEnabled, isOn, enabledByte]

theorem switches_performRecords (states : List PatchState) (op : Operation) :
    switches (performRecords states op) = ((switches states).perform op).1 := by
  funext h
  by_cases hh : h = op.hash
  · subst hh
    simp only [switches, performRecords, Switches.perform, Function.update_self]
    rw [lookup_upsert_self (k := op.hash) states (PatchState.setEnabled_hash _) rfl]
    cases lookup PatchState.hash op.hash states with
    | none => cases he : op.position none <;> simp [PatchState.isOn, enabledByte, he]
    | some s => simp
  · simp only [switches, performRecords, Switches.perform, Function.update_of_ne hh]
    rw [lookup_upsert_ne (k := op.hash) states (PatchState.setEnabled_hash _) rfl hh]

/-- An operation appends its hash to the record list only if it was absent. -/
theorem map_hash_performRecords (states : List PatchState) (op : Operation) :
    (performRecords states op).map PatchState.hash =
      if op.hash ∈ states.map PatchState.hash then states.map PatchState.hash
      else states.map PatchState.hash ++ [op.hash] :=
  map_key_upsert states (PatchState.setEnabled_hash _) rfl

theorem performRecords_ne_nil (states : List PatchState) (op : Operation) :
    performRecords states op ≠ [] := by
  intro h
  have hkeys := map_hash_performRecords states op
  rw [h] at hkeys
  split_ifs at hkeys with hmem
  · simp [← hkeys] at hmem
  · simp at hkeys

theorem length_performRecords_le (states : List PatchState) (op : Operation) :
    (performRecords states op).length ≤ states.length + 1 := by
  have hkeys := congrArg List.length (map_hash_performRecords states op)
  split_ifs at hkeys <;> simp at hkeys <;> omega

theorem length_foldl_performRecords_le (ops : List Operation) (states : List PatchState) :
    (ops.foldl performRecords states).length ≤ states.length + ops.length := by
  induction ops generalizing states with
  | nil => simp
  | cons op ops ih =>
      have hhead := length_performRecords_le states op
      have htail := ih (performRecords states op)
      simp only [List.foldl_cons, List.length_cons]
      omega

theorem switches_foldl_performRecords (ops : List Operation) (states : List PatchState) :
    switches (ops.foldl performRecords states) = ((switches states).performAll ops).1 := by
  induction ops generalizing states with
  | nil => rfl
  | cons op ops ih =>
      rw [List.foldl_cons, ih, switches_performRecords]
      rfl

/-! ## The file -/

/-- All input and output succeeds. -/
def WriteIo.succeeds : WriteIo := ⟨true, true, none, none⟩

def perform (order : ByteOrder) (malloc : ℕ → Bool) (io : WriteIo) (file : Option Bytes) :
    Operation → Option (Option Bytes × ℤ)
  | .write h e => some (writePatchState order malloc io file h e)
  | .toggle h => togglePatchState order malloc io file h

/-- Performs the operations one after the other, collecting their results. All
allocations, input and output succeed. -/
def performAll (order : ByteOrder) :
    Option Bytes → List Operation → Option (Option Bytes × List ℤ)
  | file, [] => some (file, [])
  | file, op :: ops => do
      let (file', r) ← perform order allocates .succeeds file op
      let (file'', rs) ← performAll order file' ops
      return (file'', r :: rs)

/-- The search loop over a complete buffer is a first-match search. -/
theorem findState_eq (hash : UInt32) (states : List PatchState) :
    findState hash states.length states = some (answer (switches states hash)) := by
  induction states with
  | nil => rfl
  | cons s states ih =>
      by_cases h : s.hash = hash
      · by_cases he : s.enabled = 0 <;>
          simp [findState, switches, lookup, h, he, PatchState.isOn, answer]
      · simpa [findState, switches, lookup, h] using ih

theorem readPatchState_eq (order : ByteOrder) (file : Option Bytes) (hash : UInt32) :
    readPatchState order allocates file hash =
      some (answer (switches (records order file) hash)) := by
  have hcount := readPatchStatesInternal_count order allocates file
  simp only [readPatchState, records, searchStates] at hcount ⊢
  rw [hcount]
  cases hstates : (readPatchStatesInternal order allocates file).1 with
  | none => simp [switches, lookup, answer]
  | some states => simpa using findState_eq hash states

theorem writePatchStatesInternal_succeeds (order : ByteOrder) (file : Option Bytes)
    (states : List PatchState) :
    writePatchStatesInternal order .succeeds file states states.length =
      (some (contents order states), 0) := by
  simp [writePatchStatesInternal, WriteIo.succeeds, fwrite, contents]

/-- What `write_patch_state` hands to the writer. -/
theorem writePatchState_eq (order : ByteOrder) (io : WriteIo) (file : Option Bytes)
    (hash : UInt32) (e : Bool) (hrealloc : io.realloc = true) :
    writePatchState order allocates io file hash e =
      writePatchStatesInternal order io file
        (performRecords (records order file) (.write hash e))
        (performRecords (records order file) (.write hash e)).length := by
  have hcount := readPatchStatesInternal_count order allocates file
  simp only [writePatchState, performRecords, records, upsert, Operation.hash,
    Operation.position] at hcount ⊢
  rw [hcount]
  generalize (readPatchStatesInternal order allocates file).1.getD [] = states
  cases hu : update? PatchState.hash hash (PatchState.setEnabled e) states with
  | none => simp [hrealloc]
  | some states' => simp [length_of_update? hu]

theorem perform_eq (order : ByteOrder) (file : Option Bytes) (op : Operation) :
    perform order allocates .succeeds file op =
      some (some (contents order (performRecords (records order file) op)),
        op.result (switches (records order file) op.hash)) := by
  cases op with
  | write h e =>
      rw [perform, writePatchState_eq order .succeeds file h e rfl,
        writePatchStatesInternal_succeeds]
      rfl
  | toggle h =>
      have hwrite := fun e => writePatchState_eq order .succeeds file h e rfl
      simp only [writePatchStatesInternal_succeeds] at hwrite
      simp only [perform, togglePatchState, readPatchState_eq, hwrite]
      cases hs : switches (records order file) h with
      | none =>
          simp [answer, hs, performRecords, Operation.position, Operation.result, Operation.hash]
      | some b =>
          cases b <;>
            simp [answer, hs, performRecords, Operation.position, Operation.result,
              Operation.hash]

theorem records_contents (order : ByteOrder) (states : List PatchState) (hne : states ≠ [])
    (hlt : states.length < 2 ^ 32) : records order (some (contents order states)) = states := by
  rw [records, readPatchStatesInternal_contents order states hne hlt]
  rfl

/-! ## Sequences of operations -/

/-- The operations act on the decoded records one by one, and answer as the map
does, as long as the record count fits the header field. -/
theorem performAll_eq (order : ByteOrder) (ops : List Operation) (file : Option Bytes)
    (hcount : ∀ pre, pre <+: ops →
      (pre.foldl performRecords (records order file)).length < 2 ^ 32) :
    ∃ file', performAll order file ops =
        some (file', ((switches (records order file)).performAll ops).2) ∧
      records order file' = ops.foldl performRecords (records order file) := by
  induction ops generalizing file with
  | nil => exact ⟨file, rfl, rfl⟩
  | cons op ops ih =>
      let next := performRecords (records order file) op
      have hnext : records order (some (contents order next)) = next := by
        apply records_contents order next (performRecords_ne_nil _ op)
        exact hcount [op] (by simp)
      obtain ⟨file', hrun, hrecords⟩ := ih (some (contents order next)) (by
        intro pre hpre
        rw [hnext]
        exact hcount (op :: pre) (by simpa using hpre))
      refine ⟨file', ?_, ?_⟩
      · rw [hnext, switches_performRecords] at hrun
        simp only [performAll, perform_eq, Option.bind_eq_bind, Option.bind_some]
        rw [hrun]
        rfl
      · rw [hrecords, hnext]
        rfl

/-- A switch that no operation names keeps its position. -/
theorem Switches.performAll_of_not_named (m : Switches) (ops : List Operation) (h : UInt32)
    (hops : ∀ op ∈ ops, op.hash ≠ h) : (m.performAll ops).1 h = m h := by
  induction ops generalizing m with
  | nil => rfl
  | cons op ops ih =>
      have hne : h ≠ op.hash := (hops op (by simp)).symm
      have htail := ih (m.perform op).1 (fun op' hop => hops op' (by simp [hop]))
      simpa [Switches.performAll, Switches.perform, Function.update_of_ne hne] using htail

theorem Switches.performAll_append (m : Switches) (ops ops' : List Operation) :
    (m.performAll (ops ++ ops')).1 = ((m.performAll ops).1.performAll ops').1 := by
  induction ops generalizing m with
  | nil => rfl
  | cons op ops ih => exact ih (m.perform op).1

/-- The last operation on a switch decides its position. -/
theorem Switches.performAll_last (m : Switches) (pre post : List Operation) (op : Operation)
    (hpost : ∀ op' ∈ post, op'.hash ≠ op.hash) :
    (m.performAll (pre ++ op :: post)).1 op.hash =
      some (op.position ((m.performAll pre).1 op.hash)) := by
  rw [Switches.performAll_append]
  have htail := Switches.performAll_of_not_named ((m.performAll pre).1.perform op).1 post
    op.hash hpost
  simpa [Switches.performAll, Switches.perform] using htail

/-- Whatever the file holds at first, the operations turn it into the map they
describe, return what the map says, and add a record only for a new hash. -/
theorem performAll_refines_switches (order : ByteOrder) (file : Option Bytes)
    (ops : List Operation)
    (hcount : ∀ pre, pre <+: ops →
      (pre.foldl performRecords (records order file)).length < 2 ^ 32) :
    ∃ m : Switches,
      (∀ h, readPatchState order allocates file h = some (answer (m h))) ∧
      (∃ file', performAll order file ops = some (file', (m.performAll ops).2) ∧
        ∀ h, readPatchState order allocates file' h =
          some (answer ((m.performAll ops).1 h))) ∧
      ∀ pre op post, ops = pre ++ op :: post →
        ∃ before after rs rs',
          performAll order file pre = some (before, rs) ∧
          performAll order file (pre ++ [op]) = some (after, rs') ∧
          (records order after).map PatchState.hash =
            if op.hash ∈ (records order before).map PatchState.hash then
              (records order before).map PatchState.hash
            else (records order before).map PatchState.hash ++ [op.hash] := by
  refine ⟨switches (records order file), readPatchState_eq order file, ?_, ?_⟩
  · obtain ⟨file', hrun, hrecords⟩ := performAll_eq order ops file hcount
    refine ⟨file', hrun, ?_⟩
    intro h
    rw [readPatchState_eq, hrecords, switches_foldl_performRecords]
  · rintro pre op post rfl
    have hpre : ∀ l, l <+: pre → l <+: pre ++ op :: post :=
      fun l hl => hl.trans (List.prefix_append pre _)
    have hpre' : ∀ l, l <+: pre ++ [op] → l <+: pre ++ op :: post :=
      fun l hl => hl.trans ⟨post, by simp⟩
    obtain ⟨before, hbefore, hrecords⟩ :=
      performAll_eq order pre file (fun l hl => hcount l (hpre l hl))
    obtain ⟨after, hafter, hrecords'⟩ :=
      performAll_eq order (pre ++ [op]) file (fun l hl => hcount l (hpre' l hl))
    refine ⟨before, after, _, _, hbefore, hafter, ?_⟩
    rw [hrecords', hrecords, List.foldl_append]
    exact map_hash_performRecords _ op

/-- Toggling in an empty store, writing a switch off and toggling it again. -/
theorem performAll_refines_switches_toggles :
    let ops : List Operation := [.toggle 7, .write 9 false, .toggle 9, .toggle 7]
    ∃ m : Switches,
      (∀ h, readPatchState .little allocates none h = some (answer (m h))) ∧
      (∃ file', performAll .little none ops = some (file', (m.performAll ops).2) ∧
        ∀ h, readPatchState .little allocates file' h =
          some (answer ((m.performAll ops).1 h))) ∧
      ∀ pre op post, ops = pre ++ op :: post →
        ∃ before after rs rs',
          performAll .little none pre = some (before, rs) ∧
          performAll .little none (pre ++ [op]) = some (after, rs') ∧
          (records .little after).map PatchState.hash =
            if op.hash ∈ (records .little before).map PatchState.hash then
              (records .little before).map PatchState.hash
            else (records .little before).map PatchState.hash ++ [op.hash] := by
  apply performAll_refines_switches
  intro pre hpre
  have hlen := length_foldl_performRecords_le pre (records .little none)
  have hrecords : (records .little none).length = 0 := rfl
  have hpreLen : pre.length ≤ 4 := hpre.length_le
  omega

end GamePatch.Settings
