import GamePatch.Shared.Store
import GamePatch.Verification.Apply.Arguments
import GamePatch.Verification.Apply.Width

/-! # The entries of a run

An entry stores one block of bytes or appends its parameters to the argument
vector of the game, never both. A run stores the blocks of its entries one over
the other and appends their parameters in order. -/

namespace GamePatch.Apply

/-! ## One entry -/

/-- The block that an entry stores, with its address. -/
def stored (entry : PatchEntry) : Option (ℕ × List UInt8) :=
  match entry.params with
  | type :: address :: value :: _ =>
      (armWidth type).map fun k => ((stringToUint address).toUInt32.toNat, content k value)
  | _ => none

/-- The arguments that an entry appends. -/
def appended (entry : PatchEntry) : List CString :=
  match entry.params with
  | type :: address :: value :: rest =>
      if type = "append_arg".toList then (address :: value :: rest).filter fun param => param ≠ []
      else []
  | _ => []

/-- The argument vector after calls of `append_arg`. -/
def extend (args : List CString) (pargs : ProgramArgs) : ProgramArgs := (appendArgs pargs args).1

theorem map_extend_nil (args : Option ProgramArgs) : args.map (extend []) = args := by
  cases args <;> rfl

theorem extend_append (args args' : List CString) (pargs : ProgramArgs) :
    extend (args ++ args') pargs = extend args' (extend args pargs) := by
  induction args generalizing pargs with
  | nil => rfl
  | cons arg args ih => exact ih (appendArg pargs arg).1

/-- A type that passes no test of the memory arms and is not `append_arg` is ignored. -/
theorem applyPatch_of_no_arm (getpid : UInt32) (p : Process) {type : CString}
    (harm : armWidth type = none) (htype : type ≠ "append_arg".toList)
    (address value : CString) (rest : List CString) :
    applyPatch getpid ⟨type :: address :: value :: rest⟩ p = p := by
  rw [armWidth] at harm
  split_ifs at harm with h1 h2 h4 h8
  simp only [applyPatch, if_neg h1, if_neg h2, if_neg h4, if_neg h8, if_neg htype]

/-! ## The effect of entries -/

/-- What entries have made of a process. -/
structure Effect (entries : List PatchEntry) (p p' : Process) : Prop where
  memory : p'.memory = Store.writeAll p.memory (entries.filterMap stored)
  writes : p'.writes = p.writes ++ entries.filterMap stored
  args : p'.args = p.args.map (extend (entries.flatMap appended))

theorem Effect.refl (p : Process) : Effect [] p p where
  memory := rfl
  writes := (List.append_nil _).symm
  args := (map_extend_nil p.args).symm

theorem Effect.trans {entries entries' : List PatchEntry} {p p' p'' : Process}
    (h : Effect entries p p') (h' : Effect entries' p' p'') :
    Effect (entries ++ entries') p p'' where
  memory := by
    rw [h'.memory, h.memory, List.filterMap_append, Store.writeAll_append]
  writes := by
    rw [h'.writes, h.writes, List.filterMap_append, List.append_assoc]
  args := by
    rw [h'.args, h.args, List.flatMap_append, Option.map_map]
    congr 1
    funext pargs
    exact (extend_append _ _ pargs).symm

/-- An entry that changes nothing. -/
theorem effect_of_idle {entry : PatchEntry} (hstored : stored entry = none)
    (happended : appended entry = []) (p : Process) : Effect [entry] p p where
  memory := by
    rw [List.filterMap_cons_none hstored]
    rfl
  writes := by
    rw [List.filterMap_cons_none hstored]
    exact (List.append_nil _).symm
  args := by
    rw [List.flatMap_singleton, happended, map_extend_nil]

theorem effect_of_stored {getpid : UInt32} (hpid : getpid ≠ 0) {type : CString} {k : ℕ}
    (harm : armWidth type = some k) (address value : CString) (rest : List CString)
    (p : Process) :
    Effect [⟨type :: address :: value :: rest⟩] p
      (applyPatch getpid ⟨type :: address :: value :: rest⟩ p) := by
  have hstored : stored ⟨type :: address :: value :: rest⟩ =
      some ((stringToUint address).toUInt32.toNat, content k value) := by
    simp only [stored, harm, Option.map_some]
  have happended : appended ⟨type :: address :: value :: rest⟩ = [] := by
    have htype : type ≠ "append_arg".toList := by
      rintro rfl
      revert harm
      rw [show armWidth "append_arg".toList = none from by decide]
      exact fun h => nomatch h
    simp only [appended, if_neg htype]
  rw [applyPatch_of_armWidth getpid p harm]
  rcases writePatch_eq hpid (stringToUint address).toUInt32 (content k value) p with ⟨pid, hwrite⟩
  rw [hwrite]
  constructor
  · rw [List.filterMap_cons_some hstored]
    rfl
  · rw [List.filterMap_cons_some hstored]
    rfl
  · rw [List.flatMap_singleton, happended, map_extend_nil]
    rfl

/-- What one entry does. -/
theorem applyPatch_effect {getpid : UInt32} (hpid : getpid ≠ 0) (entry : PatchEntry)
    (p : Process) : Effect [entry] p (applyPatch getpid entry p) := by
  rcases entry with ⟨params⟩
  match params with
  | [] => exact effect_of_idle rfl rfl p
  | [_] => exact effect_of_idle rfl rfl p
  | [_, _] => exact effect_of_idle rfl rfl p
  | type :: address :: value :: rest =>
      cases harm : armWidth type with
      | some k => exact effect_of_stored hpid harm address value rest p
      | none =>
          have hstored : stored ⟨type :: address :: value :: rest⟩ = none := by
            simp only [stored, harm, Option.map_none]
          by_cases htype : type = "append_arg".toList
          · subst htype
            rw [applyPatch_appendArg]
            constructor
            · rw [List.filterMap_cons_none hstored]
              rfl
            · rw [List.filterMap_cons_none hstored]
              exact (List.append_nil _).symm
            · rw [List.flatMap_singleton]
              rfl
          · rw [applyPatch_of_no_arm getpid p harm htype]
            exact effect_of_idle hstored (by simp only [appended, if_neg htype]) p

/-- What a run of entries does. -/
theorem foldl_effect {getpid : UInt32} (hpid : getpid ≠ 0) (entries : List PatchEntry)
    (p : Process) :
    Effect entries p (entries.foldl (fun p entry => applyPatch getpid entry p) p) := by
  induction entries generalizing p with
  | nil => exact Effect.refl p
  | cons entry entries ih => exact (applyPatch_effect hpid entry p).trans (ih _)

/-- The last entry that covers a byte decides about it. -/
theorem Effect.memory_last {before after : List PatchEntry} {entry : PatchEntry} {p p' : Process}
    (h : Effect (before ++ entry :: after) p p') {block : ℕ × List UInt8} {a : ℕ}
    (hstored : stored entry = some block) (hcovers : Store.Covers a block)
    (hafter : ∀ later ∈ after, ∀ block ∈ stored later, ¬ Store.Covers a block) :
    p'.memory a =
      block.2.get ⟨a - block.1, Nat.sub_lt_left_of_lt_add hcovers.1 hcovers.2⟩ := by
  rw [h.memory, List.filterMap_append, List.filterMap_cons_some hstored]
  apply Store.writeAll_last p.memory hcovers
  intro later hlater
  rcases List.mem_filterMap.mp hlater with ⟨entry', hmem, hentry'⟩
  exact hafter entry' hmem later hentry'

/-- A byte that no entry covers is left alone. -/
theorem Effect.memory_outside {entries : List PatchEntry} {p p' : Process}
    (h : Effect entries p p') {a : ℕ}
    (houtside : ∀ entry ∈ entries, ∀ block ∈ stored entry, ¬ Store.Covers a block) :
    p'.memory a = p.memory a := by
  rw [h.memory]
  apply Store.writeAll_outside
  intro block hblock
  rcases List.mem_filterMap.mp hblock with ⟨entry, hmem, hentry⟩
  exact houtside entry hmem block hentry

end GamePatch.Apply
