import GamePatch.Verification.Apply.Entries
import GamePatch.Verification.RunPatch.Gate

/-! # What a run leaves in the game

The entries that pass the gate are applied to the process of the game: its memory
and the argument vector that the bootloader has prepared for it. -/

namespace GamePatch

open Apply Arguments

/-- The process after entries: every byte is the one of the last entry that covers
it, and the vector holds the arguments of `main` and then those appended. -/
structure LeavesGame (entries : List PatchEntry) (p p' : Process) : Prop where
  writes : p'.writes = p.writes ++ entries.filterMap stored
  last : ∀ before entry after, entries = before ++ entry :: after →
    ∀ block, stored entry = some block → ∀ a, ∀ hcovers : Store.Covers a block,
      (∀ later ∈ after, ∀ block ∈ stored later, ¬ Store.Covers a block) →
      p'.memory a = block.2.get ⟨a - block.1, Nat.sub_lt_left_of_lt_add hcovers.1 hcovers.2⟩
  outside : ∀ a, (∀ entry ∈ entries, ∀ block ∈ stored entry, ¬ Store.Covers a block) →
    p'.memory a = p.memory a
  args : ∀ fresh argc argv, Cleared fresh → 0 ≤ argc.toInt →
    p.args = copyMainArgs fresh argc argv →
      ∃ pargs, p'.args = some pargs ∧
        WellFormed argc.toInt.toNat argv (entries.flatMap appended) pargs

theorem Apply.Effect.leavesGame {entries : List PatchEntry} {p p' : Process}
    (h : Effect entries p p') : LeavesGame entries p p' where
  writes := h.writes
  last := by
    rintro before entry after rfl block hstored a hcovers hafter
    exact h.memory_last hstored hcovers hafter
  outside := fun _ houtside => h.memory_outside houtside
  args := by
    intro fresh argc argv hcleared hargc hargs
    have hclean : ∀ i (h : i < maxArgs), fresh.replaceArgs[i][maxArgBuf] = '\x00' :=
      fun i hi => hcleared i hi maxArgBuf (by omega)
    rcases copyMainArgs_table argc argv hargc hclean with ⟨pargs, hcopied, htable⟩
    rw [hcopied] at hargs
    refine ⟨extend (entries.flatMap appended) pargs, by rw [h.args, hargs]; rfl, ?_⟩
    exact Table.wellFormed (htable.appendArgs (entries.flatMap appended)).1

/-- A run over a file of blocks leaves in the game what the entries that pass make of
it, and nothing else. -/
theorem PatchFile.runPatch_leavesGame (file : PatchFile) (env : Env) (info : GamePatchInfo)
    (getpid : UInt32) (p : Process) (hprx : env.prx = true) (hpid : getpid ≠ 0)
    (hlookups : ∀ q ∈ file.blocks.zipIdx, q.1.LookupsDefined env info q.2) :
    ∃ p', runPatch env (applyPatch getpid) info (some file.lines) p =
        some (reportOf 0 ⟨file.named env info file.blocks.length, p'⟩) ∧
      LeavesGame (file.passed (env.settingsOn info) env info file.blocks.length) p p' := by
  refine ⟨_, ?_, (foldl_effect hpid
    (file.passed (env.settingsOn info) env info file.blocks.length) p).leavesGame⟩
  rw [file.runPatch_gate env (applyPatch getpid) info p hprx, if_pos hlookups]

/-! ## Overlapping entries and an argument -/

/-- A block that stores four bytes, stores the second of them again, and appends an
argument. -/
def overlappingBlock : Block where
  opening := "patch:".toList
  header := oneVersion.header
  patches := "  patches:".toList
  body := ["    - [ \"be32\", \"0x10\", \"0x20\" ]", "    - [ \"byte\", \"0x11\", \"7\" ]",
    "    - [ \"append_arg\", \"-fps\", \"60\" ]"].map String.toList
  opens := oneVersion.opens
  plain_header := oneVersion.plain_header
  opensEntries := oneVersion.opensEntries
  plain_body := by decide +kernel
  title := oneVersion.title
  appBin := oneVersion.appBin
  appVers := oneVersion.appVers
  keepsTitle := by decide +kernel

def overlappingFile : PatchFile where
  preamble := []
  blocks := [overlappingBlock]
  filler_preamble := List.forall_mem_nil Filler

theorem PatchFile.runPatch_leavesGame_overlapping :
    ∃ p', runPatch bothOn (applyPatch 1) runningGame (some overlappingFile.lines) freshProcess =
        some (reportOf 0 ⟨1, p'⟩) ∧
      LeavesGame overlappingBlock.entries freshProcess p' := by
  have hnamed : overlappingFile.named bothOn runningGame 1 = 1 := by decide +kernel
  have hpassed : overlappingFile.passed (bothOn.settingsOn runningGame) bothOn runningGame 1 =
      overlappingBlock.entries := by decide +kernel
  have h := overlappingFile.runPatch_leavesGame bothOn runningGame 1 freshProcess rfl (by decide)
    (by decide +kernel)
  rwa [show overlappingFile.blocks.length = 1 from rfl, hnamed, hpassed] at h

end GamePatch
