import GamePatch.Model.VshPatch
import GamePatch.Shared.PowerPC
import GamePatch.Shared.Runs
import GamePatch.Verification.PatchCall
import GamePatch.Verification.PatternScan

/-! # Plugins of the shell one after another

The signature leaves the call open that `run_patch` writes, so that the next plugin finds
the same place. Its way back leads to the plugin before. -/

namespace GamePatch.VshPatch

open Words Branch PowerPC PatchCall PatternScan

/-! ## Branches in memory -/

/-- A machine at `a` goes to `b` with one instruction. -/
def Leads (memory : ℕ → UInt8) (a b : UInt32) (call : Bool) : Prop :=
  ∀ (other : UInt32 → Machine → Option Machine) (m : Machine), m.pc = a.toUInt64 →
    m.memory = memory →
      step other m = some { m with pc := b.toUInt64, lr := if call then m.pc + 4 else m.lr }

/-- The word at `a` is a branch to `b`. -/
structure Branches (p : Process) (a b : UInt32) (call : Bool) : Prop where
  relative : IsRelative (readWord p a) call
  target : (b.toNat : ℤ) = a.toNat + displacement (readWord p a)

/-- A branch at `a` can go to `b`, and does not wrap on its way. -/
structure Reaches (a b : UInt32) : Prop where
  low : -0x2000000 ≤ (b.toNat : ℤ) - a.toNat
  high : (b.toNat : ℤ) - a.toNat < 0x2000000

variable {p p' : Process} {a b src t : UInt32} {call : Bool}

theorem Branches.leads (h : Branches p a b call) : Leads p.memory a b call := by
  intro other m hpc hmemory
  have hpc' : m.pc.toNat = a.toNat := by rw [hpc, UInt32.toNat_toUInt64]
  have hword : wordAt m.memory m.pc.toNat = readWord p a := by
    rw [hmemory, hpc']
    rfl
  have hgoal : UInt64.ofInt (m.pc.toNat + displacement (readWord p a)) = b.toUInt64 := by
    have hlt := b.toNat_lt
    rw [hpc', ← h.target, ← UInt64.toNat_inj, UInt32.toNat_toUInt64, UInt64.ofInt,
      UInt64.toNat_ofNat']
    omega
  rw [step, hword, execute_of_isRelative h.relative, hgoal]
  rfl

theorem Branches.congr (h : Branches p a b call)
    (hsame : ∀ i < 4, p'.memory (a.toNat + i) = p.memory (a.toNat + i)) :
    Branches p' a b call := by
  have hword : readWord p' a = readWord p a := wordAt_congr hsame
  exact ⟨hword ▸ h.relative, hword ▸ h.target⟩

theorem branches_makeCallValue (ha : Aligned a) (hb : Aligned b) (hreach : Reaches a b)
    (hword : readWord p a = (makeCallValue a b).toUInt32) : Branches p a b true := by
  have hdisplacement :=
    displacement_of_field ha hb hreach.low hreach.high (field_makeCallValue ha hb)
  refine ⟨hword ▸ isRelative_makeCallValue a b, ?_⟩
  rw [hword, hdisplacement]
  omega

theorem branches_makeJumpValue (ha : Aligned a) (hb : Aligned b) (hreach : Reaches a b)
    (hword : readWord p a = (makeJumpValue a b).toUInt32) : Branches p a b false := by
  have hdisplacement :=
    displacement_of_field ha hb hreach.low hreach.high (field_makeJumpValue ha hb)
  refine ⟨hword ▸ isRelative_makeJumpValue a b, ?_⟩
  rw [hword, hdisplacement]
  omega

theorem Branches.branchTarget_eq (h : Branches p a b call) :
    branchTarget a (readWord p a) = b.toNat := by
  have hlt := b.toNat_lt
  rw [branchTarget, ← h.target]
  omega

/-- The call goes to the plugin, and the plugin's way back where the call went. -/
structure Patched (src t dst ptr : UInt32) (p p' : Process) : Prop where
  call : Branches p' src dst true
  back : Branches p' ptr t false
  frame : ∀ a, (a < src.toNat ∨ src.toNat + 4 ≤ a) → (a < ptr.toNat ∨ ptr.toNat + 4 ≤ a) →
    p'.memory a = p.memory a

theorem patchCall_patched {dst original : FunctionDescriptor} (hsrc : Aligned src)
    (hdst : Aligned dst.addr) (horiginal : Aligned original.addr) (hnonzero : original.addr ≠ 0)
    (hne : original.addr ≠ src) (hcall : Branches p src t true) (hreach : Reaches src dst.addr)
    (hback : Reaches original.addr t) :
    Patched src t dst.addr original.addr p (patchCall src dst (some original) p) := by
  have ht := aligned_of_branchTarget hsrc hcall.branchTarget_eq
  have htarget : src + (readCallOffset (readWord p src)).toUInt32 = t := by
    apply UInt32.toNat_inj.mp
    have hcomputed := toNat_add_readCallOffset src (readWord p src)
    rw [hcall.branchTarget_eq] at hcomputed
    exact_mod_cast hcomputed
  have hafter : patchCall src dst (some original) p =
      writeWord (writeWord p original.addr (makeJumpValue original.addr t).toUInt32) src
        (makeCallValue src dst.addr).toUInt32 := by
    simp only [patchCall, if_pos hnonzero, htarget]
  refine ⟨branches_makeCallValue hsrc hdst hreach ?_,
    branches_makeJumpValue horiginal ht hback ?_, fun a ha ha' => ?_⟩
  · rw [hafter, readWord_writeWord]
  · rw [hafter, readWord_writeWord_of_ne _ _ horiginal hsrc hne, readWord_writeWord]
  · rw [hafter, writeWord_memory_of_outside _ _ _ ha, writeWord_memory_of_outside _ _ _ ha']

/-! ## The scan after a patch -/

theorem readProcessMemory_view_ne_none_iff {readable : ℕ → Bool} {address n : ℕ} :
    readProcessMemory (view readable p) address n ≠ none ↔
      ∀ i < n, readable (address + i) = true := by
  induction n generalizing address with
  | zero => simp [readProcessMemory]
  | succ n ih =>
      have hrest : (∀ i < n + 1, readable (address + i) = true) ↔
          readable address = true ∧ ∀ i < n, readable (address + 1 + i) = true := by
        constructor
        · intro h
          refine ⟨h 0 (Nat.zero_lt_succ n), fun i hi => ?_⟩
          rw [Nat.add_assoc, Nat.add_comm 1 i]
          exact h (i + 1) (Nat.succ_lt_succ hi)
        · rintro ⟨hfirst, hrest⟩ i hi
          cases i with
          | zero => exact hfirst
          | succ i =>
              rw [Nat.add_comm i 1, ← Nat.add_assoc]
              exact hrest i (Nat.lt_of_succ_lt_succ hi)
      rw [hrest, ← ih, readProcessMemory, view]
      cases readable address with
      | false => simp
      | true => simp [Option.ne_none_iff_exists']

/-- The signature matches byte for byte. -/
theorem matchesAt_iff {process : ProcessMemory} {signature : List UInt8} {address : ℕ} :
    MatchesAt process signature address ↔ ∀ i < signature.length,
      ∃ byte, process (address + i) = some byte ∧ ByteMatches byte (signature.getD i 0) := by
  induction signature generalizing address with
  | nil => simp [MatchesAt, readProcessMemory]
  | cons pattern signature ih =>
      have hsplit : MatchesAt process (pattern :: signature) address ↔
          (∃ byte, process address = some byte ∧ ByteMatches byte pattern) ∧
            MatchesAt process signature (address + 1) := by
        simp only [MatchesAt, readProcessMemory, List.length_cons, Option.bind_eq_bind,
          Option.bind_eq_some_iff, Option.pure_def, Option.some.injEq]
        constructor
        · rintro ⟨bytes, ⟨byte, hbyte, rest, hrest, rfl⟩, hmatch⟩
          rw [List.forall₂_cons] at hmatch
          exact ⟨⟨byte, hbyte, hmatch.1⟩, rest, hrest, hmatch.2⟩
        · rintro ⟨⟨byte, hbyte, hfirst⟩, rest, hrest, hmatch⟩
          exact ⟨byte :: rest, ⟨byte, hbyte, rest, hrest, rfl⟩, .cons hfirst hmatch⟩
      have hplace (i : ℕ) : address + 1 + i = address + (i + 1) := by omega
      rw [hsplit, ih]
      constructor
      · rintro ⟨hfirst, hrest⟩ i hi
        cases i with
        | zero => exact hfirst
        | succ i => exact hplace i ▸ hrest i (Nat.lt_of_succ_lt_succ hi)
      · intro h
        exact ⟨h 0 (Nat.zero_lt_succ _),
          fun i hi => (hplace i).symm ▸ h (i + 1) (Nat.succ_lt_succ hi)⟩

/-- The signature does not overlap itself in the first words, and leaves the call open. -/
theorem searchBytes_apart : ∀ d < 12, 0 < d → ∃ j, j < 20 ∧ d + j < 32 ∧
    searchBytes.getD j 0 ≠ 0xff ∧ searchBytes.getD (d + j) 0 ≠ 0xff ∧
      searchBytes.getD j 0 ≠ searchBytes.getD (d + j) 0 := by
  decide +kernel

theorem searchBytes_call : ∀ i < 24, 20 ≤ i → searchBytes.getD i 0 = 0xff := by decide +kernel

theorem length_searchBytes : searchBytes.length = 32 := rfl

section

variable {readable : ℕ → Bool} {size q r : ℕ}

theorem scanned_view_iff (hroom : 0x10000 + size + seekSize ≤ 0x100000000) (hlong : 32 ≤ size) :
    Scanned (view readable p) 0x10000 size searchBytes r ↔
      seekSize * (r / seekSize) < size - 32 ∧
        ∀ i < seekSize, readable (0x10000 + seekSize * (r / seekSize) + i) = true := by
  have hlength : searchBytes.length ≤ size := hlong
  rw [Scanned, readProcessMemory_view_ne_none_iff, seekAt_lt_iff hroom hlength, length_searchBytes]
  refine (and_iff_right (by decide)).trans (and_congr_right fun hlow => ?_)
  have hchunk : seekAt 0x10000 (r / seekSize) = 0x10000 + seekSize * (r / seekSize) := by
    have hplace := placeAddress_of_room (p := seekSize * (r / seekSize)) hroom (by
      rw [Nat.mul_div_cancel_left _ seekSize_pos]
      omega)
    rwa [placeAddress, Nat.mul_div_cancel_left _ seekSize_pos, Nat.mul_mod_right,
      Nat.add_zero] at hplace
  rw [hchunk]

theorem agreesAt_view_iff (hroom : 0x10000 + size + seekSize ≤ 0x100000000) (hlong : 32 ≤ size) :
    AgreesAt (view readable p) 0x10000 size searchBytes r ↔
      Scanned (view readable p) 0x10000 size searchBytes r ∧
        ∀ i < 32, r % seekSize + i < seekSize → readable (0x10000 + r + i) = true ∧
          ByteMatches (p.memory (0x10000 + r + i)) (searchBytes.getD i 0) := by
  have hlt : r % seekSize < seekSize := Nat.mod_lt _ seekSize_pos
  rw [AgreesAt, matchesAt_iff, List.length_take, length_searchBytes]
  refine and_congr_right fun hscanned => ?_
  have hlow := ((scanned_view_iff hroom hlong).mp hscanned).1
  rw [placeAddress_of_room hroom (by omega)]
  refine ⟨fun h i hi hchunk => ?_, fun h i hi => ?_⟩
  · rcases h i (by omega) with ⟨byte, hbyte, hmatch⟩
    rw [List.getD_eq_getElem?_getD, List.getElem?_take_of_lt (by omega),
      ← List.getD_eq_getElem?_getD] at hmatch
    rw [view] at hbyte
    split at hbyte
    · next hreadable => exact ⟨hreadable, Option.some.inj hbyte ▸ hmatch⟩
    · cases hbyte
  · rcases h i (by omega) (by omega) with ⟨hreadable, hmatch⟩
    refine ⟨_, if_pos hreadable, ?_⟩
    rwa [List.getD_eq_getElem?_getD, List.getElem?_take_of_lt (by omega),
      ← List.getD_eq_getElem?_getD]

/-- The scan comes to this place: the first one that agrees with the signature, which
lies in its chunk. -/
structure FirstPlace (readable : ℕ → Bool) (p : Process) (q : ℕ) : Prop where
  agrees : AgreesAt (view readable p) 0x10000 (getVshSize p) searchBytes q
  first : ∀ r < q, ¬ AgreesAt (view readable p) 0x10000 (getVshSize p) searchBytes r
  fits : FitsChunk searchBytes q

/-- No other call at the place leads the scan elsewhere. -/
theorem FirstPlace.keep (h : FirstPlace readable p q)
    (hroom : 0x10000 + getVshSize p + seekSize ≤ 0x100000000) (hlong : 32 ≤ getVshSize p)
    (hsize : getVshSize p' = getVshSize p)
    (hsame : ∀ i < getVshSize p + 256, (i < q + 20 ∨ q + 24 ≤ i) →
      p'.memory (0x10000 + i) = p.memory (0x10000 + i)) :
    FirstPlace readable p' q := by
  have hfits := h.fits
  have hscanned (r : ℕ) : Scanned (view readable p') 0x10000 (getVshSize p') searchBytes r ↔
      Scanned (view readable p) 0x10000 (getVshSize p) searchBytes r := by
    rw [hsize, scanned_view_iff hroom hlong, scanned_view_iff hroom hlong]
  -- The cells of a place that is scanned are near enough to be the same.
  have hnear {r i : ℕ} (hr : Scanned (view readable p) 0x10000 (getVshSize p) searchBytes r)
      (hchunk : r % seekSize + i < seekSize) : r + i < getVshSize p + 256 := by
    have hlow := ((scanned_view_iff hroom hlong).mp hr).1
    rw [seekSize] at hlow hchunk
    omega
  have hq := (agreesAt_view_iff hroom hlong).mp h.agrees
  rw [FitsChunk, length_searchBytes] at hfits
  refine ⟨?_, fun r hr hagrees => ?_, h.fits⟩
  · rw [hsize]
    refine (agreesAt_view_iff hroom hlong).mpr
      ⟨hsize ▸ (hscanned q).mpr hq.1, fun i hi hchunk => ?_⟩
    rcases hq.2 i hi hchunk with ⟨hreadable, hmatch⟩
    refine ⟨hreadable, ?_⟩
    by_cases hcall : 20 ≤ i ∧ i < 24
    · exact .inr (searchBytes_call i hcall.2 hcall.1)
    · rw [Nat.add_assoc, hsame _ (hnear hq.1 hchunk) (by omega), ← Nat.add_assoc]
      exact hmatch
  · have hscan' := (hscanned r).mp hagrees.1
    rw [hsize] at hagrees
    rcases (agreesAt_view_iff hroom hlong).mp hagrees with ⟨-, hcells⟩
    by_cases hapart : r + 32 ≤ q + 20 ∨ r / seekSize < q / seekSize
    · -- The place does not see the call, so it agreed before.
      refine h.first r hr ((agreesAt_view_iff hroom hlong).mpr ⟨hscan', fun i hi hchunk => ?_⟩)
      rcases hcells i hi hchunk with ⟨hreadable, hmatch⟩
      have hbefore : r + i < q + 20 := by
        rw [seekSize] at hapart hchunk
        omega
      rw [Nat.add_assoc, hsame _ (hnear hscan' hchunk) (.inl hbefore), ← Nat.add_assoc] at hmatch
      exact ⟨hreadable, hmatch⟩
    · -- It overlaps the signature found, in a byte where the two differ.
      rcases searchBytes_apart (q - r) (by omega) (by omega) with ⟨j, hj, hdj, hff, hff', hne⟩
      have hchunk : r % seekSize + (q - r + j) < seekSize := by
        rw [seekSize] at hapart hfits ⊢
        omega
      rcases hcells (q - r + j) hdj hchunk with ⟨-, hmatch⟩
      rcases hq.2 j (by omega) (by omega) with ⟨-, hmatch'⟩
      have hplace : r + (q - r + j) = q + j := by omega
      rw [Nat.add_assoc, hsame _ (hnear hscan' hchunk) (.inl (by omega)), hplace] at hmatch
      rw [Nat.add_assoc] at hmatch'
      exact hne ((hmatch'.resolve_right hff).symm.trans (hmatch.resolve_right hff'))

/-- The scan returns the address of the call. -/
theorem FirstPlace.patternScan_eq (h : FirstPlace readable p q)
    (hwrap : 0x10000 + getVshSize p + seekSize ≤ 0x100000000) (hlong : 32 ≤ getVshSize p) :
    patternScan (view readable p) 0x10000 (getVshSize p) searchBytes 20 =
      some (0x10000 + q + 20) := by
  have hlow := ((scanned_view_iff hwrap hlong).mp h.agrees.1).1
  have hfits := h.fits
  rw [FitsChunk, length_searchBytes] at hfits
  rcases patternScan_ends (view readable p) 0x10000 (getVshSize p) 20 searchBytes (by decide)
    (by decide) hlong (by omega) with ⟨place, hagrees, hbefore, hresult⟩ | ⟨hnone, -⟩
  · have hplace : place = q := by
      rcases Nat.lt_trichotomy place q with hlt | heq | hgt
      · exact absurd hagrees (h.first place hlt)
      · exact heq
      · exact absurd h.agrees (hbefore q hgt)
    subst hplace
    rw [hresult, if_pos h.fits, placeAddress_of_room hwrap (by omega), uintptr, Nat.mod_eq_of_lt]
    rw [seekSize] at hlow hfits hwrap
    omega
  · exact absurd h.agrees (hnone q)

end

/-! ## Plugins one after another -/

/-- A plugin in the memory of the shell. -/
structure Plugin where
  loadPluginMain : FunctionDescriptor
  loadPluginMainPtr : FunctionDescriptor
  deriving DecidableEq, Repr

/-- `run_patch` of a plugin. -/
def startPlugin (readable : ℕ → Bool) (vshPid : UInt32) (p : Process) (i : Plugin) :
    Option Process :=
  runPatch readable vshPid i.loadPluginMain i.loadPluginMainPtr p

/-- Where the call goes with these plugins, the last one first. -/
def headOf (t : UInt32) : List Plugin → UInt32
  | [] => t
  | i :: _ => i.loadPluginMain.addr

/-- The plugin is near enough to the call and to the plugin before, and its way back is a
word of its own outside the module. -/
structure Placed (src t : UInt32) (size : ℕ) (loaded : List Plugin) (i : Plugin) : Prop where
  aligned : Aligned i.loadPluginMain.addr
  alignedPtr : Aligned i.loadPluginMainPtr.addr
  nonzero : i.loadPluginMainPtr.addr ≠ 0
  reach : Reaches src i.loadPluginMain.addr
  back : Reaches i.loadPluginMainPtr.addr (headOf t loaded)
  outside : Store.Apart i.loadPluginMainPtr.addr.toNat 4 0x10000 (size + 256)
  own : ∀ j ∈ loaded, j.loadPluginMainPtr.addr ≠ i.loadPluginMainPtr.addr

/-- Every plugin is placed when it is started. -/
def AllPlaced (src t : UInt32) (size : ℕ) : List Plugin → List Plugin → Prop
  | _, [] => True
  | loaded, i :: rest => Placed src t size loaded i ∧ AllPlaced src t size (i :: loaded) rest

/-- The way back of each plugin leads to the one before. -/
def Chained (p : Process) (t : UInt32) : List Plugin → Prop
  | [] => True
  | i :: loaded =>
      Branches p i.loadPluginMainPtr.addr (headOf t loaded) false ∧ Chained p t loaded

variable {readable : ℕ → Bool} {size q : ℕ} {loaded : List Plugin} {p₀ : Process}

theorem Chained.congr (h : Chained p t loaded)
    (hsame : ∀ j ∈ loaded, ∀ i < 4, p'.memory (j.loadPluginMainPtr.addr.toNat + i) =
      p.memory (j.loadPluginMainPtr.addr.toNat + i)) : Chained p' t loaded := by
  induction loaded with
  | nil => trivial
  | cons j loaded ih =>
      rw [List.forall_mem_cons] at hsame
      exact ⟨h.1.congr hsame.1, ih h.2 hsame.2⟩

/-- The shell with these plugins started, where memory was that of `p₀` before. -/
structure Stacked (readable : ℕ → Bool) (p₀ : Process) (q : ℕ) (t : UInt32)
    (loaded : List Plugin) (p : Process) : Prop where
  place : FirstPlace readable p q
  size : getVshSize p = getVshSize p₀
  call : Branches p (UInt32.ofNat (0x10000 + q + 20)) (headOf t loaded) true
  chain : Chained p t loaded
  alignedPtr : ∀ i ∈ loaded, Aligned i.loadPluginMainPtr.addr
  outside : ∀ i ∈ loaded,
    Store.Apart i.loadPluginMainPtr.addr.toNat 4 0x10000 (getVshSize p₀ + 256)
  frame : ∀ a, (a < 0x10000 + q + 20 ∨ 0x10000 + q + 24 ≤ a) →
    (∀ i ∈ loaded, a < i.loadPluginMainPtr.addr.toNat ∨ i.loadPluginMainPtr.addr.toNat + 4 ≤ a) →
    p.memory a = p₀.memory a

theorem FirstPlace.toNat_call (h : FirstPlace readable p q)
    (hwrap : 0x10000 + getVshSize p + seekSize ≤ 0x100000000) (hlong : 32 ≤ getVshSize p) :
    (UInt32.ofNat (0x10000 + q + 20)).toNat = 0x10000 + q + 20 ∧
      q + 32 ≤ getVshSize p + 256 := by
  have hlow := ((scanned_view_iff hwrap hlong).mp h.agrees.1).1
  have hfits := h.fits
  rw [FitsChunk, length_searchBytes] at hfits
  rw [seekSize] at hlow hfits hwrap
  rw [UInt32.toNat_ofNat']
  omega

/-- One more plugin is started. The place must be aligned, and not in the header that the
size of the module is read from. -/
theorem Stacked.start (h : Stacked readable p₀ q t loaded p) {vshPid : UInt32}
    (hpid : vshPid ≠ 0) (hwrap : 0x10000 + getVshSize p₀ + seekSize ≤ 0x100000000)
    (hlong : 32 ≤ getVshSize p₀) (haligned : q % 4 = 0) (hheader : 0x70 ≤ q + 20) {i : Plugin}
    (hplaced :
      Placed (UInt32.ofNat (0x10000 + q + 20)) t (getVshSize p₀) loaded i) :
    ∃ p', startPlugin readable vshPid p i = some p' ∧
      Stacked readable p₀ q t (i :: loaded) p' := by
  have hwrap' : 0x10000 + getVshSize p + seekSize ≤ 0x100000000 := h.size ▸ hwrap
  have hlong' : 32 ≤ getVshSize p := h.size ▸ hlong
  rcases h.place.toNat_call hwrap' hlong' with ⟨hsrc, hinside⟩
  rw [h.size] at hinside
  have hrun : startPlugin readable vshPid p i =
      some (patchCall (UInt32.ofNat (0x10000 + q + 20)) i.loadPluginMain
        (some i.loadPluginMainPtr) p) := by
    rw [startPlugin, runPatch, if_neg hpid, h.place.patternScan_eq hwrap' hlong']
    rfl
  have hptr := hplaced.outside
  rw [Store.Apart] at hptr
  have halignedSrc : Aligned (UInt32.ofNat (0x10000 + q + 20)) := by
    rw [Aligned, hsrc]
    omega
  have hne : i.loadPluginMainPtr.addr ≠ UInt32.ofNat (0x10000 + q + 20) := by
    intro heq
    rw [heq, hsrc] at hptr
    omega
  have hpatched := patchCall_patched halignedSrc hplaced.aligned hplaced.alignedPtr
    hplaced.nonzero hne h.call hplaced.reach hplaced.back
  have hframe := hpatched.frame
  rw [hsrc] at hframe
  have hsize : getVshSize (patchCall (UInt32.ofNat (0x10000 + q + 20)) i.loadPluginMain
      (some i.loadPluginMainPtr) p) = getVshSize p := by
    rw [getVshSize, getVshSize]
    congr 1
    exact Store.read_congr fun j hj => hframe _ (.inl (by omega)) (by omega)
  refine ⟨_, hrun, h.place.keep hwrap' hlong' hsize fun j hj hcall => ?_,
    hsize.trans h.size, hpatched.call, ⟨hpatched.back, h.chain.congr fun j hj k hk => ?_⟩,
    List.forall_mem_cons.mpr ⟨hplaced.alignedPtr, h.alignedPtr⟩,
    List.forall_mem_cons.mpr ⟨hplaced.outside, h.outside⟩, fun a ha hfree => ?_⟩
  · rw [h.size] at hj
    exact hframe _ (by omega) (by omega)
  · have hother : j.loadPluginMainPtr.addr.toNat ≠ i.loadPluginMainPtr.addr.toNat :=
      fun heq => hplaced.own j hj (UInt32.toNat_inj.mp heq)
    have halignedPtr := hplaced.alignedPtr
    have halignedPtr' := h.alignedPtr j hj
    have hapart := h.outside j hj
    rw [Store.Apart] at hapart
    simp only [Aligned] at halignedPtr halignedPtr'
    exact hframe _ (by omega) (by omega)
  · rw [List.forall_mem_cons] at hfree
    exact (hframe a (by omega) hfree.1).trans (h.frame a ha hfree.2)

theorem Stacked.run {vshPid : UInt32} (hpid : vshPid ≠ 0)
    (hwrap : 0x10000 + getVshSize p₀ + seekSize ≤ 0x100000000) (hlong : 32 ≤ getVshSize p₀)
    (haligned : q % 4 = 0) (hheader : 0x70 ≤ q + 20) (plugins : List Plugin)
    (h : Stacked readable p₀ q t loaded p)
    (hplaced : AllPlaced (UInt32.ofNat (0x10000 + q + 20)) t (getVshSize p₀) loaded plugins) :
    ∃ p', plugins.foldlM (startPlugin readable vshPid) p = some p' ∧
      Stacked readable p₀ q t (plugins.reverse ++ loaded) p' := by
  induction plugins generalizing loaded p with
  | nil => exact ⟨p, rfl, h⟩
  | cons i plugins ih =>
      rcases h.start hpid hwrap hlong haligned hheader hplaced.1 with ⟨mid, hmid, hstacked⟩
      rcases ih hstacked hplaced.2 with ⟨p', hrun, hstacked'⟩
      rw [List.reverse_cons, List.append_assoc]
      exact ⟨p', Runs.foldlM_cons_eq_some.mpr ⟨mid, hmid, hrun⟩, hstacked'⟩

/-- What a machine meets in the shell: the call leads to the last plugin, each plugin's
way back to the plugin before, and that of the first one to where the call went. -/
structure Intercepts (memory₀ memory : ℕ → UInt8) (src t : UInt32) (loaded : List Plugin) :
    Prop where
  before : Leads memory₀ src t true
  call : Leads memory src (headOf t loaded) true
  back : ∀ later i earlier, loaded = later ++ i :: earlier →
    Leads memory i.loadPluginMainPtr.addr (headOf t earlier) false
  frame : ∀ a, (a < src.toNat ∨ src.toNat + 4 ≤ a) →
    (∀ i ∈ loaded, a < i.loadPluginMainPtr.addr.toNat ∨ i.loadPluginMainPtr.addr.toNat + 4 ≤ a) →
    memory a = memory₀ a

theorem Chained.leads (h : Chained p t loaded) {later earlier : List Plugin} {i : Plugin}
    (hsplit : loaded = later ++ i :: earlier) :
    Leads p.memory i.loadPluginMainPtr.addr (headOf t earlier) false := by
  induction later generalizing loaded with
  | nil =>
      subst hsplit
      exact h.1.leads
  | cons j later ih =>
      subst hsplit
      exact ih h.2 rfl

/-- However many plugins are started one after another, a call comes to the last one, and
through their ways back to where it went before the first. Without the signature nothing
changes. -/
theorem runPatch_stacks {vshPid : UInt32} (hpid : vshPid ≠ 0) (hlong : 32 ≤ getVshSize p₀)
    (hwrap : 0x10000 + getVshSize p₀ + seekSize ≤ 0x100000000) (plugins : List Plugin) :
    (∀ q t, FirstPlace readable p₀ q → q % 4 = 0 → 0x70 ≤ q + 20 →
      Branches p₀ (UInt32.ofNat (0x10000 + q + 20)) t true →
      AllPlaced (UInt32.ofNat (0x10000 + q + 20)) t (getVshSize p₀) [] plugins →
      ∃ p', plugins.foldlM (startPlugin readable vshPid) p₀ = some p' ∧
        Intercepts p₀.memory p'.memory (UInt32.ofNat (0x10000 + q + 20)) t plugins.reverse) ∧
    ((∀ r, ¬ AgreesAt (view readable p₀) 0x10000 (getVshSize p₀) searchBytes r) →
      plugins.foldlM (startPlugin readable vshPid) p₀ = some p₀) := by
  constructor
  · intro q t hplace haligned hheader hcall hplaced
    have hstart : Stacked readable p₀ q t [] p₀ :=
      ⟨hplace, rfl, hcall, trivial, fun _ h => (nomatch h), fun _ h => (nomatch h),
        fun _ _ _ => rfl⟩
    rcases hstart.run hpid hwrap hlong haligned hheader plugins hplaced with ⟨p', hrun, hstacked⟩
    have hsrc := (hplace.toNat_call hwrap hlong).1
    rw [List.append_nil] at hstacked
    refine ⟨p', hrun, hcall.leads, hstacked.call.leads, fun later i earlier hsplit => ?_, ?_⟩
    · exact hstacked.chain.leads hsplit
    · rw [hsrc]
      exact hstacked.frame
  · intro hnone
    have hscan : patternScan (view readable p₀) 0x10000 (getVshSize p₀) searchBytes 20 =
        some 0 := by
      rcases patternScan_ends (view readable p₀) 0x10000 (getVshSize p₀) 20 searchBytes
        (by decide) (by decide) hlong (by omega) with ⟨place, hagrees, -⟩ | ⟨-, hresult⟩
      · exact absurd hagrees (hnone place)
      · rw [hresult, if_pos]
        rw [seekSize] at hwrap
        exact .inr (by omega)
    have hidle (i : Plugin) : startPlugin readable vshPid p₀ i = some p₀ := by
      rw [startPlugin, runPatch, if_neg hpid, hscan]
      rfl
    induction plugins with
    | nil => rfl
    | cons i plugins ih => exact Runs.foldlM_cons_eq_some.mpr ⟨p₀, hidle i, ih⟩

/-- A shell of 512 bytes whose call goes to `0x10200`. -/
def shell : Process where
  memory := Store.writeAll (fun _ => 0)
    [(0x10068, [0, 0, 0, 0, 0, 0, 2, 0]),
      (0x10100, bytes [0x801f0008, 0x2f800000, 0x781f0020, 0x7fe3fb78, 0x419e0010, 0x480000ed,
        0x7fe3fb78, 0])]
  writes := []
  currentPid := 0
  args := none

theorem firstPlace_shell : FirstPlace (fun _ => true) shell 0x100 := by
  have hsize : getVshSize shell = 0x200 := by decide +kernel
  have hscanned (r : ℕ) (hr : r ≤ 0x100) :
      Scanned (view (fun _ => true) shell) 0x10000 0x200 searchBytes r := by
    refine (scanned_view_iff (by decide) (by decide)).mpr ⟨?_, fun _ _ => rfl⟩
    rw [seekSize]
    omega
  have hcells : ∀ i < 32, shell.memory (0x10100 + i) = searchBytes.getD i 0 ∨
      searchBytes.getD i 0 = 0xff := by decide +kernel
  have hbefore : ∀ r < 0x100, shell.memory (0x10000 + r) ≠ 0x80 := by decide +kernel
  refine ⟨?_, fun r hr hagrees => ?_, by decide⟩
  · rw [hsize]
    exact (agreesAt_view_iff (by decide) (by decide)).mpr
      ⟨hscanned _ le_rfl, fun i hi _ => ⟨rfl, hcells i hi⟩⟩
  · rw [hsize] at hagrees
    obtain ⟨-, hmatch⟩ :=
      ((agreesAt_view_iff (by decide) (by decide)).mp hagrees).2 0 (by decide)
        (Nat.mod_lt r seekSize_pos)
    rcases hmatch with hmatch | hff
    · exact hbefore r hr hmatch
    · exact absurd hff (by decide)

theorem runPatch_stacks_two : ∃ p',
    [Plugin.mk ⟨0x20000, 0⟩ ⟨0x20010, 0⟩, ⟨⟨0x30000, 0⟩, ⟨0x30010, 0⟩⟩].foldlM
      (startPlugin (fun _ => true) 1) shell = some p' ∧
    Intercepts shell.memory p'.memory 0x10114 0x10200
      [⟨⟨0x30000, 0⟩, ⟨0x30010, 0⟩⟩, ⟨⟨0x20000, 0⟩, ⟨0x20010, 0⟩⟩] := by
  have hsize : getVshSize shell = 0x200 := by decide +kernel
  have hword : readWord shell 0x10114 = 0x480000ed := by decide +kernel
  have hcall : Branches shell 0x10114 0x10200 true := by
    refine ⟨?_, ?_⟩
    · rw [hword]
      exact ⟨by decide, by decide, by decide⟩
    · rw [hword]
      decide
  have hplaced : AllPlaced 0x10114 0x10200 (getVshSize shell) []
      [⟨⟨0x20000, 0⟩, ⟨0x20010, 0⟩⟩, ⟨⟨0x30000, 0⟩, ⟨0x30010, 0⟩⟩] := by
    rw [hsize]
    refine ⟨⟨by decide, by decide, by decide, ⟨by decide, by decide⟩, ⟨by decide, by decide⟩,
      .inr (by decide), fun _ h => (nomatch h)⟩, ⟨by decide, by decide, by decide,
      ⟨by decide, by decide⟩, ⟨by decide, by decide⟩, .inr (by decide), fun j hj => ?_⟩, trivial⟩
    rw [List.mem_singleton.mp hj]
    decide
  exact (runPatch_stacks (by decide) (by rw [hsize]; decide) (by rw [hsize]; decide) _).1 0x100
    0x10200 firstPlace_shell (by decide) (by decide) hcall hplaced

end GamePatch.VshPatch
