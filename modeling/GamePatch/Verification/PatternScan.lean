import GamePatch.Model.PatternScan
import Mathlib.Data.List.Forall2
import Mathlib.Data.Nat.Find

/-! # What the signature scan finds

The chunks do not overlap. At a place where the rest of the chunk agrees with the
beginning of the signature the comparison leaves the buffer, whether the signature
stands there or not. -/

namespace GamePatch.PatternScan

/-! ## Reading -/

theorem readProcessMemory_eq_some_iff {process : ProcessMemory} {size : ℕ} :
    ∀ {address : ℕ} {bytes : List UInt8}, readProcessMemory process address size = some bytes ↔
      bytes.length = size ∧ ∀ i < size, process (address + i) = bytes[i]? := by
  induction size with
  | zero =>
      intro address bytes
      cases bytes <;> simp [readProcessMemory]
  | succ size ih =>
      intro address bytes
      simp only [readProcessMemory, Option.bind_eq_bind, Option.bind_eq_some_iff]
      constructor
      · rintro ⟨byte, hbyte, rest, hrest, heq⟩
        obtain rfl := Option.some.inj heq
        obtain ⟨hlength, hbytes⟩ := ih.mp hrest
        refine ⟨by simp [hlength], fun i hi => ?_⟩
        cases i with
        | zero => simpa using hbyte
        | succ i =>
            rw [List.getElem?_cons_succ, ← hbytes i (by omega)]
            congr 1
            omega
      · rintro ⟨hlength, hbytes⟩
        cases bytes with
        | nil => simp at hlength
        | cons byte rest =>
            refine ⟨byte, by simpa using hbytes 0 (by omega), rest, ih.mpr ⟨?_, ?_⟩, rfl⟩
            · simpa using hlength
            · intro i hi
              have hnext := hbytes (i + 1) (by omega)
              rw [List.getElem?_cons_succ] at hnext
              rw [← hnext]
              congr 1
              omega

/-- A part of what was read could have been read by itself. -/
theorem readProcessMemory_part {process : ProcessMemory} {address size : ℕ} {bytes : List UInt8}
    (h : readProcessMemory process address size = some bytes) {i n : ℕ} (hn : i + n ≤ size) :
    readProcessMemory process (address + i) n = some ((bytes.drop i).take n) := by
  obtain ⟨hlength, hbytes⟩ := readProcessMemory_eq_some_iff.mp h
  refine readProcessMemory_eq_some_iff.mpr ⟨?_, ?_⟩
  · rw [List.length_take, List.length_drop]
    omega
  · intro j hj
    rw [List.getElem?_take_of_lt hj, List.getElem?_drop, Nat.add_assoc]
    exact hbytes (i + j) (by omega)

/-! ## Matching -/

/-- A byte of the signature stands for itself, `0xff` for any byte. -/
def ByteMatches (byte pattern : UInt8) : Prop := byte = pattern ∨ pattern = 0xff

/-- The memory at an address matches the signature byte for byte. -/
def MatchesAt (process : ProcessMemory) (signature : List UInt8) (address : ℕ) : Prop :=
  ∃ bytes, readProcessMemory process address signature.length = some bytes ∧
    List.Forall₂ ByteMatches bytes signature

/-- Bytes and signature match as far as both go. -/
def Agrees (bytes signature : List UInt8) : Prop :=
  List.Forall₂ ByteMatches (bytes.take signature.length) (signature.take bytes.length)

theorem agrees_nil_left (signature : List UInt8) : Agrees [] signature := by
  simp [Agrees]

theorem agrees_nil_right (bytes : List UInt8) : Agrees bytes [] := by
  simp [Agrees]

theorem agrees_cons {byte pattern : UInt8} {bytes signature : List UInt8} :
    Agrees (byte :: bytes) (pattern :: signature) ↔
      ByteMatches byte pattern ∧ Agrees bytes signature := by
  simp [Agrees]

/-- The three ways in which the comparisons at a place end. -/
theorem compareAt_spec (scanBytes : List UInt8) (i : ℕ) (pattern : List UInt8) :
    ∀ j, (¬ Agrees (scanBytes.drop (i + j)) pattern →
        compareAt scanBytes i j pattern = some false) ∧
      (Agrees (scanBytes.drop (i + j)) pattern →
        compareAt scanBytes i j pattern =
          if pattern.length ≤ scanBytes.length - (i + j) then some true else none) := by
  induction pattern with
  | nil =>
      intro j
      exact ⟨fun h => absurd (agrees_nil_right _) h, fun _ => by simp [compareAt]⟩
  | cons p pattern ih =>
      intro j
      cases hbyte : scanBytes[i + j]? with
      | none =>
          have hend : scanBytes.length ≤ i + j := List.getElem?_eq_none_iff.mp hbyte
          rw [List.drop_of_length_le hend]
          refine ⟨fun h => absurd (agrees_nil_left _) h, fun _ => ?_⟩
          rw [if_neg (by simp only [List.length_cons]; omega), compareAt, hbyte]
      | some byte =>
          obtain ⟨hlt, hget⟩ := List.getElem?_eq_some_iff.mp hbyte
          have hstep : compareAt scanBytes i j (p :: pattern) =
              if byte ≠ p ∧ p ≠ 0xff then some false
              else compareAt scanBytes i (j + 1) pattern := by
            rw [compareAt, hbyte]
          have hroom : pattern.length + 1 ≤ scanBytes.length - (i + j) ↔
              pattern.length ≤ scanBytes.length - (i + j + 1) := by omega
          obtain ⟨hdiffer, hagree⟩ := ih (j + 1)
          rw [← Nat.add_assoc] at hdiffer hagree
          rw [List.drop_eq_getElem_cons hlt, hget, agrees_cons, List.length_cons,
            if_congr hroom rfl rfl]
          by_cases hmatch : ByteMatches byte p
          · have hgoes : ¬ (byte ≠ p ∧ p ≠ 0xff) := by
              rintro ⟨hne, hff⟩
              exact hmatch.elim hne hff
            rw [and_iff_right hmatch, hstep, if_neg hgoes]
            exact ⟨hdiffer, hagree⟩
          · have hstops : byte ≠ p ∧ p ≠ 0xff :=
              ⟨fun heq => hmatch (.inl heq), fun hff => hmatch (.inr hff)⟩
            rw [hstep, if_pos hstops]
            exact ⟨fun _ => rfl, fun h => absurd h.1 hmatch⟩

/-! ## One chunk -/

/-- The search in a chunk ends at the first place that agrees as far as the chunk goes. -/
theorem scanChunk_spec (bytes signature : List UInt8) (n : ℕ) :
    ∀ i, (∃ q, i ≤ q ∧ q < i + n ∧ Agrees (bytes.drop q) signature ∧
        (∀ r, i ≤ r → r < q → ¬ Agrees (bytes.drop r) signature) ∧
        scanChunk bytes signature n i =
          if signature.length ≤ bytes.length - q then some (some q) else none) ∨
      ((∀ r, i ≤ r → r < i + n → ¬ Agrees (bytes.drop r) signature) ∧
        scanChunk bytes signature n i = some none) := by
  induction n with
  | zero =>
      intro i
      exact .inr ⟨fun r hlo hhi => absurd hhi (by omega), rfl⟩
  | succ n ih =>
      intro i
      obtain ⟨hdiffer, hagree⟩ := compareAt_spec bytes i signature 0
      by_cases hfirst : Agrees (bytes.drop i) signature
      · refine .inl ⟨i, Nat.le_refl i, by omega, hfirst, fun r hlo hhi => absurd hhi (by omega), ?_⟩
        rw [scanChunk, hagree hfirst, Nat.add_zero]
        split <;> rfl
      · have hrest : scanChunk bytes signature (n + 1) i =
            scanChunk bytes signature n (i + 1) := by
          rw [scanChunk, hdiffer hfirst]
          rfl
        have hbelow : ∀ r, i ≤ r → ¬ i + 1 ≤ r → ¬ Agrees (bytes.drop r) signature := by
          intro r hlo hhi
          obtain rfl : r = i := by omega
          exact hfirst
        rw [hrest]
        rcases ih (i + 1) with ⟨q, hlo, hhi, hq, hbefore, hscan⟩ | ⟨hnone, hscan⟩
        · refine .inl ⟨q, by omega, by omega, hq, fun r hr hrq => ?_, hscan⟩
          by_cases hnext : i + 1 ≤ r
          · exact hbefore r hnext hrq
          · exact hbelow r hr hnext
        · refine .inr ⟨fun r hr hrn => ?_, hscan⟩
          by_cases hnext : i + 1 ≤ r
          · exact hnone r hnext (by omega)
          · exact hbelow r hr hnext

/-! ## The places of a module -/

section Places

variable (process : ProcessMemory) (moduleBase moduleSize : ℕ) (signature : List UInt8)

/-- The address of the chunk `n`. -/
def seekAt (n : ℕ) : ℕ := uintptr (moduleBase + seekSize * n)

/-- The address of the place `p`, counted from the first byte of the first chunk. -/
def placeAddress (p : ℕ) : ℕ := seekAt moduleBase (p / seekSize) + p % seekSize

/-- Place `p` lies in a chunk that the scan comes to and reads: it and the chunks before
start in front of the last address. -/
def Scanned (p : ℕ) : Prop :=
  moduleBase ≠ 0 ∧
    (∀ n ≤ p / seekSize, seekAt moduleBase n < moduleBase + moduleSize - signature.length) ∧
    readProcessMemory process (seekAt moduleBase (p / seekSize)) seekSize ≠ none

/-- From place `p` of a chunk that is read, the signature matches as far as the chunk
goes. -/
def AgreesAt (p : ℕ) : Prop :=
  Scanned process moduleBase moduleSize signature p ∧
    MatchesAt process (signature.take (seekSize - p % seekSize)) (placeAddress moduleBase p)

/-- One of the chunks starts at or behind the last address, unless none is to be read. -/
def LoopEnds : Prop :=
  moduleBase = 0 ∨
    moduleBase + moduleSize - signature.length ≤ 0xffffff00 + moduleBase % seekSize

instance : Decidable (LoopEnds moduleBase moduleSize signature) :=
  inferInstanceAs (Decidable (_ ∨ _))

/-- From place `p` the signature ends within the chunk. -/
def FitsChunk (p : ℕ) : Prop := p % seekSize + signature.length ≤ seekSize

instance (p : ℕ) : Decidable (FitsChunk signature p) := inferInstanceAs (Decidable (_ ≤ _))

end Places

variable {process : ProcessMemory} {moduleBase moduleSize offset : ℕ} {signature : List UInt8}

theorem seekSize_pos : 0 < seekSize := by decide

theorem matchesAt_take_iff {chunk : List UInt8} {address i : ℕ}
    (hchunk : readProcessMemory process address seekSize = some chunk) (hi : i < seekSize) :
    MatchesAt process (signature.take (seekSize - i)) (address + i) ↔
      Agrees (chunk.drop i) signature := by
  have hlength := (readProcessMemory_eq_some_iff.mp hchunk).1
  have hrest : (chunk.drop i).length = seekSize - i := by rw [List.length_drop, hlength]
  have hread : readProcessMemory process (address + i) (signature.take (seekSize - i)).length =
      some ((chunk.drop i).take signature.length) := by
    rw [readProcessMemory_part hchunk (by rw [List.length_take]; omega), List.length_take,
      List.take_eq_take_min (i := signature.length), hrest, Nat.min_comm]
  rw [MatchesAt, Agrees, hread, hrest]
  constructor
  · rintro ⟨bytes, hbytes, hmatch⟩
    rwa [Option.some.inj hbytes]
  · intro hmatch
    exact ⟨_, rfl, hmatch⟩

/-! ## The addresses of the chunks -/

theorem seekAt_zero (h : moduleBase < 0x100000000) : seekAt moduleBase 0 = moduleBase := by
  rw [seekAt, Nat.mul_zero, Nat.add_zero, uintptr, Nat.mod_eq_of_lt h]

theorem seekAt_succ (moduleBase n : ℕ) :
    uintptr (seekAt moduleBase n + seekSize) = seekAt moduleBase (n + 1) := by
  simp only [seekAt, uintptr, seekSize]
  omega

theorem seekAt_mod (moduleBase n : ℕ) :
    seekAt moduleBase (n % seekRounds) = seekAt moduleBase n := by
  simp only [seekAt, uintptr, seekSize, seekRounds]
  omega

theorem placeAddress_chunk (moduleBase : ℕ) {k i : ℕ} (hi : i < seekSize) :
    placeAddress moduleBase (seekSize * k + i) = seekAt moduleBase k + i := by
  rw [placeAddress, Nat.mul_add_mod, Nat.mod_eq_of_lt hi, Nat.mul_add_div seekSize_pos,
    Nat.div_eq_of_lt hi, Nat.add_zero]

/-- The loop ends just if some chunk is not in front of the last address. -/
theorem loopEnds_iff (hbase : moduleBase ≠ 0) (hlt : moduleBase < 0x100000000) :
    LoopEnds moduleBase moduleSize signature ↔
      ∃ n, moduleBase + moduleSize - signature.length ≤ seekAt moduleBase n := by
  rw [LoopEnds, or_iff_right hbase]
  constructor
  · intro hends
    refine ⟨0xffffff - moduleBase / seekSize, Nat.le_trans hends ?_⟩
    simp only [seekAt, uintptr, seekSize]
    omega
  · rintro ⟨n, hn⟩
    refine Nat.le_trans hn ?_
    simp only [seekAt, uintptr, seekSize]
    omega

/-- Where the chunks have room, those in front of the last address are the first ones. -/
theorem seekAt_lt_iff {m : ℕ} (hroom : moduleBase + moduleSize + seekSize ≤ 0x100000000)
    (hsize : signature.length ≤ moduleSize) :
    (∀ n ≤ m, seekAt moduleBase n < moduleBase + moduleSize - signature.length) ↔
      seekSize * m < moduleSize - signature.length := by
  simp only [seekAt, uintptr, seekSize] at hroom ⊢
  constructor
  · intro h
    by_contra hpast
    have hfirst := h ((moduleSize - signature.length + 255) / 256) (by omega)
    omega
  · intro h n hn
    omega

theorem placeAddress_of_room {p : ℕ} (hroom : moduleBase + moduleSize + seekSize ≤ 0x100000000)
    (hplace : seekSize * (p / seekSize) < moduleSize) :
    placeAddress moduleBase p = moduleBase + p := by
  simp only [placeAddress, seekAt, uintptr, seekSize] at hroom hplace ⊢
  omega

/-! ## The loop over the chunks -/

/-- What the places of one chunk have in common. -/
theorem agreesAt_iff_of_chunk {k i : ℕ} (hbase : moduleBase ≠ 0)
    (hrange : ∀ n ≤ k, seekAt moduleBase n < moduleBase + moduleSize - signature.length)
    {chunk : List UInt8}
    (hchunk : readProcessMemory process (seekAt moduleBase k) seekSize = some chunk)
    (hi : i < seekSize) :
    AgreesAt process moduleBase moduleSize signature (seekSize * k + i) ↔
      Agrees (chunk.drop i) signature := by
  have hdiv : (seekSize * k + i) / seekSize = k := by
    rw [Nat.mul_add_div seekSize_pos, Nat.div_eq_of_lt hi, Nat.add_zero]
  have hmod : (seekSize * k + i) % seekSize = i := by
    rw [Nat.mul_add_mod, Nat.mod_eq_of_lt hi]
  have hscanned : Scanned process moduleBase moduleSize signature (seekSize * k + i) := by
    rw [Scanned, hdiv, hchunk]
    exact ⟨hbase, hrange, by simp⟩
  rw [AgreesAt, and_iff_right hscanned, hmod, placeAddress_chunk moduleBase hi,
    matchesAt_take_iff hchunk hi]

/-- The chunks come round again, and with them the places that agree. -/
theorem agreesAt_round {q : ℕ} (h : AgreesAt process moduleBase moduleSize signature q) :
    AgreesAt process moduleBase moduleSize signature (q % (seekSize * seekRounds)) := by
  have hdiv : q % (seekSize * seekRounds) / seekSize = q / seekSize % seekRounds :=
    Nat.mod_mul_right_div_self q seekSize seekRounds
  have hmod : q % (seekSize * seekRounds) % seekSize = q % seekSize :=
    Nat.mod_mul_right_mod q seekSize seekRounds
  rcases h with ⟨⟨hbase, hrange, hread⟩, hmatch⟩
  refine ⟨⟨hbase, fun n hn => hrange n ?_, ?_⟩, ?_⟩
  · rw [hdiv] at hn
    exact Nat.le_trans hn (Nat.mod_le _ _)
  · rwa [hdiv, seekAt_mod]
  · rwa [placeAddress, hdiv, hmod, seekAt_mod, ← placeAddress]

/-- How a scan ends: at the first place that agrees as far as its chunk goes, or, without
one, at the end of the module if there is an end. -/
def ScanEnds (process : ProcessMemory) (moduleBase moduleSize : ℕ) (signature : List UInt8)
    (offset : ℕ) (result : Option ℕ) : Prop :=
  (∃ p, AgreesAt process moduleBase moduleSize signature p ∧
    (∀ q < p, ¬ AgreesAt process moduleBase moduleSize signature q) ∧
    result = if FitsChunk signature p then some (uintptr (placeAddress moduleBase p + offset))
      else none) ∨
  ((∀ q, ¬ AgreesAt process moduleBase moduleSize signature q) ∧
    result = if LoopEnds moduleBase moduleSize signature then some 0 else none)

/-- The loop ends at a chunk that is not in front of the last address. -/
theorem scanEnds_behind {k : ℕ} (hbase : moduleBase ≠ 0) (hlt : moduleBase < 0x100000000)
    (hbehind : moduleBase + moduleSize - signature.length ≤ seekAt moduleBase k)
    (hbefore : ∀ q < seekSize * k, ¬ AgreesAt process moduleBase moduleSize signature q) :
    ScanEnds process moduleBase moduleSize signature offset (some 0) := by
  have hends : LoopEnds moduleBase moduleSize signature :=
    (loopEnds_iff hbase hlt).mpr ⟨k, hbehind⟩
  refine .inr ⟨fun q hq => ?_, (if_pos hends).symm⟩
  by_cases hlow : q < seekSize * k
  · exact hbefore q hlow hq
  · refine Nat.not_lt_of_le hbehind (hq.1.2.1 k ?_)
    rw [Nat.le_div_iff_mul_le seekSize_pos, Nat.mul_comm]
    exact Nat.le_of_not_lt hlow

/-- Once every chunk has been looked at, the same ones follow for ever. -/
theorem scanEnds_round (hbase : moduleBase ≠ 0) (hlt : moduleBase < 0x100000000)
    (hrange : ∀ n < seekRounds,
      seekAt moduleBase n < moduleBase + moduleSize - signature.length)
    (hbefore : ∀ q < seekSize * seekRounds,
      ¬ AgreesAt process moduleBase moduleSize signature q) :
    ScanEnds process moduleBase moduleSize signature offset none := by
  have hall : ¬ LoopEnds moduleBase moduleSize signature := by
    rw [loopEnds_iff hbase hlt]
    rintro ⟨n, hn⟩
    have hinside := hrange (n % seekRounds) (Nat.mod_lt _ (by decide))
    rw [seekAt_mod] at hinside
    omega
  refine .inr ⟨fun q hq => ?_, (if_neg hall).symm⟩
  exact hbefore _ (Nat.mod_lt _ (by decide)) (agreesAt_round hq)

theorem forall_lt_chunk {P : ℕ → Prop} {k n : ℕ} (hbefore : ∀ q < seekSize * k, P q)
    (hchunk : ∀ i < n, P (seekSize * k + i)) : ∀ q < seekSize * k + n, P q := by
  intro q hq
  by_cases hlow : q < seekSize * k
  · exact hbefore q hlow
  · obtain ⟨i, rfl⟩ := Nat.exists_eq_add_of_le (Nat.le_of_not_lt hlow)
    exact hchunk i (by omega)

theorem seekLoop_ends (hbase : moduleBase ≠ 0) (hlt : moduleBase < 0x100000000) (rounds : ℕ) :
    ∀ k, rounds + k = seekRounds →
      (∀ n < k, seekAt moduleBase n < moduleBase + moduleSize - signature.length) →
      (∀ q < seekSize * k, ¬ AgreesAt process moduleBase moduleSize signature q) →
      ScanEnds process moduleBase moduleSize signature offset
        (seekLoop process signature offset (moduleBase + moduleSize - signature.length) rounds
          (seekAt moduleBase k)) := by
  induction rounds with
  | zero =>
      intro k hk hrange hbefore
      rw [Nat.zero_add] at hk
      subst hk
      exact scanEnds_round hbase hlt hrange hbefore
  | succ rounds ih =>
      intro k hk hrange hbefore
      rw [seekLoop]
      by_cases hin : seekAt moduleBase k < moduleBase + moduleSize - signature.length
      swap
      · rw [if_neg hin]
        exact scanEnds_behind hbase hlt (Nat.le_of_not_lt hin) hbefore
      have hrange' : ∀ n ≤ k, seekAt moduleBase n < moduleBase + moduleSize - signature.length := by
        intro n hn
        rcases Nat.lt_or_eq_of_le hn with hn | rfl
        · exact hrange n hn
        · exact hin
      have hnext (hnone : ∀ i < seekSize,
            ¬ AgreesAt process moduleBase moduleSize signature (seekSize * k + i)) :
          ScanEnds process moduleBase moduleSize signature offset
            (seekLoop process signature offset (moduleBase + moduleSize - signature.length)
              rounds (seekAt moduleBase (k + 1))) :=
        ih (k + 1) (by omega) (fun n hn => hrange' n (Nat.le_of_lt_succ hn))
          (forall_lt_chunk hbefore hnone)
      rw [if_pos hin, seekAt_succ]
      cases hchunk : readProcessMemory process (seekAt moduleBase k) seekSize with
      | none =>
          refine hnext fun i hi hagrees => hagrees.1.2.2 ?_
          rw [Nat.mul_add_div seekSize_pos, Nat.div_eq_of_lt hi, Nat.add_zero, hchunk]
      | some chunk =>
          have hlength := (readProcessMemory_eq_some_iff.mp hchunk).1
          have hplaces {i : ℕ} (hi : i < seekSize) :=
            agreesAt_iff_of_chunk hbase hrange' hchunk hi
          rcases scanChunk_spec chunk signature seekSize 0 with
            ⟨i, -, hi, hfound, hearlier, hscan⟩ | ⟨hnone, hscan⟩
          · rw [Nat.zero_add] at hi
            have hfirst : ∀ q < seekSize * k + i,
                ¬ AgreesAt process moduleBase moduleSize signature q := by
              refine forall_lt_chunk hbefore fun j hj => ?_
              rw [hplaces (by omega)]
              exact hearlier j (Nat.zero_le _) hj
            refine .inl ⟨seekSize * k + i, (hplaces hi).mpr hfound, hfirst, ?_⟩
            have hfits : FitsChunk signature (seekSize * k + i) ↔
                signature.length ≤ chunk.length - i := by
              rw [FitsChunk, Nat.mul_add_mod, Nat.mod_eq_of_lt hi, hlength]
              omega
            dsimp only
            rw [hscan, if_congr hfits.symm rfl rfl, placeAddress_chunk moduleBase hi]
            split <;> rfl
          · have hpass := hnext fun i hi => by
              rw [hplaces hi]
              exact hnone i (Nat.zero_le _) (by omega)
            dsimp only
            rw [hscan]
            exact hpass

/-! ## The whole scan -/

theorem patternScan_ends (process : ProcessMemory) (moduleBase moduleSize offset : ℕ)
    (signature : List UInt8) (hpos : signature ≠ []) (hlong : signature.length ≤ seekSize)
    (hsize : signature.length ≤ moduleSize) (hwrap : moduleBase + moduleSize ≤ 0x100000000) :
    ScanEnds process moduleBase moduleSize signature offset
      (patternScan process moduleBase moduleSize signature offset) := by
  have hlength : 0 < signature.length := List.length_pos_iff.mpr hpos
  rw [patternScan]
  by_cases hbase : moduleBase = 0
  · rw [if_pos (.inl hbase)]
    exact .inr ⟨fun q hagrees => hagrees.1.1 hbase, (if_pos (.inl hbase)).symm⟩
  · rw [if_neg (by omega)]
    have hstop : uint64 (uint64 (moduleBase + moduleSize) + 0x10000000000000000 -
        signature.length) = moduleBase + moduleSize - signature.length := by
      simp only [uint64]
      omega
    have hloop : ScanEnds process moduleBase moduleSize signature offset
        (seekLoop process signature offset (moduleBase + moduleSize - signature.length)
          seekRounds (seekAt moduleBase 0)) :=
      seekLoop_ends hbase (by omega) seekRounds 0 rfl (fun n hn => absurd hn (Nat.not_lt_zero n))
        fun q hq => absurd hq (Nat.not_lt_zero q)
    rw [seekAt_zero (by omega)] at hloop
    dsimp only
    rw [hstop]
    exact hloop

/-- The first address of the module at which the signature matches. -/
structure LeastMatch (process : ProcessMemory) (moduleBase moduleSize : ℕ)
    (signature : List UInt8) (address : ℕ) : Prop where
  base : moduleBase ≤ address
  inside : address ≤ moduleBase + moduleSize - signature.length
  isMatch : MatchesAt process signature address
  least : ∀ a, moduleBase ≤ a → a < address → ¬ MatchesAt process signature a

/-- The signature matches nowhere in the module. -/
def NoMatch (process : ProcessMemory) (moduleBase moduleSize : ℕ) (signature : List UInt8) :
    Prop :=
  ∀ a, moduleBase ≤ a → a ≤ moduleBase + moduleSize - signature.length →
    ¬ MatchesAt process signature a

/-- Every comparison stays inside the chunk buffer, and the result is the first match
plus the offset, or 0 if there is no match. -/
def FindsFirst (process : ProcessMemory) (moduleBase moduleSize : ℕ) (signature : List UInt8)
    (offset : ℕ) : Prop :=
  ∃ result, patternScan process moduleBase moduleSize signature offset = some result ∧
    (∀ a, LeastMatch process moduleBase moduleSize signature a →
      result = uintptr (a + offset)) ∧
    (NoMatch process moduleBase moduleSize signature → result = 0)

/-- The first place that agrees as far as its chunk goes has the whole signature in its
chunk and is the first match; without such a place the loop ends and there is no match. A
result of 0 by wrapping is no match either. -/
structure FirstAgreementMatches (process : ProcessMemory) (moduleBase moduleSize : ℕ)
    (signature : List UInt8) (offset : ℕ) : Prop where
  first : ∀ p, AgreesAt process moduleBase moduleSize signature p →
    (∀ q < p, ¬ AgreesAt process moduleBase moduleSize signature q) →
      FitsChunk signature p ∧
        (LeastMatch process moduleBase moduleSize signature (uintptr (placeAddress moduleBase p)) ∨
          NoMatch process moduleBase moduleSize signature ∧
            uintptr (placeAddress moduleBase p + offset) = 0)
  none : (∀ p, ¬ AgreesAt process moduleBase moduleSize signature p) →
    LoopEnds moduleBase moduleSize signature ∧
      ∀ a, LeastMatch process moduleBase moduleSize signature a → uintptr (a + offset) = 0

theorem leastMatch_or_noMatch (process : ProcessMemory) (moduleBase moduleSize : ℕ)
    (signature : List UInt8) :
    (∃ a, LeastMatch process moduleBase moduleSize signature a) ∨
      NoMatch process moduleBase moduleSize signature := by
  classical
  by_cases hmatch : ∃ a, moduleBase ≤ a ∧ a ≤ moduleBase + moduleSize - signature.length ∧
      MatchesAt process signature a
  · left
    obtain ⟨hbase, hinside, hfound⟩ := Nat.find_spec hmatch
    refine ⟨Nat.find hmatch, hbase, hinside, hfound, fun a ha hlt hearlier => ?_⟩
    exact Nat.find_min hmatch hlt ⟨ha, Nat.le_trans (Nat.le_of_lt hlt) hinside, hearlier⟩
  · right
    intro a hbase hinside hfound
    exact hmatch ⟨a, hbase, hinside, hfound⟩

theorem uintptr_add_eq_iff {a b offset : ℕ} (hb : b < 0x100000000) :
    uintptr (a + offset) = uintptr (b + offset) ↔ uintptr a = b := by
  simp only [uintptr]
  omega

theorem LeastMatch.unique {a b : ℕ} (ha : LeastMatch process moduleBase moduleSize signature a)
    (hb : LeastMatch process moduleBase moduleSize signature b) : a = b := by
  apply Nat.le_antisymm
  · exact Nat.le_of_not_lt fun hlt => ha.least b hb.base hlt hb.isMatch
  · exact Nat.le_of_not_lt fun hlt => hb.least a ha.base hlt ha.isMatch

/-- The scan finds the first match, or that there is none, exactly when the first place
that agrees with the signature as far as its chunk goes is that match. -/
theorem findsFirst_iff (process : ProcessMemory) (moduleBase moduleSize : ℕ)
    (signature : List UInt8) (offset : ℕ) (hpos : signature ≠ [])
    (hlong : signature.length ≤ seekSize) (hsize : signature.length ≤ moduleSize)
    (hwrap : moduleBase + moduleSize ≤ 0x100000000) :
    FindsFirst process moduleBase moduleSize signature offset ↔
      FirstAgreementMatches process moduleBase moduleSize signature offset := by
  have hlength : 0 < signature.length := List.length_pos_iff.mpr hpos
  have hlast : ∀ {a}, LeastMatch process moduleBase moduleSize signature a →
      a < 0x100000000 := by
    intro a ha
    have hinside := ha.inside
    omega
  rcases patternScan_ends process moduleBase moduleSize offset signature hpos hlong hsize hwrap with
    ⟨p, hagrees, hbefore, hresult⟩ | ⟨hnone, hresult⟩
  · constructor
    · rintro ⟨result, hscan, hleast, hnomatch⟩
      rw [hresult] at hscan
      have hfits : FitsChunk signature p := by
        by_contra hfits
        rw [if_neg hfits] at hscan
        cases hscan
      rw [if_pos hfits] at hscan
      obtain rfl := Option.some.inj hscan
      constructor
      · intro q hq hfirst
        -- There is only one first place.
        obtain rfl : q = p := by
          apply Nat.le_antisymm
          · exact Nat.le_of_not_lt fun hlt => hfirst p hlt hagrees
          · exact Nat.le_of_not_lt fun hlt => hbefore q hlt hq
        refine ⟨hfits, ?_⟩
        rcases leastMatch_or_noMatch process moduleBase moduleSize signature with
          ⟨a, ha⟩ | hno
        · left
          rwa [(uintptr_add_eq_iff (hlast ha)).mp (hleast a ha)]
        · exact .inr ⟨hno, hnomatch hno⟩
      · intro hno
        exact absurd hagrees (hno p)
    · intro h
      obtain ⟨hfits, hcase⟩ := h.first p hagrees hbefore
      refine ⟨uintptr (placeAddress moduleBase p + offset), by rw [hresult, if_pos hfits], ?_, ?_⟩
      · intro a ha
        rcases hcase with hleast | ⟨hno, -⟩
        · exact (uintptr_add_eq_iff (hlast ha)).mpr (hleast.unique ha)
        · exact absurd ha.isMatch (hno a ha.base ha.inside)
      · intro hno
        rcases hcase with hleast | ⟨-, hzero⟩
        · exact absurd hleast.isMatch (hno _ hleast.base hleast.inside)
        · exact hzero
  · constructor
    · rintro ⟨result, hscan, hleast, -⟩
      rw [hresult] at hscan
      have hends : LoopEnds moduleBase moduleSize signature := by
        by_contra hends
        rw [if_neg hends] at hscan
        cases hscan
      rw [if_pos hends] at hscan
      obtain rfl := Option.some.inj hscan
      exact ⟨fun p hp => absurd hp (hnone p), fun _ => ⟨hends, fun a ha => (hleast a ha).symm⟩⟩
    · intro h
      obtain ⟨hends, hzero⟩ := h.none hnone
      exact ⟨0, by rw [hresult, if_pos hends], fun a ha => (hzero a ha).symm, fun _ => rfl⟩

/-- A module of zeros, but for the bytes 1 and 2 from an address on. -/
def zerosBut (address : ℕ) : ProcessMemory := fun a =>
  if a = address then some 1 else if a = address + 1 then some 2 else some 0

theorem findsFirst_iff_inside :
    FindsFirst (zerosBut 0x10020) 0x10000 0x200 [1, 0xff] 20 ↔
      FirstAgreementMatches (zerosBut 0x10020) 0x10000 0x200 [1, 0xff] 20 :=
  findsFirst_iff _ 0x10000 0x200 [1, 0xff] 20 (by decide) (by decide) (by decide) (by decide)

/-- The signature begins in the last byte of the first chunk. -/
theorem not_findsFirst : ¬ FindsFirst (zerosBut 0x100ff) 0x10000 0x200 [1, 2] 0 := by
  rintro ⟨result, hscan, -⟩
  have houtside : patternScan (zerosBut 0x100ff) 0x10000 0x200 [1, 2] 0 = none := by
    decide +kernel
  rw [houtside] at hscan
  cases hscan

end GamePatch.PatternScan
