import GamePatch.Verification.Settings.Console

/-! # The records that a lookup examines

The console reader leaves the count of the header in place when its allocation fails,
and asks for a number of bytes that wraps. The search then runs behind the records
that were read. -/

namespace GamePatch.Settings

open Words

/-! ## The search loop -/

/-- The indices at which the search looks, from `i` on. Behind the records that were
read it looks once: what it does next depends on bytes that nobody wrote. -/
def examined (hash : UInt32) : ℕ → ℕ → List PatchState → List ℕ
  | _, 0, _ => []
  | i, _ + 1, [] => [i]
  | i, n + 1, s :: rest => i :: if s.hash = hash then [] else examined hash (i + 1) n rest

/-- The indices at which `read_patch_state` of the console build looks. -/
def examinedPrx (order : ByteOrder) (malloc : ℕ → Bool) (stale : Bytes) (file : Option Bytes)
    (hash : UInt32) : List ℕ :=
  let (states, count) := readPatchStatesInternalPrx order malloc stale file
  if states = none ∧ count = 0 then [] else examined hash 0 count (states.getD [])

/-- The search stays inside when it has no more rounds than records, or finds the hash. -/
theorem examined_lt_iff (hash : UInt32) (states : List PatchState) (n : ℕ) :
    ∀ i, (∀ j ∈ examined hash i n states, j < i + states.length) ↔
      n ≤ states.length ∨ ∃ s ∈ states, s.hash = hash := by
  induction n generalizing states with
  | zero => simp [examined]
  | succ n ih =>
      intro i
      cases states with
      | nil => simp [examined]
      | cons s rest =>
          by_cases hs : s.hash = hash
          · simp [examined, hs]
          · have hrest := ih rest (i + 1)
            have hfirst : i < i + (rest.length + 1) := by omega
            rw [examined, if_neg hs, List.forall_mem_cons, List.length_cons,
              and_iff_right hfirst, ← Nat.add_assoc, Nat.add_right_comm, hrest]
            simp [hs]

/-- The model of the loop fails where it looks behind the records. -/
theorem findState_ne_none_iff (hash : UInt32) (states : List PatchState) (n : ℕ) :
    findState hash n states ≠ none ↔ n ≤ states.length ∨ ∃ s ∈ states, s.hash = hash := by
  induction n generalizing states with
  | zero => simp [findState]
  | succ n ih =>
      cases states with
      | nil => simp [findState]
      | cons s rest =>
          by_cases hs : s.hash = hash
          · simp [findState, hs]
          · rw [findState, if_neg hs, ih rest]
            simp [hs]

/-- A lookup has an answer exactly when it looks at no index behind the records. -/
theorem readPatchStatePrx_ne_none_iff (order : ByteOrder) (malloc : ℕ → Bool) (stale : Bytes)
    (file : Option Bytes) (hash : UInt32) :
    readPatchStatePrx order malloc stale file hash ≠ none ↔
      ∀ i ∈ examinedPrx order malloc stale file hash,
        i < ((readPatchStatesInternalPrx order malloc stale file).1.getD []).length := by
  have hloop := examined_lt_iff hash
    ((readPatchStatesInternalPrx order malloc stale file).1.getD [])
    (readPatchStatesInternalPrx order malloc stale file).2 0
  rw [Nat.zero_add] at hloop
  simp only [readPatchStatePrx, searchStates, examinedPrx]
  split
  · simp
  · rw [findState_ne_none_iff, hloop]

/-! ## The reader -/

theorem getElem?_decodeStates (order : ByteOrder) (n : ℕ) (bs : Bytes) (i : ℕ) (hi : i < n) :
    (decodeStates order n bs)[i]? =
      some (decodeState order ((bs.drop (sizeofPatchState * i)).take sizeofPatchState)) := by
  induction n generalizing bs i with
  | zero => exact absurd hi (Nat.not_lt_zero i)
  | succ n ih =>
      cases i with
      | zero => rfl
      | succ i =>
          rw [decodeStates, List.getElem?_cons_succ, ih _ i (Nat.lt_of_succ_lt_succ hi),
            List.drop_drop, Nat.mul_succ, Nat.add_comm]

/-- The header is that of a settings file with records. -/
def HasRecords (order : ByteOrder) (f : Bytes) : Prop :=
  let header := decodeHeader order (f.take sizeofHeader)
  header.magic = patchStateMagic ∧ header.version = patchStateVersion ∧ header.count.toNat ≠ 0

instance (order : ByteOrder) (f : Bytes) : Decidable (HasRecords order f) :=
  inferInstanceAs (Decidable (_ ∧ _ ∧ _))

/-- The count that the header states. -/
def statedCount (order : ByteOrder) (f : Bytes) : ℕ :=
  (decodeHeader order (f.take sizeofHeader)).count.toNat

/-- The bytes of the stated records, in a `size_t` of 32 bits. -/
def askedBytes (order : ByteOrder) (f : Bytes) : ℕ :=
  sizeofPatchState * statedCount order f % 2 ^ 32

theorem decodeStates_take_le (order : ByteOrder) {n m : ℕ} (h : sizeofPatchState * n ≤ m)
    (bs : Bytes) : decodeStates order n (bs.take m) = decodeStates order n bs := by
  rw [← decodeStates_take order n (bs.take m), List.take_take, Nat.min_eq_left h,
    decodeStates_take]

theorem readPatchStatesInternalPrx_header (order : ByteOrder) (malloc : ℕ → Bool)
    (stale f : Bytes) (hlong : sizeofHeader ≤ f.length) :
    readPatchStatesInternalPrx order malloc stale (some f) =
      if HasRecords order f then
        if malloc (askedBytes order f) then
          if f.length - sizeofHeader < askedBytes order f then (none, 0)
          else
            (some (decodeStates order (askedBytes order f / sizeofPatchState)
              (f.drop sizeofHeader)), statedCount order f)
        else (none, statedCount order f)
      else (none, 0) := by
  have hread : (f.take sizeofHeader).length = sizeofHeader := by simpa using hlong
  have hne : f.length ≠ 0 := by
    simp only [sizeofHeader] at hlong
    omega
  have hne' : sizeofHeader ≠ 0 := by decide
  have htake : ((f.drop sizeofHeader).take (askedBytes order f)).length ≠ askedBytes order f ↔
      f.length - sizeofHeader < askedBytes order f := by
    rw [List.length_take, List.length_drop]
    omega
  have hrecords := decodeStates_take_le order (Nat.mul_div_le (askedBytes order f) sizeofPatchState)
    (f.drop sizeofHeader)
  unfold askedBytes statedCount at htake hrecords ⊢
  simp only [readPatchStatesInternalPrx, hread, hne, hne', if_false,
    decodeHeader_append order (f.take sizeofHeader) _ hread, htake, hrecords]
  by_cases hrec : HasRecords order f
  · rw [if_pos hrec, if_pos ⟨hrec.1, hrec.2.1⟩, if_neg hrec.2.2]
  · rw [if_neg hrec]
    split
    · next hvalid => rw [if_pos (not_not.1 fun hzero => hrec ⟨hvalid.1, hvalid.2, hzero⟩)]
    · rfl

/-! ## What was read -/

/-- Record `i` lies in a buffer, and its bytes are those of record `i` of the file. -/
def RecordRead (order : ByteOrder) (f : Bytes) (states : Option (List PatchState)) (i : ℕ) :
    Prop :=
  ∃ buffer, states = some buffer ∧ sizeofHeader + sizeofPatchState * (i + 1) ≤ f.length ∧
    buffer[i]? = some (decodeState order
      ((f.drop (sizeofHeader + sizeofPatchState * i)).take sizeofPatchState))

/-- Every record that a lookup examines was read from the file. -/
def ExaminesReadRecords (order : ByteOrder) (malloc : ℕ → Bool) (stale f : Bytes)
    (hash : UInt32) : Prop :=
  ∀ i ∈ examinedPrx order malloc stale (some f) hash,
    RecordRead order f (readPatchStatesInternalPrx order malloc stale (some f)).1 i

/-- The buffer is allocated, and it is not filled at all, holds all stated records, or
holds the hash among the records it has room for. -/
def RecordsFit (order : ByteOrder) (malloc : ℕ → Bool) (f : Bytes) (hash : UInt32) : Prop :=
  malloc (askedBytes order f) = true ∧
    (f.length - sizeofHeader < askedBytes order f ∨
      sizeofPatchState * statedCount order f < 2 ^ 32 ∨
      ∃ i, sizeofPatchState * (i + 1) ≤ askedBytes order f ∧
        (decodeState order
          ((f.drop (sizeofHeader + sizeofPatchState * i)).take sizeofPatchState)).hash = hash)

/-- A buffer of `n` records that the file covers holds the first `n` of them. -/
theorem recordRead_decodeStates_iff {order : ByteOrder} {f : Bytes} {n : ℕ}
    (hlong : sizeofHeader + sizeofPatchState * n ≤ f.length) (i : ℕ) :
    RecordRead order f (some (decodeStates order n (f.drop sizeofHeader))) i ↔ i < n := by
  constructor
  · rintro ⟨buffer, hbuffer, -, hget⟩
    obtain rfl := Option.some.inj hbuffer
    have hlt := (List.getElem?_eq_some_iff.1 hget).1
    rwa [length_decodeStates] at hlt
  · intro hi
    refine ⟨_, rfl, ?_, ?_⟩
    · exact (Nat.add_le_add_left (Nat.mul_le_mul_left _ hi) _).trans hlong
    · rw [getElem?_decodeStates order n _ i hi, List.drop_drop]

/-- A wrapped byte count has no room for all stated records. -/
theorem statedCount_le_iff (order : ByteOrder) (f : Bytes) :
    statedCount order f ≤ askedBytes order f / sizeofPatchState ↔
      sizeofPatchState * statedCount order f < 2 ^ 32 := by
  rw [askedBytes, Nat.le_div_iff_mul_le (by decide), Nat.mul_comm]
  constructor
  · intro hle
    exact hle.trans_lt (Nat.mod_lt _ (by decide))
  · intro hlt
    exact (Nat.mod_eq_of_lt hlt).ge

/-- The lookup examines only records that it has read exactly when the header states
none or the buffer fits. -/
theorem examinesReadRecords_iff (order : ByteOrder) (malloc : ℕ → Bool) (stale f : Bytes)
    (hash : UInt32) (hlong : sizeofHeader ≤ f.length) :
    ExaminesReadRecords order malloc stale f hash ↔
      (HasRecords order f → RecordsFit order malloc f hash) := by
  have hreader := readPatchStatesInternalPrx_header order malloc stale f hlong
  rw [ExaminesReadRecords, examinedPrx, hreader]
  by_cases hrec : HasRecords order f
  swap
  · simp [hrec]
  rw [if_pos hrec, RecordsFit, imp_iff_right hrec]
  by_cases hmalloc : malloc (askedBytes order f) = true
  swap
  · -- A null buffer with a count: the first index already is one too many.
    rcases Nat.exists_eq_succ_of_ne_zero (show statedCount order f ≠ 0 from hrec.2.2) with ⟨n, hn⟩
    simp [hmalloc, hn, examined, RecordRead]
  rw [if_pos hmalloc, and_iff_right hmalloc]
  by_cases hshort : f.length - sizeofHeader < askedBytes order f
  · simp [hshort]
  rw [if_neg hshort, or_iff_right hshort]
  have hcover : sizeofHeader + sizeofPatchState * (askedBytes order f / sizeofPatchState) ≤
      f.length := by
    have hle := Nat.mul_div_le (askedBytes order f) sizeofPatchState
    omega
  have hloop := examined_lt_iff hash (decodeStates order (askedBytes order f / sizeofPatchState)
    (f.drop sizeofHeader)) (statedCount order f) 0
  rw [length_decodeStates, Nat.zero_add, statedCount_le_iff] at hloop
  simp only [recordRead_decodeStates_iff hcover, Option.getD_some, reduceCtorEq, false_and,
    if_false, hloop]
  refine or_congr_right ?_
  constructor
  · rintro ⟨s, hs, hhash⟩
    rcases List.mem_iff_getElem?.1 hs with ⟨i, hi⟩
    have hlt := (List.getElem?_eq_some_iff.1 hi).1
    rw [length_decodeStates] at hlt
    rw [getElem?_decodeStates order _ _ i hlt, List.drop_drop] at hi
    refine ⟨i, (Nat.mul_le_mul_left _ hlt).trans (Nat.mul_div_le _ _), ?_⟩
    rw [Option.some.inj hi, hhash]
  · rintro ⟨i, hi, hhash⟩
    have hlt : i < askedBytes order f / sizeofPatchState := by
      rw [Nat.lt_div_iff_mul_lt (by decide)]
      simp only [sizeofPatchState] at hi ⊢
      omega
    have hget := getElem?_decodeStates order _ (f.drop sizeofHeader) i hlt
    rw [List.drop_drop] at hget
    exact ⟨_, List.mem_of_getElem? hget, hhash⟩

/-- Two records, the second of them wanted. -/
theorem examinesReadRecords_iff_two :
    let f := contents .big [⟨7, 1⟩, ⟨9, 0⟩]
    ExaminesReadRecords .big allocates [] f 9 ↔
      (HasRecords .big f → RecordsFit .big allocates f 9) :=
  examinesReadRecords_iff .big allocates [] _ 9 (by decide)

/-- A header that states `2 ^ 32 / 5` records and one more, over four bytes. -/
def wrappedFile : Bytes :=
  encodeHeader .big ⟨patchStateMagic, patchStateVersion, 0x33333334⟩ ++ [0, 0, 0, 7]

/-- The buffer has four bytes, and the first record examined has five. -/
theorem not_examinesReadRecords : ¬ ExaminesReadRecords .big allocates [] wrappedFile 7 := by
  intro h
  rcases h 0 (by decide) with ⟨buffer, -, hlength, -⟩
  revert hlength
  decide

end GamePatch.Settings
