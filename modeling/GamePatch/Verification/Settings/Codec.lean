import GamePatch.Model.Settings

/-! # The bytes of a settings file

A header and a record list survive being written and read back, and a file cut
short anywhere is rejected as a whole. -/

namespace GamePatch.Settings

open Words

/-! ## One word, one header, one record -/

theorem decode_encode_word (order : ByteOrder) (w : UInt32) :
    UInt32.ofNat (order.decode (order.encode 4 w.toNat)) = w := by
  have hw : w.toNat < 256 ^ 4 := by simpa using w.toNat_lt
  rw [order.decode_encode, Nat.mod_eq_of_lt hw, UInt32.ofNat_toNat]

@[simp] theorem length_encodeHeader (order : ByteOrder) (h : PatchStateFileHeader) :
    (encodeHeader order h).length = sizeofHeader := by
  simp [encodeHeader, sizeofHeader]

theorem decodeHeader_encodeHeader (order : ByteOrder) (h : PatchStateFileHeader) :
    decodeHeader order (encodeHeader order h) = h := by
  have hmagic : (encodeHeader order h).take 4 = order.encode 4 h.magic.toNat := by
    simp [encodeHeader, List.append_assoc]
  have hversion : ((encodeHeader order h).drop 4).take 4 = order.encode 4 h.version.toNat := by
    simp [encodeHeader, List.append_assoc]
  have hcount : ((encodeHeader order h).drop 8).take 4 = order.encode 4 h.count.toNat := by
    simp [encodeHeader, List.append_assoc, List.drop_append, List.take_of_length_le]
  simp [decodeHeader, hmagic, hversion, hcount, decode_encode_word]

@[simp] theorem length_encodeState (order : ByteOrder) (s : PatchState) :
    (encodeState order s).length = sizeofPatchState := by
  simp [encodeState, sizeofPatchState]

theorem decodeState_encodeState (order : ByteOrder) (s : PatchState) :
    decodeState order (encodeState order s) = s := by
  have hhash : (encodeState order s).take 4 = order.encode 4 s.hash.toNat := by
    simp [encodeState]
  have henabled : (encodeState order s).getD 4 0 = s.enabled := by
    simp [encodeState]
  rw [decodeState, hhash, henabled, decode_encode_word]

/-! ## Record lists -/

@[simp] theorem length_encodeStates (order : ByteOrder) (states : List PatchState) :
    (encodeStates order states).length = sizeofPatchState * states.length := by
  induction states with
  | nil => rfl
  | cons s states ih =>
      rw [encodeStates, List.flatMap_cons, List.length_append, length_encodeState,
        ← encodeStates, ih, List.length_cons, Nat.mul_succ, Nat.add_comm]

@[simp] theorem length_decodeStates (order : ByteOrder) (n : ℕ) (bs : Bytes) :
    (decodeStates order n bs).length = n := by
  induction n generalizing bs with
  | zero => rfl
  | succ n ih => simp [decodeStates, ih]

theorem decodeStates_encodeStates (order : ByteOrder) (states : List PatchState)
    (rest : Bytes) :
    decodeStates order states.length (encodeStates order states ++ rest) = states := by
  induction states with
  | nil => rfl
  | cons s states ih =>
      have hbytes : encodeStates order (s :: states) ++ rest =
          encodeState order s ++ (encodeStates order states ++ rest) := by
        simp [encodeStates]
      have hlen := length_encodeState order s
      simp only [List.length_cons, decodeStates, hbytes]
      rw [List.take_left' hlen, List.drop_left' hlen, decodeState_encodeState, ih]

/-! ## The reader -/

/-- Every allocation succeeds. -/
def allocates : ℕ → Bool := fun _ => true

/-- The reader never hands out a count that its buffer does not cover. -/
theorem readPatchStatesInternal_count (order : ByteOrder) (malloc : ℕ → Bool)
    (file : Option Bytes) :
    (readPatchStatesInternal order malloc file).2 =
      ((readPatchStatesInternal order malloc file).1.getD []).length := by
  cases file with
  | none => rfl
  | some f =>
      simp only [readPatchStatesInternal]
      split_ifs <;> simp

theorem findState_ne_none (hash : UInt32) (states : List PatchState) :
    findState hash states.length states ≠ none := by
  induction states with
  | nil => simp [findState]
  | cons s states ih =>
      rw [List.length_cons, findState]
      split
      · simp
      · exact ih

/-- The search of the host build stays inside its buffer. -/
theorem readPatchState_ne_none (order : ByteOrder) (malloc : ℕ → Bool) (file : Option Bytes)
    (hash : UInt32) : readPatchState order malloc file hash ≠ none := by
  simp only [readPatchState, searchStates, readPatchStatesInternal_count]
  split
  · simp
  · exact findState_ne_none hash _

/-- What the file says, as the reader understands it. -/
def records (order : ByteOrder) (file : Option Bytes) : List PatchState :=
  (readPatchStatesInternal order allocates file).1.getD []

/-- The bytes of a file that lists `states`. -/
def contents (order : ByteOrder) (states : List PatchState) : Bytes :=
  encodeHeader order ⟨patchStateMagic, patchStateVersion, UInt32.ofNat states.length⟩ ++
    encodeStates order states

theorem length_contents (order : ByteOrder) (states : List PatchState) :
    (contents order states).length = sizeofHeader + sizeofPatchState * states.length := by
  simp [contents]

theorem readPatchStatesInternal_contents (order : ByteOrder) (states : List PatchState)
    (hne : states ≠ []) (hlt : states.length < 2 ^ 32) :
    readPatchStatesInternal order allocates (some (contents order states)) =
      (some states, states.length) := by
  have hcount : (UInt32.ofNat states.length).toNat = states.length :=
    UInt32.toNat_ofNat_of_lt' (by simpa [UInt32.size] using hlt)
  have hpos : states.length ≠ 0 := by simpa using hne
  have htake : (contents order states).take sizeofHeader =
      encodeHeader order ⟨patchStateMagic, patchStateVersion, UInt32.ofNat states.length⟩ :=
    List.take_left' (length_encodeHeader ..)
  have hdrop : (contents order states).drop sizeofHeader = encodeStates order states :=
    List.drop_left' (length_encodeHeader ..)
  have hdecode := decodeStates_encodeStates order states []
  rw [List.append_nil] at hdecode
  simp [readPatchStatesInternal, length_contents, htake, hdrop, decodeHeader_encodeHeader,
    hcount, allocates, hdecode, hne]

/-- A file that stops before its last record holds nothing for the reader. A
record count of `2 ^ 32` wraps to zero in the header and is read as no record. -/
theorem readPatchStatesInternal_take (order : ByteOrder) (malloc : ℕ → Bool)
    (states : List PatchState) (k : ℕ) (hle : states.length ≤ 2 ^ 32)
    (hk : k < (contents order states).length) :
    readPatchStatesInternal order malloc (some ((contents order states).take k)) =
      (none, 0) := by
  have hcount : (UInt32.ofNat states.length).toNat = 0 ∨
      (UInt32.ofNat states.length).toNat = states.length := by
    rw [UInt32.toNat_ofNat']
    omega
  rw [length_contents] at hk
  have hlen : ((contents order states).take k).length = k := by
    rw [List.length_take, length_contents]
    omega
  by_cases hheader : k < sizeofHeader
  · simp [readPatchStatesInternal, hlen, hheader]
  · have htake : ((contents order states).take k).take sizeofHeader =
        encodeHeader order ⟨patchStateMagic, patchStateVersion, UInt32.ofNat states.length⟩ := by
      rw [List.take_take, Nat.min_eq_left (Nat.le_of_not_lt hheader)]
      exact List.take_left' (length_encodeHeader ..)
    have hshort : k - sizeofHeader < sizeofPatchState * states.length := by omega
    rcases hcount with hcount | hcount <;>
      simp [readPatchStatesInternal, hlen, hheader, htake, decodeHeader_encodeHeader, hcount,
        hshort]

theorem length_readPatchStatesInternal_lt (order : ByteOrder) (malloc : ℕ → Bool)
    (file : Option Bytes) :
    ((readPatchStatesInternal order malloc file).1.getD []).length < 2 ^ 32 := by
  cases file with
  | none => simp [readPatchStatesInternal]
  | some f =>
      have hlt := UInt32.toNat_lt (decodeHeader order (f.take sizeofHeader)).count
      simp only [readPatchStatesInternal]
      split_ifs <;> simp [hlt]

end GamePatch.Settings
