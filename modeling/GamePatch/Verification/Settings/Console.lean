import GamePatch.Verification.Settings.Codec

/-! # The console reader

The console build decodes the settings file with nested conditions, an
uninitialised header and a byte count that wraps. It still agrees with the host
reader: a file too short for a header has no bytes left for a record either. -/

namespace GamePatch.Settings

open Words

/-- Only the first twelve bytes of the header variable matter. -/
theorem decodeHeader_append (order : ByteOrder) (bs rest : Bytes)
    (hlen : bs.length = sizeofHeader) :
    decodeHeader order (bs ++ rest) = decodeHeader order bs := by
  have hlen' : bs.length = 12 := hlen
  have hmagic : (bs ++ rest).take 4 = bs.take 4 :=
    List.take_append_of_le_length (by omega)
  have hversion : ((bs ++ rest).drop 4).take 4 = (bs.drop 4).take 4 := by
    rw [List.drop_append_of_le_length (by omega), List.take_append_of_le_length (by simp; omega)]
  have hcount : ((bs ++ rest).drop 8).take 4 = (bs.drop 8).take 4 := by
    rw [List.drop_append_of_le_length (by omega), List.take_append_of_le_length (by simp; omega)]
  simp only [decodeHeader, hmagic, hversion, hcount]

/-- A wrapped byte count is zero only for a count of zero, since five is odd. -/
theorem nbytes_ne_zero (count : ℕ) (hlt : count < 2 ^ 32) (h : count ≠ 0) :
    sizeofPatchState * count % 2 ^ 32 ≠ 0 := by
  intro hzero
  have hdvd : 2 ^ 32 ∣ sizeofPatchState * count := Nat.dvd_of_mod_eq_zero hzero
  have hcoprime : Nat.Coprime (2 ^ 32) sizeofPatchState := by decide
  have hle := Nat.le_of_dvd (Nat.pos_of_ne_zero h) (hcoprime.dvd_of_dvd_mul_left hdvd)
  omega

theorem decodeStates_take (order : ByteOrder) (n : ℕ) (bs : Bytes) :
    decodeStates order n (bs.take (sizeofPatchState * n)) = decodeStates order n bs := by
  induction n generalizing bs with
  | zero => rfl
  | succ n ih =>
      have hmin : min sizeofPatchState (sizeofPatchState * (n + 1)) = sizeofPatchState :=
        Nat.min_eq_left (Nat.le_mul_of_pos_right _ (Nat.succ_pos n))
      have hrest : sizeofPatchState * (n + 1) - sizeofPatchState = sizeofPatchState * n := by
        rw [Nat.mul_succ, Nat.add_sub_cancel]
      simp only [decodeStates, List.take_take, hmin, List.drop_take, hrest, ih]

theorem readPatchStatesInternalPrx_short (order : ByteOrder) (stale f : Bytes)
    (hshort : f.length < sizeofHeader) :
    readPatchStatesInternalPrx order allocates stale (some f) = (none, 0) := by
  have hrest : f.drop sizeofHeader = [] := List.drop_of_length_le hshort.le
  simp only [readPatchStatesInternalPrx, hrest, allocates, List.take_nil, List.length_nil]
  split_ifs with hempty hread hmagic hzero hbytes
  · rfl
  · rfl
  · rfl
  · rfl
  · exact absurd (not_ne_iff.mp hbytes).symm (nbytes_ne_zero _ (UInt32.toNat_lt _) hzero)
  · rfl

theorem readPatchStatesInternalPrx_long (order : ByteOrder) (stale f : Bytes)
    (hlong : sizeofHeader ≤ f.length)
    (hcount : sizeofPatchState * (decodeHeader order (f.take sizeofHeader)).count.toNat < 2 ^ 32) :
    readPatchStatesInternalPrx order allocates stale (some f) =
      readPatchStatesInternal order allocates (some f) := by
  have hread : (f.take sizeofHeader).length = sizeofHeader := by simpa using hlong
  have hne : f.length ≠ 0 := by
    simp only [sizeofHeader] at hlong
    omega
  have hne' : sizeofHeader ≠ 0 := by decide
  simp only [readPatchStatesInternalPrx, readPatchStatesInternal, hread, hne, hne', if_false,
    decodeHeader_append order (f.take sizeofHeader) _ hread, Nat.not_lt.mpr hlong,
    Nat.mod_eq_of_lt hcount, allocates]
  generalize decodeHeader order (f.take sizeofHeader) = header
  generalize f.drop sizeofHeader = rest
  by_cases hmagic : header.magic = patchStateMagic
  · by_cases hversion : header.version = patchStateVersion
    · by_cases hzero : header.count.toNat = 0
      · simp [hmagic, hversion, hzero]
      · by_cases hcut : rest.length < sizeofPatchState * header.count.toNat
        · simp [hmagic, hversion, hzero, hcut]
        · have hfull : sizeofPatchState * header.count.toNat ≤ rest.length :=
            Nat.le_of_not_lt hcut
          have hdiv : sizeofPatchState * header.count.toNat / sizeofPatchState =
              header.count.toNat := Nat.mul_div_cancel_left _ (by decide)
          simp [hmagic, hversion, hzero, hcut, hfull, hdiv, decodeStates_take]
    · simp [hmagic, hversion]
  · simp [hmagic]

/-- Both builds read the same records and answer the same for every hash,
whatever the header variable held before. -/
theorem readPatchStatePrx_eq (order : ByteOrder) (stale : Bytes) (file : Option Bytes)
    (hcount : ∀ f, file = some f → sizeofHeader ≤ f.length →
      sizeofPatchState * (decodeHeader order (f.take sizeofHeader)).count.toNat < 2 ^ 32) :
    readPatchStatesInternalPrx order allocates stale file =
        readPatchStatesInternal order allocates file ∧
      ∀ hash, readPatchStatePrx order allocates stale file hash =
        readPatchState order allocates file hash := by
  have hread : readPatchStatesInternalPrx order allocates stale file =
      readPatchStatesInternal order allocates file := by
    cases file with
    | none => rfl
    | some f =>
        rcases Nat.lt_or_ge f.length sizeofHeader with hshort | hlong
        · rw [readPatchStatesInternalPrx_short order stale f hshort]
          simp [readPatchStatesInternal, hshort]
        · exact readPatchStatesInternalPrx_long order stale f hlong (hcount f rfl hlong)
  refine ⟨hread, ?_⟩
  intro hash
  simp only [readPatchStatePrx, readPatchState, hread]

/-- Two records and a stray byte, over a stale count of one. -/
theorem readPatchStatePrx_eq_two :
    let file : Option Bytes := some (contents .big [⟨7, 1⟩, ⟨9, 0⟩] ++ [3])
    let stale : Bytes := [0, 0, 0, 0, 0, 0, 0, 0, 0, 0, 0, 1]
    readPatchStatesInternalPrx .big allocates stale file =
        readPatchStatesInternal .big allocates file ∧
      ∀ hash, readPatchStatePrx .big allocates stale file hash =
        readPatchState .big allocates file hash := by
  apply readPatchStatePrx_eq
  intro f hf _
  obtain rfl := Option.some.inj hf
  decide

end GamePatch.Settings
