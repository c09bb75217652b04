import GamePatch.Model.Notify
import GamePatch.Shared.Runs

/-! # What the player is shown

The messages are numbered in the order in which they are written, and the steps on the
notification file are followed with the number of the message that lies in it. -/

namespace GamePatch

open Runs

/-! ## Messages -/

/-- A message that `notify_thread` would show as it is. -/
def Message (message : CString) : Prop := notificationOf (some message) = some message

theorem not_mem_formatLong (n : ℤ) : '\x00' ∉ formatLong n := by
  have hdigits : '\x00' ∉ Nat.toDigits 10 n.natAbs := by
    intro hmem
    have hdigit := Nat.isDigit_of_mem_toDigits (by decide) (by decide) hmem
    revert hdigit
    decide
  rw [formatLong]
  split
  · rw [List.mem_cons, not_or]
    exact ⟨by decide, hdigits⟩
  · exact hdigits

theorem not_mem_appliedMessage (count : ℕ) : '\x00' ∉ appliedMessage count := by
  have hstart : '\x00' ∉ "Applied ".toList := by decide
  have hmiddle : '\x00' ∉ " patch".toList := by decide
  have hend : '\x00' ∉ (if 1 < count then "es".toList else []) := by
    split <;> decide
  have hcount : '\x00' ∉ formatSize count := not_mem_formatLong _
  exact List.not_mem_append (List.not_mem_append (List.not_mem_append hstart hcount) hmiddle) hend

theorem message_appliedMessage (count : ℕ) : Message ((appliedMessage count).take 63) := by
  have hzero : '\x00' ∉ (appliedMessage count).take 63 :=
    fun hmem => not_mem_appliedMessage count (List.mem_of_mem_take hmem)
  have hlength : ((appliedMessage count).take 63).length ≤ 63 := List.length_take_le _ _
  have hstart : ∃ rest, (appliedMessage count).take 63 = 'A' :: 'p' :: rest := ⟨_, rfl⟩
  rcases hstart with ⟨rest, hrest⟩
  rw [Message, notificationOf, Option.bind_some, if_pos, cstring_of_not_mem hzero,
    List.take_of_length_le]
  · exact hlength.trans (by decide)
  · refine ⟨hlength.trans_lt (by decide), ?_, ?_⟩
    · rw [hrest, List.head?_cons]
      decide
    · rw [hrest]
      simp

theorem message_of_notice {ret : ℤ} {count : ℕ} {message : CString}
    (h : (reportOf ret (⟨count, ()⟩ : RunData Unit)).notice = .write message) :
    Message message := by
  rw [reportOf] at h
  dsimp only at h
  split at h
  · rw [← Notice.write.inj h]
    exact message_appliedMessage count
  · split at h <;> cases h

theorem fileWrite2_of_fits {calls : WriteCalls} {file : Option CString} {message : CString}
    (hsucceed : calls.succeed file = true)
    (hfits : ∀ content ∈ file, content.length ≤ message.length) :
    fileWrite2 calls file message = some message := by
  rw [WriteCalls.succeed, Bool.and_eq_true] at hsucceed
  rw [fileWrite2, if_pos hsucceed.1, if_pos hsucceed.2]
  cases file with
  | none => simp
  | some content => simp [hfits content rfl]

theorem fileWrite2_of_not_succeed {calls : WriteCalls} {file : Option CString}
    (h : calls.succeed file = false) (message : CString) :
    fileWrite2 calls file message = file ∨
      file = none ∧ fileWrite2 calls file message = some [] := by
  rw [fileWrite2]
  by_cases hopens : calls.opens file = true
  · have hwrite : calls.write = false := by simpa [WriteCalls.succeed, hopens] using h
    rw [if_pos hopens, hwrite]
    cases file with
    | none => exact .inr ⟨rfl, rfl⟩
    | some content => exact .inl rfl
  · rw [if_neg hopens]
    exact .inl rfl

/-! ## Following the messages -/

/-- A state with the messages written so far, the number of the one in the file and of
the one that `notify_thread` is about to show, and the numbers of those that it has
shown and of those that it has unlinked. -/
structure NotifyHistory where
  state : NotifyState
  written : List CString
  held : Option ℕ
  reading : Option ℕ
  seen : List ℕ
  unlinked : List ℕ
  deriving DecidableEq, Repr

/-- Before the first game starts there is no file: `make_folders` unlinks it. -/
def NotifyHistory.start : NotifyHistory := ⟨⟨none, none, []⟩, [], none, none, [], []⟩

/-- The history after a step that leads to `state`. -/
def follow (h : NotifyHistory) (step : NotifyStep) (state : NotifyState) : NotifyHistory :=
  match step with
  | .gameStart opened => { h with state := state, held := if opened then none else h.held }
  | .runPatch ret count calls =>
      match (reportOf ret (⟨count, ()⟩ : RunData Unit)).notice with
      | .write message =>
          if calls.succeed h.state.file then
            { h with
              state := state
              written := h.written ++ [message]
              held := some h.written.length }
          else { h with state := state }
      | .delete => { h with state := state, held := none }
      | .keep => { h with state := state }
  | .read => { h with state := state, reading := h.held }
  | .display =>
      { h with
        state := state
        held := none
        seen := h.seen ++ h.reading.toList
        unlinked := h.unlinked ++ h.held.toList }

def followStep (h : NotifyHistory) (step : NotifyStep) : Option NotifyHistory :=
  (notifyStep h.state step).map (follow h step)

/-- Every text shown is a whole message, and only messages that were shown are
unlinked. -/
structure Faithful (h : NotifyHistory) : Prop where
  shown : ∀ text ∈ h.state.shown, text ∈ h.written
  unlinked : ∀ n ∈ h.unlinked, n ∈ h.seen

/-- The message that a step writes, if its calls succeed. -/
def NotifyStep.writes (file : Option CString) : NotifyStep → Option CString
  | .runPatch ret count calls =>
      match (reportOf ret (⟨count, ()⟩ : RunData Unit)).notice with
      | .write message => if calls.succeed file then some message else none
      | _ => none
  | _ => none

/-- A message is written only while `notify_thread` does not wait, and over nothing
that is longer. -/
def Undisturbed (h : NotifyHistory) (step : NotifyStep) : Prop :=
  ∀ message ∈ step.writes h.state.file,
    h.state.waiting = none ∧ ∀ content ∈ h.state.file, content.length ≤ message.length

instance (h : NotifyHistory) (step : NotifyStep) : Decidable (Undisturbed h step) :=
  inferInstanceAs (Decidable (∀ message ∈ _, _ ∧ _))

/-- The numbers do not change what the steps do. -/
theorem state_followStep (h : NotifyHistory) (step : NotifyStep) :
    (followStep h step).map NotifyHistory.state = notifyStep h.state step := by
  have hstate : ∀ state, NotifyHistory.state (follow h step state) = state := by
    intro state
    cases step with
    | runPatch ret count calls =>
        unfold follow
        dsimp only
        split
        · split <;> rfl
        · rfl
        · rfl
    | gameStart | read | display => rfl
  rw [followStep, Option.map_map]
  exact (congrArg (Option.map · _) (funext hstate)).trans Option.map_id'

theorem state_of_run {steps : List NotifyStep} {h h' : NotifyHistory}
    (hrun : steps.foldlM followStep h = some h') :
    steps.foldlM notifyStep h.state = some h'.state := by
  induction steps generalizing h with
  | nil =>
      cases hrun
      rfl
  | cons step steps ih =>
      rcases foldlM_cons_eq_some.1 hrun with ⟨mid, hmid, hrest⟩
      have hstep := state_followStep h step
      rw [hmid] at hstep
      exact foldlM_cons_eq_some.2 ⟨mid.state, hstep.symm, ih hrest⟩

/-- What holds of the history of an undisturbed run. -/
structure Followed (h : NotifyHistory) : Prop where
  messages : ∀ message ∈ h.written, Message message
  held : ∀ n, h.held = some n →
    ∃ message, h.written[n]? = some message ∧ h.state.file = some message
  blank : h.held = none → notificationOf h.state.file = none
  waiting : ∀ text, h.state.waiting = some text →
    text ∈ h.written ∧ (h.held = none ∨ h.held = h.reading)
  faithful : Faithful h

/-- A file that holds no message, whoever has made it so. -/
theorem Followed.blanked {h : NotifyHistory} (hinv : Followed h) {file : Option CString}
    (hfile : notificationOf file = none) :
    Followed { h with state := { h.state with file := file }, held := none } where
  messages := hinv.messages
  held := nofun
  blank := fun _ => hfile
  waiting := fun text htext => ⟨(hinv.waiting text htext).1, .inl rfl⟩
  faithful := ⟨hinv.faithful.shown, hinv.faithful.unlinked⟩

theorem Followed.written {h : NotifyHistory} (hinv : Followed h) {message : CString}
    (hmessage : Message message) (hidle : h.state.waiting = none) :
    Followed { h with
      state := { h.state with file := some message }
      written := h.written ++ [message]
      held := some h.written.length } where
  messages := by
    intro m hm
    rcases List.mem_append.1 hm with hm | hm
    · exact hinv.messages m hm
    · rw [List.mem_singleton.1 hm]
      exact hmessage
  held := by
    intro n hn
    cases hn
    exact ⟨message, List.getElem?_concat_length, rfl⟩
  blank := nofun
  waiting := by
    intro text htext
    rw [hidle] at htext
    cases htext
  faithful :=
    ⟨fun text htext => List.mem_append_left _ (hinv.faithful.shown text htext),
      hinv.faithful.unlinked⟩

/-- A write that fails may leave an empty file where there was none. -/
theorem Followed.failed {h : NotifyHistory} (hinv : Followed h) {calls : WriteCalls}
    (hfail : calls.succeed h.state.file = false) (message : CString) :
    Followed { h with
      state := { h.state with file := fileWrite2 calls h.state.file message } } := by
  rcases fileWrite2_of_not_succeed hfail message with hkeep | ⟨habsent, hempty⟩
  · rw [hkeep]
    exact hinv
  · have hheld : h.held = none := by
      cases hheld : h.held with
      | none => rfl
      | some n =>
          rcases hinv.held n hheld with ⟨m, -, hfile⟩
          rw [habsent] at hfile
          cases hfile
    rw [hempty]
    have hempty : notificationOf (some []) = none := rfl
    have hblanked := hinv.blanked hempty
    rwa [← hheld] at hblanked

theorem Followed.read {h : NotifyHistory} (hinv : Followed h) :
    Followed { h with
      state := { h.state with waiting := notificationOf h.state.file }
      reading := h.held } where
  messages := hinv.messages
  held := hinv.held
  blank := hinv.blank
  waiting := by
    intro text htext
    refine ⟨?_, .inr rfl⟩
    cases hheld : h.held with
    | none =>
        rw [hinv.blank hheld] at htext
        cases htext
    | some n =>
        rcases hinv.held n hheld with ⟨message, hwritten, hfile⟩
        have hmem := List.mem_of_getElem? hwritten
        rw [hfile, hinv.messages message hmem] at htext
        rw [← Option.some.inj htext]
        exact hmem
  faithful := ⟨hinv.faithful.shown, hinv.faithful.unlinked⟩

theorem Followed.display {h : NotifyHistory} (hinv : Followed h) {text : CString}
    (htext : h.state.waiting = some text) :
    Followed { h with
      state := ⟨none, none, h.state.shown ++ [text]⟩
      held := none
      seen := h.seen ++ h.reading.toList
      unlinked := h.unlinked ++ h.held.toList } where
  messages := hinv.messages
  held := nofun
  blank := fun _ => rfl
  waiting := nofun
  faithful := by
    rcases hinv.waiting text htext with ⟨hwritten, hheld⟩
    constructor
    · intro shown hshown
      rcases List.mem_append.1 hshown with hmem | hmem
      · exact hinv.faithful.shown shown hmem
      · rw [List.mem_singleton.1 hmem]
        exact hwritten
    · intro n hn
      rcases List.mem_append.1 hn with hmem | hmem
      · exact List.mem_append_left _ (hinv.faithful.unlinked n hmem)
      · rcases hheld with hnone | hsame
        · rw [hnone] at hmem
          cases hmem
        · rw [← hsame]
          exact List.mem_append_right _ hmem

theorem Followed.step {h h' : NotifyHistory} {step : NotifyStep} (hinv : Followed h)
    (hcond : Undisturbed h step) (hstep : followStep h step = some h') : Followed h' := by
  rcases Option.map_eq_some_iff.1 hstep with ⟨state, hstate, rfl⟩
  cases step with
  | gameStart opened =>
      cases hstate
      cases opened with
      | false => exact hinv
      | true => exact hinv.blanked rfl
  | runPatch ret count calls =>
      simp only [notifyStep, follow] at hstate ⊢
      cases hnotice : (reportOf ret (⟨count, ()⟩ : RunData Unit)).notice with
      | write message =>
          rw [hnotice] at hstate
          cases hstate
          dsimp only
          by_cases hsucceed : calls.succeed h.state.file = true
          · have hwrites : (NotifyStep.runPatch ret count calls).writes h.state.file =
                some message := by
              simp only [NotifyStep.writes, hnotice, hsucceed, if_true]
            rcases hcond message hwrites with ⟨hidle, hfits⟩
            rw [if_pos hsucceed, fileWrite2_of_fits hsucceed hfits]
            exact hinv.written (message_of_notice hnotice) hidle
          · rw [if_neg hsucceed]
            exact hinv.failed (Bool.not_eq_true _ ▸ hsucceed) message
      | delete =>
          rw [hnotice] at hstate
          cases hstate
          exact hinv.blanked rfl
      | keep =>
          rw [hnotice] at hstate
          cases hstate
          exact hinv
  | read =>
      rw [notifyStep] at hstate
      split at hstate
      · cases hstate
        exact hinv.read
      · cases hstate
  | display =>
      rcases Option.map_eq_some_iff.1 hstate with ⟨text, htext, rfl⟩
      exact hinv.display htext

theorem followed_start : Followed .start where
  messages := fun _ h => absurd h List.not_mem_nil
  held := nofun
  blank := fun _ => rfl
  waiting := nofun
  faithful := ⟨fun _ h => absurd h List.not_mem_nil, fun _ h => absurd h List.not_mem_nil⟩

/-- In a run without disturbance, no text is torn and no message is unlinked unseen. -/
theorem faithful_of_run {steps : List NotifyStep} {h : NotifyHistory}
    (hundisturbed : EveryStep followStep Undisturbed .start steps)
    (hrun : steps.foldlM followStep .start = some h) :
    steps.foldlM notifyStep NotifyHistory.start.state = some h.state ∧ Faithful h := by
  have hinv := invariant_of_run (fun _ => Followed)
    (fun _ _ _ _ hinv hcond hstep => hinv.step hcond hstep) [] followed_start hundisturbed hrun
  exact ⟨state_of_run hrun, hinv.faithful⟩

/-- Calls that all succeed. -/
def plainCalls : WriteCalls := ⟨true, true, true⟩

/-- Two games, the second of which starts when the first has been told of. -/
def twoGamesRun : List NotifyStep :=
  [.gameStart true, .runPatch 0 10 plainCalls, .read, .display, .gameStart true, .read,
    .runPatch 0 1 plainCalls, .read, .display]

theorem faithful_twoGamesRun : ∃ h, twoGamesRun.foldlM followStep .start = some h ∧
    h.state.shown = ["Applied 10 patches".toList, "Applied 1 patch".toList] ∧ Faithful h := by
  have hundisturbed : EveryStep followStep Undisturbed .start twoGamesRun := by decide +kernel
  exact ⟨_, rfl, by decide +kernel, (faithful_of_run hundisturbed rfl).2⟩

/-- A message that is written while `notify_thread` waits is unlinked unseen. -/
theorem not_faithful_of_run :
    ∃ h, [NotifyStep.gameStart true, .runPatch 0 2 plainCalls, .read, .gameStart true,
      .runPatch 0 1 plainCalls, .display].foldlM followStep .start = some h ∧ ¬ Faithful h := by
  refine ⟨_, rfl, fun hfaithful => ?_⟩
  exact absurd (hfaithful.unlinked 1) (by decide +kernel)

/-- A shorter message over a longer one is shown with the end of that one. -/
example : ([.gameStart true, .runPatch 0 10 plainCalls, .runPatch 0 1 plainCalls, .read,
    .display] : List NotifyStep).foldlM notifyStep ⟨none, none, []⟩ =
      some ⟨none, none, ["Applied 1 patchhes".toList]⟩ := by
  decide +kernel

end GamePatch
