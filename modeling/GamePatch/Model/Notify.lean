import GamePatch.Model.RunPatch

/-! # The notification file

The shell creates `notify.bin` when a game starts, `run_patch` writes its message
over it, and `notify_thread` of the shell reads it, waits, shows what it has read and
unlinks the file. -/

namespace GamePatch

/-- `CHECK_BYTE` -/
def checkByte : Char := '!'

/-- The size of `notify_buf`. -/
def notifyBufferSize : ℕ := 257

/-- Which calls of one `fileWrite2` succeed, where they can. -/
structure WriteCalls where
  openReadWrite : Bool
  openCreate : Bool
  write : Bool
  deriving DecidableEq, Repr

namespace WriteCalls

/-- Only a file that exists is opened without creating it. -/
def opens (calls : WriteCalls) (file : Option CString) : Bool :=
  file.isSome && calls.openReadWrite || calls.openCreate

def succeed (calls : WriteCalls) (file : Option CString) : Bool := calls.opens file && calls.write

end WriteCalls

/-- `fileWrite2` writes at the start of the file and keeps what follows. -/
def fileWrite2 (calls : WriteCalls) (file : Option CString) (buffer : CString) : Option CString :=
  if calls.opens file then
    let old := file.getD []
    if calls.write then some (buffer ++ old.drop buffer.length) else some old
  else file

/-- The text that `notify_thread` makes of the file, if it takes it for a message. -/
def notificationOf (file : Option CString) : Option CString :=
  file.bind fun content =>
    if content.length < notifyBufferSize ∧ content.head? ≠ some checkByte ∧ 1 < content.length then
      some ((cstring content).take (notifyBufferSize - 2))
    else none

/-- The file, the text that `notify_thread` has read and will show after its wait, and
the texts shown so far. -/
structure NotifyState where
  file : Option CString
  waiting : Option CString
  shown : List CString
  deriving DecidableEq, Repr

inductive NotifyStep where
  /-- `load_plugin_main` at a game start; `opened` is the outcome of its `fopen`. -/
  | gameStart (opened : Bool)
  /-- The end of `run_patch`. -/
  | runPatch (ret : ℤ) (count : ℕ) (calls : WriteCalls)
  /-- `notify_thread` up to its wait. -/
  | read
  /-- `notify_thread` after its wait. -/
  | display
  deriving DecidableEq, Repr

/-- One step on the file. `notify_thread` reads only when it is not waiting. -/
def notifyStep (s : NotifyState) : NotifyStep → Option NotifyState
  | .gameStart opened => some (if opened then { s with file := some [checkByte] } else s)
  | .runPatch ret count calls =>
      match (reportOf ret (⟨count, ()⟩ : RunData Unit)).notice with
      | .write message => some { s with file := fileWrite2 calls s.file message }
      | .delete => some { s with file := none }
      | .keep => some s
  | .read => if s.waiting = none then some { s with waiting := notificationOf s.file } else none
  | .display =>
      s.waiting.map fun text =>
        { s with file := none, waiting := none, shown := s.shown ++ [text] }

end GamePatch
