import GamePatch.Model.CString

/-! # Reading a file line by line on the console

The console build reads one byte per call into a buffer of
`MAX_LINE_LENGTH + 1` cells that is zeroed before every line. The same loop
stands in `parse_patch_file_low_mem`, in the console branch of
`parse_patch_file` and in `parse_plugin`. -/

namespace GamePatch.LineReader

/-- The buffer as it is declared in the loop body. -/
def zeroedBuffer : List Char := List.replicate (maxLineLength + 1) '\x00'

/-- What `fileReadLine` works on: the cells of the buffer, the cursor, the
bytes of the file not read yet and the two byte counters. -/
structure LineState where
  buffer : List Char
  cursor : ℕ
  file : List Char
  bytesRead : ℕ
  bytesWritten : ℕ
  deriving DecidableEq, Repr

/-- A call that has returned, has touched a cell outside the buffer, or has not
returned within the rounds it was given. -/
inductive ReadLine where
  | returned (s : LineState)
  | overflow
  | running
  deriving DecidableEq, Repr

def store (buffer : List Char) (i : ℕ) (c : Char) : Option (List Char) :=
  if i < buffer.length then some (buffer.set i c) else none

/-- `fileRead` of one byte at the cursor. At the end of the file it succeeds
with zero bytes and leaves the cell as it is. -/
def fileRead (s : LineState) : Option (LineState × ℕ) :=
  match s.file with
  | [] => some (s, 0)
  | c :: rest =>
      (store s.buffer s.cursor c).map fun buffer => ({ s with buffer := buffer, file := rest }, 1)

/-- `fileReadLine`, one round of its loop for every unit of fuel. The cell under
the cursor is tested before the end of the file is. -/
def fileReadLine : ℕ → LineState → ReadLine
  | 0, _ => .running
  | fuel + 1, s =>
      match fileRead s with
      | none => .overflow
      | some (s, curReadSize) =>
          let s := { s with bytesRead := s.bytesRead + curReadSize }
          match s.buffer[s.cursor]? with
          | none => .overflow
          | some cell =>
              if cell = '\r' then fileReadLine fuel s
              else if cell = '\n' then
                .returned { s with buffer := s.buffer.set s.cursor '\x00' }
              else if curReadSize = 0 then
                match store s.buffer (s.cursor + 1) '\x00' with
                | none => .overflow
                | some buffer => .returned { s with buffer := buffer, cursor := s.cursor + 1 }
              else
                fileReadLine fuel
                  { s with
                    bytesWritten := s.bytesWritten + curReadSize
                    cursor := s.cursor + curReadSize }

/-- A loop that has finished in a state, has overrun its buffer, or still runs. -/
inductive LoopResult (σ : Type*) where
  | finished (s : σ)
  | overflow
  | running
  deriving DecidableEq, Repr

/-- The loop over the lines of an open file of `fsz` bytes. `processLine` is
handed the whole buffer. -/
def lineLoop {σ : Type*} (processLine : σ → List Char → σ) (fsz : ℕ) :
    ℕ → ℕ → ℕ → List Char → σ → LoopResult σ
  | 0, _, _, _, _ => .running
  | fuel + 1, bufreadAdd, bufread2, file, s =>
      if bufreadAdd < fsz then
        match fileReadLine (fuel + 1) ⟨zeroedBuffer, 0, file, 0, bufread2⟩ with
        | .overflow => .overflow
        | .running => .running
        | .returned r =>
            if r.bytesRead = 0 then .finished s
            else
              lineLoop processLine fsz fuel (bufreadAdd + r.bytesRead) r.bytesWritten r.file
                (processLine s r.buffer)
      else .finished s

/-- The loop over a file that has just been opened. -/
def readLines {σ : Type*} (processLine : σ → List Char → σ) (fuel : ℕ) (content : List Char)
    (s : σ) : LoopResult σ :=
  lineLoop processLine content.length fuel 0 0 content s

end GamePatch.LineReader
