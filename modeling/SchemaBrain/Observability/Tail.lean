import Mathlib.Logic.Function.Basic
import SchemaBrain.Base.Bytes
import SchemaBrain.Base.Lines
import SchemaBrain.Base.Run

/-!
# Tailing the event log across rotations

One `JsonlEventBus` that appends lines to a file and renames it away when it is full, and one
`TailReader` in follow mode on the same path. The steps are the system calls of the two, in any
order; a line in flight can be seen in any prefix.

A switch of the reader to a new file closes the old one without reading what is left in it, so
that a rotation can lose events. What a run has to avoid for the reader to yield every event
once, in order, is `Undisturbed`.
-/

namespace SchemaBrain.Observability

open SchemaBrain.Base

variable {ε : Type}

/-! ## Events and lines -/

/-- What a reader does with one line: `decode`, `strip` and `json.loads`, where a line that fails
is skipped; and the `--since` filter. -/
structure LineFormat (ε : Type) where
  parseLine : Bytes → Option ε
  passesSince : ε → Bool

/-- What `Event.to_json_line` writes before the line's end: one line, that reads back. -/
structure EmittedLine (f : LineFormat ε) where
  event : ε
  json : Bytes
  newlineFree : (10 : UInt8) ∉ json
  parses : f.parseLine json = some event

variable {f : LineFormat ε}

/-- The lines as they stand in a file. -/
def fileBytes (lines : List (EmittedLine f)) : Bytes := unlines 10 (lines.map (·.json))

@[simp] theorem fileBytes_nil : fileBytes ([] : List (EmittedLine f)) = [] := rfl

@[simp] theorem fileBytes_singleton (line : EmittedLine f) :
    fileBytes [line] = line.json ++ [10] := by
  simp [fileBytes]

theorem fileBytes_append (first second : List (EmittedLine f)) :
    fileBytes (first ++ second) = fileBytes first ++ fileBytes second := by
  simp [fileBytes]

/-! ## The bus and the reader -/

/-- Where the one writer stands in `emit`. -/
inductive Writer
  | idle
  /-- Before the `os.open` of `_append`. -/
  | opening (line : Bytes)
  /-- In the `os.write` of `_append`; `rest` is not in the file yet. -/
  | writing (inode : Nat) (rest : Bytes)

/-- Where the reader stands in `stream`. -/
inductive Phase
  /-- Before the `os.stat` of `_open`. -/
  | opening
  /-- Between the `os.stat` and the `os.open` of `_open`. -/
  | statted (inode : Nat)
  | firstRead
  /-- Before `_handle_rotation_if_needed`. -/
  | check
  /-- Between the `os.close` and the `os.open` of `_handle_rotation_if_needed`. -/
  | reopening (inode : Nat)
  | read
  deriving DecidableEq

structure TailReader where
  fd : Option Nat
  offset : Nat
  buf : Bytes
  currentInode : Option Nat
  phase : Phase

/-- The file system, the bus and the reader. An inode that is open or at a path is not used
again, so a new file gets a new one. -/
structure Tail (f : LineFormat ε) where
  contents : Nat → Bytes
  /-- The inode at the path, if there is a file. -/
  path : Option Nat
  nextInode : Nat
  writer : Writer
  reader : TailReader
  yielded : List ε
  /-- History: the lines of the `emit` calls so far. -/
  emitted : List (EmittedLine f)
  /-- History: the emissions before the reader opened a file for the first time. -/
  openedAt : Option Nat
  /-- History: the emissions that had ended when the last poll began. -/
  checkedUpTo : Nat
  /-- History: the emissions that had ended when the last poll that has ended began. -/
  polledUpTo : Nat
  /-- History: the rotations since the last poll. -/
  rotations : Nat

/-- The system calls. -/
inductive Action (f : LineFormat ε)
  /-- `emit` is called: `_rotate_if_needed` stats and renames. -/
  | emit (line : EmittedLine f)
  /-- The `os.open` of `_append`. -/
  | append
  /-- `n` more bytes of the line can be seen in the file. -/
  | write (n : Nat)
  /-- The reader's `os.stat`, and the `os.close` after it. -/
  | stat
  /-- The reader's `os.open`. -/
  | openPath
  /-- `_read_new_events`, up to the `os.read` that finds the end of the file. -/
  | read

namespace TailReader

/-- `_close_fd`. -/
def closeFd (r : TailReader) : TailReader :=
  { r with fd := none, offset := 0, buf := [], currentInode := none }

/-- A file is open that was seen under `inode` by the `os.stat` before. -/
def openFd (r : TailReader) (fd inode : Nat) : TailReader :=
  { r with fd := some fd, offset := 0, buf := [], currentInode := some inode }

/-- `_read_new_events`. -/
def readNewEvents (f : LineFormat ε) (r : TailReader) (contents : Nat → Bytes)
    (filterSince : Bool) : TailReader × List ε :=
  match r.fd with
  | none => (r, [])
  | some inode =>
    let chunkBytes := (contents inode).drop r.offset
    if chunkBytes = [] ∧ r.buf = [] then (r, [])
    else
      let lines := (r.buf ++ chunkBytes).splitOn 10
      ({ r with buf := lines.getLastD [], offset := r.offset + chunkBytes.length },
        (lines.dropLast.filterMap f.parseLine).filter
          fun event => !filterSince || f.passesSince event)

end TailReader

namespace Tail

/-- The emissions whose line is in a file. -/
def completed (s : Tail f) : Nat :=
  match s.writer with
  | .idle => s.emitted.length
  | _ => s.emitted.length - 1

/-- Whether `_rotate_if_needed` renames the file. -/
def rotates (s : Tail f) (maxBytes : Nat) (line : EmittedLine f) : Bool :=
  match s.path with
  | none => false
  | some inode => maxBytes < (s.contents inode).length + (fileBytes [line]).length

/-- `emit`, up to `_append`. -/
def emit (s : Tail f) (maxBytes : Nat) (line : EmittedLine f) : Tail f :=
  { s with
    path := if s.rotates maxBytes line then none else s.path
    rotations := s.rotations + (s.rotates maxBytes line).toNat
    writer := .opening (fileBytes [line])
    emitted := s.emitted ++ [line] }

/-- The `os.open` of `_append`: an existing file, or a new one. -/
def openToAppend (s : Tail f) (line : Bytes) : Tail f :=
  match s.path with
  | some inode => { s with writer := .writing inode line }
  | none => { s with
      contents := Function.update s.contents s.nextInode []
      path := some s.nextInode
      nextInode := s.nextInode + 1
      writer := .writing s.nextInode line }

/-- `n` bytes of the line arrive in the file. -/
def write (s : Tail f) (inode : Nat) (rest : Bytes) (n : Nat) : Tail f :=
  { s with
    contents := Function.update s.contents inode (s.contents inode ++ rest.take n)
    writer := if rest.drop n = [] then .idle else .writing inode (rest.drop n) }

def setPhase (s : Tail f) (phase : Phase) : Tail f :=
  { s with reader := { s.reader with phase := phase } }

/-- The `os.stat` of `_handle_rotation_if_needed`. -/
def checkRotation (s : Tail f) : Tail f :=
  let s := { s with checkedUpTo := s.completed }
  match s.path with
  | none => { s with reader := { s.reader.closeFd with phase := .read } }
  | some inode =>
    if some inode = s.reader.currentInode then s.setPhase .read
    else { s with reader := { s.reader with fd := none, phase := .reopening inode } }

/-- `_read_new_events`, and the events it yields. -/
def readEvents (s : Tail f) (filterSince : Bool) : Tail f :=
  let (reader, events) := s.reader.readNewEvents f s.contents filterSince
  { s with reader := { reader with phase := .check }, yielded := s.yielded ++ events }

/-- One system call. -/
def step (maxBytes : Nat) (s : Tail f) : Action f → Option (Tail f)
  | .emit line =>
    match s.writer with
    | .idle => some (s.emit maxBytes line)
    | _ => none
  | .append =>
    match s.writer with
    | .opening line => some (s.openToAppend line)
    | _ => none
  | .write n =>
    match s.writer with
    | .writing inode rest => some (s.write inode rest n)
    | _ => none
  | .stat =>
    match s.reader.phase with
    | .opening =>
      match s.path with
      | none => some s
      | some inode => some (s.setPhase (.statted inode))
    | .check => some s.checkRotation
    | _ => none
  | .openPath =>
    match s.reader.phase, s.path with
    | .statted _, none => some (s.setPhase .opening)
    | .statted inode, some fd => some { s with
        reader := { s.reader.openFd fd inode with phase := .firstRead }
        openedAt := some s.emitted.length }
    | .reopening _, none => some (s.setPhase .read)
    | .reopening inode, some fd => some { s with
        reader := { s.reader.openFd fd inode with phase := .read } }
    | _, _ => none
  | .read =>
    match s.reader.phase with
    | .firstRead => some (s.readEvents true)
    | .read => some { s.readEvents false with polledUpTo := s.checkedUpTo, rotations := 0 }
    | _ => none

/-- No file yet, and a reader just constructed. -/
def start : Tail f where
  contents := fun _ => []
  path := none
  nextInode := 0
  writer := .idle
  reader := { fd := none, offset := 0, buf := [], currentInode := none, phase := .opening }
  yielded := []
  emitted := []
  openedAt := none
  checkedUpTo := 0
  polledUpTo := 0
  rotations := 0

/-! ## What is claimed of a run, and under which condition it holds -/

/-- After events from before the reader opened a file, the reader has yielded the events emitted
since, in order and once each, and at least those that a poll came after. -/
def Tailed (s : Tail f) : Prop :=
  ∀ o, s.openedAt = some o → ∃ old k,
    old.Sublist ((s.emitted.take o).map (·.event)) ∧
    s.yielded = old ++ ((s.emitted.drop o).take k).map (·.event) ∧
    s.polledUpTo ≤ o + k

/-- At most one rotation between two polls, and none within one. -/
def OneRotation (maxBytes : Nat) (s : Tail f) : Action f → Prop
  | .emit line => s.rotates maxBytes line = true →
      s.openedAt = none ∨ s.rotations = 0 ∧ s.reader.phase = .check
  | _ => True

/-- The bytes in the reader's file that it has not read. -/
def unread (s : Tail f) : Bytes :=
  match s.reader.fd with
  | none => []
  | some inode => (s.contents inode).drop s.reader.offset

/-- A rotation renames the file that the reader has open (and none while the reader is about to
open one), a switch leaves nothing unread, and the first read filters no event emitted since. -/
def Undisturbed (maxBytes : Nat) (s : Tail f) : Action f → Prop
  | .emit line => s.rotates maxBytes line = true →
      s.reader.phase = .opening ∨ s.path = s.reader.fd
  | .stat => s.reader.phase = .check → s.path ≠ s.reader.currentInode → s.unread = []
  | .read => s.reader.phase = .firstRead → ∀ o ∈ s.openedAt,
      ∀ line ∈ (s.emitted.take s.completed).drop o, f.passesSince line.event = true
  | _ => True

end Tail

end SchemaBrain.Observability
