import Mathlib.Logic.Function.Basic
import Mathlib.Data.List.Basic
import SchemaBrain.Base.Lines
import SchemaBrain.Base.Run
import SchemaBrain.Observability.Tail

/-!
# What a tail reader yields

The bytes from the reader's buffer to the line in flight are the lines it has not delivered yet:
the steps of the bus add to them at the end, the reads take from the front, and a switch of files
that leaves nothing unread takes nothing. So an undisturbed run yields every event once.
-/

namespace SchemaBrain.Observability

open SchemaBrain.Base

variable {ε : Type} {f : LineFormat ε}

namespace Tail

/-! ## The stream of bytes -/

/-- The bytes of the file at the path. -/
def pathBytes (s : Tail f) : Bytes :=
  match s.path with
  | none => []
  | some inode => s.contents inode

/-- The bytes of the line in flight that are not in the file. -/
def unwritten (s : Tail f) : Bytes :=
  match s.writer with
  | .idle => []
  | .opening line => line
  | .writing _ rest => rest

/-- What the reader has, or can still read, of the file it has open. -/
def pending (s : Tail f) : Bytes :=
  match s.reader.fd with
  | none => []
  | some _ => s.reader.buf ++ s.unread

/-- The bytes of the file at the path, where the reader has another one open, or none. -/
def ahead (s : Tail f) : Bytes := if s.path = s.reader.fd then [] else s.pathBytes

/-- What holds of the files and of the line in flight in every state. -/
structure Files (s : Tail f) : Prop where
  path_lt : ∀ inode, s.path = some inode → inode < s.nextInode
  fd_lt : ∀ inode, s.reader.fd = some inode → inode < s.nextInode
  offset_le : ∀ inode, s.reader.fd = some inode →
    s.reader.offset ≤ (s.contents inode).length
  buf_free : (10 : UInt8) ∉ s.reader.buf
  opening_ne : ∀ line, s.writer = .opening line → line ≠ []
  writing : ∀ inode rest, s.writer = .writing inode rest → s.path = some inode ∧ rest ≠ []
  busy : s.writer ≠ .idle → 0 < s.emitted.length
  unwritten_le : s.unwritten.length ≤ (fileBytes (s.emitted.drop s.completed)).length
  file : ∃ fileStart, fileStart ≤ s.emitted.length ∧
    s.pathBytes ++ s.unwritten = fileBytes (s.emitted.drop fileStart)
  checked_le : s.checkedUpTo ≤ s.completed

/-- The bytes from the reader's buffer to the line in flight are the lines from `delivered` on. -/
structure Stream (s : Tail f) (delivered : Nat) : Prop where
  le : delivered ≤ s.emitted.length
  bytes : s.pending ++ s.ahead ++ s.unwritten = fileBytes (s.emitted.drop delivered)

/-- The reader has yielded what was emitted from `opened` up to `delivered`, after some events
from before. -/
def Shown (s : Tail f) (opened delivered : Nat) : Prop :=
  ∃ old : List (EmittedLine f), old.Sublist ((s.emitted.take delivered).take opened) ∧
    s.yielded = (old ++ (s.emitted.take delivered).drop opened).map (·.event)

/-- What holds of the reader after it has opened a file. -/
structure Following (s : Tail f) (opened delivered : Nat) : Prop where
  openedAt : s.openedAt = some opened
  opened_le : opened ≤ s.emitted.length
  stream : s.Stream delivered
  shown : s.Shown opened delivered
  polled_le : s.polledUpTo ≤ delivered

/-- What holds of the reader before it has opened a file. -/
structure Unopened (s : Tail f) : Prop where
  openedAt : s.openedAt = none
  fd : s.reader.fd = none
  yielded : s.yielded = []
  polled : s.polledUpTo = 0

/-- What holds of the reader, by where it stands. -/
def Reading (s : Tail f) : Prop :=
  match s.reader.phase with
  | .opening => s.Unopened
  | .statted inode => s.Unopened ∧ s.path = some inode
  | .firstRead => ∃ opened delivered, s.Following opened delivered ∧
      s.reader.currentInode = s.reader.fd ∧ s.yielded = [] ∧ delivered ≤ opened
  | .check => ∃ opened delivered, s.Following opened delivered ∧
      s.reader.currentInode = s.reader.fd
  | .reopening inode => ∃ opened delivered, s.Following opened delivered ∧
      s.reader.fd = none ∧ s.path = some inode
  | .read => ∃ opened delivered, s.Following opened delivered ∧
      s.reader.currentInode = s.reader.fd ∧
      (s.ahead ++ s.unwritten).length ≤ (fileBytes (s.emitted.drop s.checkedUpTo)).length

/-! ## The steps of the bus -/

theorem completed_le (s : Tail f) : s.completed ≤ s.emitted.length := by
  unfold completed
  split <;> omega

theorem unwritten_of_idle {s : Tail f} (h : s.writer = .idle) : s.unwritten = [] := by
  simp [unwritten, h]

theorem completed_of_idle {s : Tail f} (h : s.writer = .idle) :
    s.completed = s.emitted.length := by
  simp [completed, h]

theorem Files.emit {s : Tail f} (h : s.Files) (hidle : s.writer = .idle) (maxBytes : Nat)
    (line : EmittedLine f) : (s.emit maxBytes line).Files where
  path_lt inode hpath := by
    simp only [Tail.emit] at hpath
    split at hpath
    · cases hpath
    · exact h.path_lt inode hpath
  fd_lt := h.fd_lt
  offset_le := h.offset_le
  buf_free := h.buf_free
  opening_ne bytes hopening := by
    obtain rfl : fileBytes [line] = bytes := Writer.opening.inj hopening
    simp
  writing inode rest hwriting := by cases hwriting
  busy _ := by simp [Tail.emit]
  unwritten_le := by simp [unwritten, completed, Tail.emit]
  file := by
    obtain ⟨fileStart, hle, hfile⟩ := h.file
    rw [unwritten_of_idle hidle, List.append_nil] at hfile
    by_cases hrotates : s.rotates maxBytes line = true
    · refine ⟨s.emitted.length, by simp [Tail.emit], ?_⟩
      simp [pathBytes, unwritten, Tail.emit, hrotates]
    · refine ⟨fileStart, by simp [Tail.emit]; omega, ?_⟩
      have hpath : (s.emit maxBytes line).pathBytes = s.pathBytes := by
        simp [pathBytes, Tail.emit, hrotates]
      rw [hpath, hfile]
      simp only [unwritten, Tail.emit]
      rw [List.drop_append_of_le_length hle, fileBytes_append]
  checked_le := by
    have hchecked := h.checked_le
    rw [completed_of_idle hidle] at hchecked
    simpa [completed, Tail.emit] using hchecked

theorem Files.openToAppend {s : Tail f} (h : s.Files) {line : Bytes}
    (hopening : s.writer = .opening line) : (s.openToAppend line).Files := by
  have hbusy := h.busy (by rw [hopening]; exact fun heq => by cases heq)
  have hunwritten := h.unwritten_le
  have hchecked := h.checked_le
  obtain ⟨fileStart, hle, hfile⟩ := h.file
  simp only [unwritten, completed, hopening] at hunwritten hchecked hfile
  unfold Tail.openToAppend
  split
  · next inode hpath =>
    exact {
      path_lt := h.path_lt
      fd_lt := h.fd_lt
      offset_le := h.offset_le
      buf_free := h.buf_free
      opening_ne := fun _ heq => by cases heq
      writing := fun _ _ heq => by
        cases heq
        exact ⟨hpath, h.opening_ne _ hopening⟩
      busy := fun _ => hbusy
      unwritten_le := hunwritten
      file := ⟨fileStart, hle, hfile⟩
      checked_le := hchecked }
  · next hpath =>
    have hfresh : ∀ inode, s.reader.fd = some inode → inode ≠ s.nextInode :=
      fun inode hfd => Nat.ne_of_lt (h.fd_lt inode hfd)
    exact {
      path_lt := fun inode heq => by
        obtain rfl := Option.some.inj heq
        exact Nat.lt_succ_self _
      fd_lt := fun inode hfd => Nat.lt_succ_of_lt (h.fd_lt inode hfd)
      offset_le := fun inode hfd => by
        simp only [Function.update_of_ne (hfresh inode hfd)]
        exact h.offset_le inode hfd
      buf_free := h.buf_free
      opening_ne := fun _ heq => by cases heq
      writing := fun _ _ heq => by
        cases heq
        exact ⟨rfl, h.opening_ne _ hopening⟩
      busy := fun _ => hbusy
      unwritten_le := hunwritten
      file := ⟨fileStart, hle, by simpa [pathBytes, unwritten, hpath] using hfile⟩
      checked_le := hchecked }

theorem unwritten_write (s : Tail f) (inode : Nat) (rest : Bytes) (n : Nat) :
    (s.write inode rest n).unwritten = rest.drop n := by
  by_cases hdone : rest.drop n = [] <;> simp only [unwritten, Tail.write, hdone, if_true, if_false]

theorem Files.write {s : Tail f} (h : s.Files) {inode : Nat} {rest : Bytes}
    (hwriting : s.writer = .writing inode rest) (n : Nat) : (s.write inode rest n).Files := by
  obtain ⟨hpath, hrest⟩ := h.writing inode rest hwriting
  have hbusy := h.busy (by rw [hwriting]; exact fun heq => by cases heq)
  have hunwritten := h.unwritten_le
  have hchecked := h.checked_le
  obtain ⟨fileStart, hle, hfile⟩ := h.file
  simp only [unwritten, completed, pathBytes, hwriting, hpath] at hunwritten hchecked hfile
  exact {
    path_lt := h.path_lt
    fd_lt := h.fd_lt
    offset_le := fun other hfd => by
      by_cases heq : other = inode
      · subst heq
        simp only [Tail.write, Function.update_self, List.length_append]
        exact Nat.le_add_right_of_le (h.offset_le other hfd)
      · simp only [Tail.write, Function.update_of_ne heq]
        exact h.offset_le other hfd
    buf_free := h.buf_free
    opening_ne := fun _ heq => by
      simp only [Tail.write] at heq
      split at heq <;> cases heq
    writing := fun _ _ heq => by
      simp only [Tail.write] at heq
      split at heq
      · cases heq
      · next hne =>
        cases heq
        exact ⟨hpath, hne⟩
    busy := fun _ => hbusy
    unwritten_le := by
      rw [unwritten_write]
      simp only [completed, Tail.write]
      by_cases hdone : rest.drop n = []
      · simp [hdone]
      · simp only [hdone, if_false]
        exact Nat.le_trans (by simp) hunwritten
    file := ⟨fileStart, hle, by
      rw [unwritten_write]
      simp only [pathBytes, Tail.write, hpath, Function.update_self]
      rw [List.append_assoc, List.take_append_drop]
      exact hfile⟩
    checked_le := by
      simp only [completed, Tail.write]
      split <;> omega }

/-- What a step of the bus does to the bytes a reader with an open file goes on with: it adds
those of a new line, and moves none from the reader's file to another. -/
structure BusMoves (s s' : Tail f) (more : List (EmittedLine f)) : Prop where
  emitted : s'.emitted = s.emitted ++ more
  reader : s'.reader = s.reader
  yielded : s'.yielded = s.yielded
  openedAt : s'.openedAt = s.openedAt
  checkedUpTo : s'.checkedUpTo = s.checkedUpTo
  polledUpTo : s'.polledUpTo = s.polledUpTo
  path : s.reader.phase ≠ .opening → ∀ inode, s.path = some inode →
    s.reader.fd ≠ some inode → s'.path = some inode
  bytes : s.reader.phase ≠ .opening → s'.pending ++ s'.ahead ++ s'.unwritten =
    s.pending ++ s.ahead ++ s.unwritten ++ fileBytes more
  rest_le : s.reader.phase ≠ .opening → (s'.ahead ++ s'.unwritten).length ≤
    (s.ahead ++ s.unwritten ++ fileBytes more).length

theorem busMoves_emit {s : Tail f} (hidle : s.writer = .idle) {maxBytes : Nat}
    {line : EmittedLine f} (hallowed : s.Undisturbed maxBytes (.emit line)) :
    s.BusMoves (s.emit maxBytes line) [line] := by
  have hahead : s.reader.phase ≠ .opening → (s.emit maxBytes line).ahead = s.ahead := by
    intro hphase
    by_cases hrotates : s.rotates maxBytes line = true
    · have hfd : s.path = s.reader.fd := (hallowed hrotates).resolve_left hphase
      simp [ahead, pathBytes, Tail.emit, hrotates, hfd]
    · simp [ahead, pathBytes, Tail.emit, hrotates]
  exact {
    emitted := rfl
    reader := rfl
    yielded := rfl
    openedAt := rfl
    checkedUpTo := rfl
    polledUpTo := rfl
    path := fun hphase inode hpath hfd => by
      have hrotates : ¬ s.rotates maxBytes line = true := fun hrotates =>
        hfd (hpath ▸ ((hallowed hrotates).resolve_left hphase).symm)
      simp [Tail.emit, hrotates, hpath]
    bytes := fun hphase => by
      rw [hahead hphase, unwritten_of_idle hidle, List.append_nil]
      rfl
    rest_le := fun hphase => by
      rw [hahead hphase, unwritten_of_idle hidle, List.append_nil]
      exact Nat.le_refl _ }

theorem openToAppend_eq (s : Tail f) (line : Bytes) : ∃ contents path nextInode writer,
    s.openToAppend line = { s with
      contents := contents, path := path, nextInode := nextInode, writer := writer } := by
  unfold Tail.openToAppend
  split
  · exact ⟨_, _, _, _, rfl⟩
  · exact ⟨_, _, _, _, rfl⟩

theorem busMoves_openToAppend {s : Tail f} (h : s.Files) {line : Bytes}
    (hopening : s.writer = .opening line) : s.BusMoves (s.openToAppend line) [] := by
  have hmoves : (s.openToAppend line).pending = s.pending ∧
      (s.openToAppend line).ahead = s.ahead ∧ (s.openToAppend line).unwritten = s.unwritten := by
    unfold Tail.openToAppend
    split
    · exact ⟨rfl, rfl, by simp [unwritten, hopening]⟩
    · next hpath =>
      refine ⟨?_, ?_, by simp [unwritten, hopening]⟩
      · cases hfd : s.reader.fd with
        | none => simp [pending, hfd]
        | some inode =>
          simp [pending, unread, hfd, Function.update_of_ne (Nat.ne_of_lt (h.fd_lt inode hfd))]
      · simp [ahead, pathBytes, hpath]
  have hpath : ∀ inode, s.path = some inode → (s.openToAppend line).path = some inode := by
    intro inode hpath
    simp [Tail.openToAppend, hpath]
  obtain ⟨contents, path, nextInode, writer, heq⟩ := s.openToAppend_eq line
  rw [heq] at hmoves hpath ⊢
  obtain ⟨hpending, hahead, hunwritten⟩ := hmoves
  refine ⟨(List.append_nil _).symm, rfl, rfl, rfl, rfl, rfl, fun _ inode hi _ => hpath inode hi,
    fun _ => ?_, fun _ => ?_⟩
  · rw [hpending, hahead, hunwritten, fileBytes_nil, List.append_nil]
  · rw [hahead, hunwritten, fileBytes_nil, List.append_nil]

theorem busMoves_write {s : Tail f} (h : s.Files) {inode : Nat} {rest : Bytes}
    (hwriting : s.writer = .writing inode rest) (n : Nat) :
    s.BusMoves (s.write inode rest n) [] := by
  have hpath := (h.writing inode rest hwriting).1
  have hrest : s.unwritten = rest.take n ++ rest.drop n := by
    simp [unwritten, hwriting]
  -- The bytes arrive where the reader reads on, or in the file ahead of it.
  have hmoves : (s.write inode rest n).pending = s.pending ++ rest.take n ∧
        (s.write inode rest n).ahead = [] ∧ s.ahead = [] ∨
      (s.write inode rest n).pending = s.pending ∧
        (s.write inode rest n).ahead = s.ahead ++ rest.take n := by
    by_cases hfd : s.reader.fd = some inode
    · left
      refine ⟨?_, by simp [ahead, Tail.write, hpath, hfd], by simp [ahead, hpath, hfd]⟩
      simp only [pending, unread, Tail.write, hfd, Function.update_self]
      rw [List.drop_append_of_le_length (h.offset_le inode hfd), List.append_assoc]
    · right
      constructor
      · cases hother : s.reader.fd with
        | none => simp [pending, Tail.write, hother]
        | some other =>
          have hne : other ≠ inode := fun heq => hfd (heq ▸ hother)
          simp [pending, unread, Tail.write, hother, Function.update_of_ne hne]
      · simp [ahead, pathBytes, Tail.write, hpath, Ne.symm hfd]
  refine ⟨by simp [Tail.write], rfl, rfl, rfl, rfl, rfl, fun _ _ heq _ => heq, ?_, ?_⟩
  · intro _
    rw [unwritten_write, hrest, fileBytes_nil, List.append_nil]
    rcases hmoves with ⟨hpending, hahead, hnone⟩ | ⟨hpending, hahead⟩
    · simp [hpending, hahead, hnone]
    · simp [hpending, hahead]
  · intro _
    rw [unwritten_write, hrest, fileBytes_nil, List.append_nil]
    rcases hmoves with ⟨-, hahead, hnone⟩ | ⟨-, hahead⟩
    · simp [hahead, hnone]
    · simp [hahead]

theorem BusMoves.following {s s' : Tail f} {more : List (EmittedLine f)}
    (h : s.BusMoves s' more) (hphase : s.reader.phase ≠ .opening) {opened delivered : Nat}
    (hs : s.Following opened delivered) : s'.Following opened delivered where
  openedAt := h.openedAt ▸ hs.openedAt
  opened_le := by
    rw [h.emitted, List.length_append]
    exact Nat.le_add_right_of_le hs.opened_le
  stream := {
    le := by
      rw [h.emitted, List.length_append]
      exact Nat.le_add_right_of_le hs.stream.le
    bytes := by
      rw [h.bytes hphase, hs.stream.bytes, h.emitted,
        List.drop_append_of_le_length hs.stream.le, fileBytes_append] }
  shown := by
    obtain ⟨old, hold, hyielded⟩ := hs.shown
    refine ⟨old, ?_, ?_⟩
    · rwa [h.emitted, List.take_append_of_le_length hs.stream.le]
    · rw [h.yielded, hyielded, h.emitted, List.take_append_of_le_length hs.stream.le]
  polled_le := h.polledUpTo ▸ hs.polled_le

theorem BusMoves.reading {s s' : Tail f} {more : List (EmittedLine f)}
    (h : s.BusMoves s' more) (hchecked : s.checkedUpTo ≤ s.emitted.length)
    (hs : s.Reading) : s'.Reading := by
  have hunopened : s.Unopened → s'.Unopened := fun hu =>
    ⟨h.openedAt ▸ hu.openedAt, h.reader ▸ hu.fd, h.yielded ▸ hu.yielded, h.polledUpTo ▸ hu.polled⟩
  unfold Reading at hs ⊢
  rw [h.reader]
  cases hphase : s.reader.phase with
  | opening =>
    simp only [hphase] at hs
    exact hunopened hs
  | statted inode =>
    simp only [hphase] at hs
    obtain ⟨hu, hpath⟩ := hs
    refine ⟨hunopened hu, h.path (by simp [hphase]) inode hpath ?_⟩
    simp [hu.fd]
  | firstRead =>
    simp only [hphase] at hs
    obtain ⟨opened, delivered, hs, hinode, hyielded, hle⟩ := hs
    exact ⟨opened, delivered, h.following (by simp [hphase]) hs, hinode, h.yielded ▸ hyielded, hle⟩
  | check =>
    simp only [hphase] at hs
    obtain ⟨opened, delivered, hs, hinode⟩ := hs
    exact ⟨opened, delivered, h.following (by simp [hphase]) hs, hinode⟩
  | reopening inode =>
    simp only [hphase] at hs
    obtain ⟨opened, delivered, hs, hfd, hpath⟩ := hs
    refine ⟨opened, delivered, h.following (by simp [hphase]) hs, hfd,
      h.path (by simp [hphase]) inode hpath ?_⟩
    simp [hfd]
  | read =>
    simp only [hphase] at hs
    obtain ⟨opened, delivered, hs, hinode, hrest⟩ := hs
    refine ⟨opened, delivered, h.following (by simp [hphase]) hs, hinode, ?_⟩
    rw [h.checkedUpTo, h.emitted, List.drop_append_of_le_length hchecked, fileBytes_append]
    refine Nat.le_trans (h.rest_le (by simp [hphase])) ?_
    simp only [List.length_append] at hrest ⊢
    omega

/-! ## The steps of the reader -/

/-- The reader's steps leave the files and the line in flight alone. -/
theorem Files.of_reader {s s' : Tail f} (h : s.Files) (hcontents : s'.contents = s.contents)
    (hpath : s'.path = s.path) (hnext : s'.nextInode = s.nextInode)
    (hwriter : s'.writer = s.writer) (hemitted : s'.emitted = s.emitted)
    (hchecked : s'.checkedUpTo ≤ s.completed)
    (hfd : ∀ inode, s'.reader.fd = some inode →
      inode < s.nextInode ∧ s'.reader.offset ≤ (s.contents inode).length)
    (hbuf : (10 : UInt8) ∉ s'.reader.buf) : s'.Files where
  path_lt inode heq := hnext ▸ h.path_lt inode (hpath ▸ heq)
  fd_lt inode heq := hnext ▸ (hfd inode heq).1
  offset_le inode heq := hcontents ▸ (hfd inode heq).2
  buf_free := hbuf
  opening_ne line heq := h.opening_ne line (hwriter ▸ heq)
  writing inode rest heq := hpath ▸ h.writing inode rest (hwriter ▸ heq)
  busy hne := hemitted ▸ h.busy (hwriter ▸ hne)
  unwritten_le := by
    simpa only [unwritten, completed, hwriter, hemitted] using h.unwritten_le
  file := by
    simpa only [pathBytes, unwritten, hwriter, hemitted, hpath, hcontents] using h.file
  checked_le := by simpa only [completed, hwriter, hemitted] using hchecked

theorem Files.unwritten_ne {s : Tail f} (h : s.Files) (hbusy : s.writer ≠ .idle) :
    s.unwritten ≠ [] := by
  unfold unwritten
  split
  · contradiction
  · next line heq => exact h.opening_ne line heq
  · next inode rest heq => exact (h.writing inode rest heq).2

/-- Only a line that is in a file can be delivered. -/
theorem Stream.le_completed {s : Tail f} (h : s.Files) {delivered : Nat}
    (hs : s.Stream delivered) : delivered ≤ s.completed := by
  by_cases hidle : s.writer = .idle
  · rw [completed_of_idle hidle]
    exact hs.le
  · have hne : delivered ≠ s.emitted.length := by
      rintro rfl
      have hbytes := hs.bytes
      rw [List.drop_length, fileBytes_nil] at hbytes
      exact h.unwritten_ne hidle (List.append_eq_nil_iff.mp hbytes).2
    have hcompleted : s.completed = s.emitted.length - 1 := by
      unfold completed
      split
      · contradiction
      · rfl
    have := hs.le
    omega

/-- A reader that has read all of a file the path has moved on from holds no part of a line. -/
theorem Stream.pending_eq_nil {s : Tail f} (h : s.Files) {delivered : Nat}
    (hs : s.Stream delivered) (hpath : s.path ≠ s.reader.fd) (hunread : s.unread = []) :
    s.pending = [] := by
  obtain ⟨fileStart, hle, hfile⟩ := h.file
  have hfree : (10 : UInt8) ∉ s.pending := by
    unfold pending
    split
    · simp
    · simpa [hunread] using h.buf_free
  have hbytes := hs.bytes
  rw [List.append_assoc, ahead, if_neg hpath, hfile] at hbytes
  simp only [fileBytes, List.map_drop] at hbytes
  have hdelivered : fileStart ≤ delivered :=
    le_of_length_le hbytes hfree (by simpa using hle) (Nat.le_refl _)
  have hlength : (unlines 10 ((s.emitted.map (·.json)).drop delivered)).length ≤
      (unlines 10 ((s.emitted.map (·.json)).drop fileStart)).length :=
    length_unlines_drop_le _ hdelivered
  rw [← hbytes, List.length_append] at hlength
  exact List.length_eq_zero_iff.mp (by omega)

theorem filterMap_parseLine (lines : List (EmittedLine f)) :
    (lines.map (·.json)).filterMap f.parseLine = lines.map (·.event) := by
  induction lines with
  | nil => rfl
  | cons line rest ih => simp [line.parses, ih]

theorem newlineFree_of_mem (lines : List (EmittedLine f)) :
    ∀ json ∈ lines.map (·.json), (10 : UInt8) ∉ json := by
  intro json hmem
  obtain ⟨line, -, rfl⟩ := List.mem_map.mp hmem
  exact line.newlineFree

/-- What one read yields and keeps: the complete lines that follow, and the part of the next. -/
theorem readNewEvents_spec {r : TailReader} {contents : Nat → Bytes} {inode : Nat}
    (hfd : r.fd = some inode) (hoffset : r.offset ≤ (contents inode).length)
    {lines : List (EmittedLine f)} {more : Bytes}
    (hbytes : r.buf ++ (contents inode).drop r.offset ++ more = fileBytes lines)
    (filterSince : Bool) :
    ∃ k buf, r.readNewEvents f contents filterSince =
        ({ r with buf := buf, offset := (contents inode).length },
          ((lines.take k).filter
            fun line => !filterSince || f.passesSince line.event).map (·.event)) ∧
      k ≤ lines.length ∧ buf ++ more = fileBytes (lines.drop k) ∧ (10 : UInt8) ∉ buf := by
  simp only [TailReader.readNewEvents, hfd]
  split
  · next hnothing =>
    obtain ⟨hchunk, hempty⟩ := hnothing
    have hend : r.offset = (contents inode).length :=
      Nat.le_antisymm hoffset (List.drop_eq_nil_iff.mp hchunk)
    refine ⟨0, [], ?_, Nat.zero_le _, ?_, List.not_mem_nil⟩
    · have hr : r = { r with buf := [], offset := (contents inode).length } := by
        rw [← hend, ← hempty]
      simpa [hfd] using hr
    · rw [hchunk, hempty] at hbytes
      exact hbytes
  · obtain ⟨k, buf, hk, hsplit, hmore, hfree⟩ := splitOn_prefix (newlineFree_of_mem lines) hbytes
    refine ⟨k, buf, ?_, by simpa using hk, ?_, hfree⟩
    · rw [hsplit, List.dropLast_concat, ← List.map_take, filterMap_parseLine, List.filter_map,
        List.length_drop, Nat.add_sub_cancel' hoffset]
      simp [Function.comp_def]
    · rw [hmore, fileBytes, List.map_drop]

/-- The same, of the stream that the reader reads. -/
theorem readEvents_spec {s : Tail f} (h : s.Files) {delivered : Nat} (hs : s.Stream delivered)
    (filterSince : Bool) :
    ∃ k, (s.readEvents filterSince).Files ∧ (s.readEvents filterSince).Stream (delivered + k) ∧
      (s.readEvents filterSince).yielded = s.yielded ++
        (((s.emitted.drop delivered).take k).filter
          fun line => !filterSince || f.passesSince line.event).map (·.event) ∧
      (10 : UInt8) ∉ (s.readEvents filterSince).pending ∧
      (s.readEvents filterSince).reader.fd = s.reader.fd ∧
      (s.readEvents filterSince).reader.currentInode = s.reader.currentInode := by
  cases hfd : s.reader.fd with
  | none =>
    have hread : s.readEvents filterSince = s.setPhase .check := by
      simp [readEvents, TailReader.readNewEvents, hfd, setPhase]
    rw [hread]
    refine ⟨0, ?_, ⟨hs.le, hs.bytes⟩, by simp [setPhase], ?_, hfd, rfl⟩
    · exact h.of_reader rfl rfl rfl rfl rfl h.checked_le
        (fun inode heq => ⟨h.fd_lt inode heq, h.offset_le inode heq⟩) h.buf_free
    · simp [pending, setPhase, hfd]
  | some inode =>
    have hbytes := hs.bytes
    simp only [pending, unread, hfd] at hbytes
    rw [List.append_assoc] at hbytes
    obtain ⟨k, buf, hread, hk, hmore, hfree⟩ := readNewEvents_spec hfd
      (h.offset_le inode hfd) hbytes filterSince
    rw [List.length_drop] at hk
    have hle := hs.le
    have hpending : (s.readEvents filterSince).pending = buf := by
      simp [pending, unread, readEvents, hread, hfd]
    refine ⟨k, ?_, ⟨?_, ?_⟩, ?_, hpending ▸ hfree, ?_, ?_⟩
    · refine h.of_reader rfl rfl rfl rfl rfl h.checked_le (fun other heq => ?_) ?_
      · simp only [readEvents, hread] at heq ⊢
        obtain rfl := Option.some.inj (hfd ▸ heq)
        exact ⟨h.fd_lt _ hfd, Nat.le_refl _⟩
      · simpa only [readEvents, hread] using hfree
    · show delivered + k ≤ s.emitted.length
      omega
    · have hahead : (s.readEvents filterSince).ahead = s.ahead := by
        simp [ahead, pathBytes, readEvents, hread]
      rw [hpending, hahead, List.append_assoc]
      rw [List.drop_drop] at hmore
      exact hmore
    · simp only [readEvents, hread]
    · simp only [readEvents, hread, hfd]
    · simp only [readEvents, hread]

/-- The first read, that no event emitted since the open is filtered by. -/
theorem Shown.of_firstRead {s : Tail f} {opened delivered k : Nat} (hle : delivered ≤ opened)
    {p : EmittedLine f → Bool}
    (hpass : ∀ line ∈ (s.emitted.take (delivered + k)).drop opened, p line = true)
    (hyielded : s.yielded = (((s.emitted.drop delivered).take k).filter p).map (·.event))
    (hdelivered : delivered ≤ s.emitted.length) : s.Shown opened (delivered + k) := by
  have hsplit : s.emitted.take (delivered + k) =
      s.emitted.take delivered ++ (s.emitted.drop delivered).take k := List.take_add
  have hlength : (s.emitted.take delivered).length = delivered := List.length_take_of_le hdelivered
  have hdrop : (s.emitted.take (delivered + k)).drop opened =
      ((s.emitted.drop delivered).take k).drop (opened - delivered) := by
    rw [hsplit, List.drop_append, hlength, List.drop_eq_nil_of_le (by omega), List.nil_append]
  refine ⟨(((s.emitted.drop delivered).take k).take (opened - delivered)).filter p, ?_, ?_⟩
  · rw [hsplit, List.take_append, hlength]
    exact List.filter_sublist.trans (List.sublist_append_right _ _)
  · rw [hyielded, hdrop]
    rw [hdrop] at hpass
    congr 1
    conv_lhs => rw [← List.take_append_drop (opened - delivered)
      ((s.emitted.drop delivered).take k), List.filter_append]
    rw [List.filter_eq_self.mpr hpass]

/-- A later read. -/
theorem Shown.extend {s s' : Tail f} {opened delivered k : Nat} (h : s.Shown opened delivered)
    (hemitted : s'.emitted = s.emitted) (hdelivered : delivered ≤ s.emitted.length)
    (hyielded : s'.yielded = s.yielded ++ ((s.emitted.drop delivered).take k).map (·.event)) :
    s'.Shown opened (delivered + k) := by
  obtain ⟨old, hold, hs⟩ := h
  have hsplit : s.emitted.take (delivered + k) =
      s.emitted.take delivered ++ (s.emitted.drop delivered).take k := List.take_add
  have hlength : (s.emitted.take delivered).length = delivered := List.length_take_of_le hdelivered
  refine ⟨old ++ ((s.emitted.drop delivered).take k).take (opened - delivered), ?_, ?_⟩
  · rw [hemitted, hsplit, List.take_append, hlength]
    exact hold.append (List.Sublist.refl _)
  · rw [hyielded, hs, hemitted, hsplit, List.drop_append, hlength, ← List.map_append]
    congr 1
    by_cases hle : opened ≤ delivered
    · simp [Nat.sub_eq_zero_of_le hle]
    · have hnone : (s.emitted.take delivered).drop opened = [] :=
        List.drop_eq_nil_of_le (by omega)
      rw [hnone, List.append_nil, List.nil_append, List.append_assoc, List.take_append_drop]

theorem fileBytes_drop_le (lines : List (EmittedLine f)) {k c : Nat} (h : k ≤ c) :
    (fileBytes (lines.drop c)).length ≤ (fileBytes (lines.drop k)).length := by
  simp only [fileBytes, List.map_drop]
  exact length_unlines_drop_le _ h

/-- What the reader has delivered, when no more than `checked` on is ahead of it. -/
theorem Stream.le_of_rest {s : Tail f} {delivered checked : Nat} (hs : s.Stream delivered)
    (hfree : (10 : UInt8) ∉ s.pending) (hchecked : checked ≤ s.emitted.length)
    (hrest : (s.ahead ++ s.unwritten).length ≤ (fileBytes (s.emitted.drop checked)).length) :
    checked ≤ delivered := by
  have hbytes := hs.bytes
  rw [List.append_assoc] at hbytes
  simp only [fileBytes, List.map_drop] at hbytes hrest
  exact le_of_length_le hbytes hfree (by simpa using hchecked) hrest

/-- The check before a poll, where a switch leaves nothing unread. -/
theorem checkRotation_spec {s : Tail f} (h : s.Files) {opened delivered : Nat}
    (hs : s.Following opened delivered) (hinode : s.reader.currentInode = s.reader.fd)
    (hswitch : s.path ≠ s.reader.currentInode → s.unread = []) :
    s.checkRotation.Files ∧ s.checkRotation.Reading := by
  have hnone : s.path ≠ s.reader.fd → s.pending = [] := fun hpath =>
    hs.stream.pending_eq_nil h hpath (hswitch (hinode ▸ hpath))
  cases hpath : s.path with
  | none =>
    have hcheck : s.checkRotation = { s with
        checkedUpTo := s.completed
        reader := { s.reader.closeFd with phase := .read } } := by
      simp [checkRotation, hpath]
    rw [hcheck]
    have hpending : s.pending = [] := by
      cases hfd : s.reader.fd with
      | none => simp [pending, hfd]
      | some fd => exact hnone (by simp [hpath, hfd])
    have hahead : s.ahead = [] := by simp [ahead, pathBytes, hpath]
    refine ⟨h.of_reader rfl rfl rfl rfl rfl (Nat.le_refl _) (fun _ heq => by cases heq)
      List.not_mem_nil, opened, delivered, ⟨hs.openedAt, hs.opened_le, ⟨hs.stream.le, ?_⟩,
      hs.shown, hs.polled_le⟩, rfl, ?_⟩
    · have hbytes := hs.stream.bytes
      rw [hpending, hahead] at hbytes
      simpa [pending, ahead, TailReader.closeFd, hpath, unwritten] using hbytes
    · simpa [ahead, TailReader.closeFd, hpath, unwritten] using h.unwritten_le
  | some inode =>
    by_cases hsame : some inode = s.reader.currentInode
    · have hcheck : s.checkRotation = { s with
          checkedUpTo := s.completed
          reader := { s.reader with phase := .read } } := by
        simp [checkRotation, hpath, ← hsame, setPhase]
      rw [hcheck]
      have hfd : s.path = s.reader.fd := by rw [hpath, hsame, hinode]
      refine ⟨h.of_reader rfl rfl rfl rfl rfl (Nat.le_refl _)
        (fun fd heq => ⟨h.fd_lt fd heq, h.offset_le fd heq⟩) h.buf_free, opened, delivered,
        ⟨hs.openedAt, hs.opened_le, ⟨hs.stream.le, hs.stream.bytes⟩, hs.shown, hs.polled_le⟩,
        hinode, ?_⟩
      simpa [ahead, hfd, unwritten] using h.unwritten_le
    · have hcheck : s.checkRotation = { s with
          checkedUpTo := s.completed
          reader := { s.reader with fd := none, phase := .reopening inode } } := by
        simp [checkRotation, hpath, hsame]
      rw [hcheck]
      have hfd : some inode ≠ s.reader.fd := hinode ▸ hsame
      refine ⟨h.of_reader rfl rfl rfl rfl rfl (Nat.le_refl _) (fun _ heq => by cases heq)
        h.buf_free, opened, delivered, ⟨hs.openedAt, hs.opened_le, ⟨hs.stream.le, ?_⟩,
        hs.shown, hs.polled_le⟩, rfl, hpath⟩
      have hbytes := hs.stream.bytes
      rw [hnone (hpath ▸ hfd)] at hbytes
      simpa [pending, ahead, pathBytes, hfd, hpath, unwritten] using hbytes

/-- The file at the path is opened, before it is read. -/
theorem stream_openFd {s : Tail f} {fd : Nat} (hpath : s.path = some fd) (inode : Nat)
    (phase : Phase) {start : Nat} (hle : start ≤ s.emitted.length)
    (hfile : s.pathBytes ++ s.unwritten = fileBytes (s.emitted.drop start)) :
    ({ s with reader := { s.reader.openFd fd inode with phase := phase } } : Tail f).Stream
      start := by
  refine ⟨hle, ?_⟩
  simpa [pending, unread, ahead, pathBytes, TailReader.openFd, hpath, unwritten] using hfile

theorem files_openFd {s : Tail f} (h : s.Files) {fd inode : Nat} (hpath : s.path = some fd)
    (phase : Phase) (openedAt : Option Nat) : ({ s with
      reader := { s.reader.openFd fd inode with phase := phase }
      openedAt := openedAt } : Tail f).Files :=
  h.of_reader rfl rfl rfl rfl rfl h.checked_le
    (fun _ heq => by
      obtain rfl := Option.some.inj heq
      exact ⟨h.path_lt _ hpath, Nat.zero_le _⟩)
    List.not_mem_nil

theorem stat_reading {s : Tail f} (h : s.Files) (hs : s.Reading) {maxBytes : Nat}
    (hallowed : s.Undisturbed maxBytes (.stat : Action f)) {s' : Tail f}
    (hstep : s.step maxBytes .stat = some s') : s'.Files ∧ s'.Reading := by
  simp only [step] at hstep
  split at hstep
  · next hphase =>
    have hunopened : s.Unopened := by simpa only [Reading, hphase] using hs
    split at hstep
    · obtain rfl := Option.some.inj hstep
      exact ⟨h, hs⟩
    · next inode hpath =>
      obtain rfl := Option.some.inj hstep
      refine ⟨h.of_reader rfl rfl rfl rfl rfl h.checked_le
        (fun fd heq => ⟨h.fd_lt fd heq, h.offset_le fd heq⟩) h.buf_free, ?_⟩
      exact ⟨⟨hunopened.openedAt, hunopened.fd, hunopened.yielded, hunopened.polled⟩, hpath⟩
  · next hphase =>
    obtain rfl := Option.some.inj hstep
    simp only [Reading, hphase] at hs
    obtain ⟨opened, delivered, hs, hinode⟩ := hs
    exact checkRotation_spec h hs hinode (hallowed hphase)
  · cases hstep

theorem openPath_reading {s : Tail f} (h : s.Files) (hs : s.Reading) {maxBytes : Nat}
    {s' : Tail f} (hstep : s.step maxBytes .openPath = some s') : s'.Files ∧ s'.Reading := by
  simp only [step] at hstep
  split at hstep
  · next inode hphase hpath =>
    simp only [Reading, hphase, hpath] at hs
    exact absurd hs.2 (by simp)
  · next inode fd hphase hpath =>
    obtain rfl := Option.some.inj hstep
    simp only [Reading, hphase] at hs
    obtain ⟨hunopened, hinode⟩ := hs
    obtain rfl : fd = inode := by simpa [hpath] using hinode
    obtain ⟨fileStart, hle, hfile⟩ := h.file
    have hstream := stream_openFd hpath fd .firstRead hle hfile
    refine ⟨files_openFd h hpath _ _, s.emitted.length, fileStart, ⟨rfl, Nat.le_refl _,
      ⟨hstream.le, hstream.bytes⟩, ⟨[], List.nil_sublist _, ?_⟩, ?_⟩, rfl, hunopened.yielded, hle⟩
    · rw [List.drop_eq_nil_of_le (by simp)]
      exact hunopened.yielded
    · show s.polledUpTo ≤ fileStart
      rw [hunopened.polled]
      exact Nat.zero_le _
  · next inode hphase hpath =>
    simp only [Reading, hphase, hpath] at hs
    obtain ⟨_, _, _, _, hnone⟩ := hs
    cases hnone
  · next inode fd hphase hpath =>
    obtain rfl := Option.some.inj hstep
    simp only [Reading, hphase] at hs
    obtain ⟨opened, delivered, hs, hfd, hinode⟩ := hs
    obtain rfl : fd = inode := by simpa [hpath] using hinode
    have hfile : s.pathBytes ++ s.unwritten = fileBytes (s.emitted.drop delivered) := by
      simpa [pending, ahead, hfd, hpath] using hs.stream.bytes
    have hstream := stream_openFd hpath fd .read hs.stream.le hfile
    refine ⟨files_openFd h hpath _ _, opened, delivered, ⟨hs.openedAt, hs.opened_le, hstream,
      hs.shown, hs.polled_le⟩, rfl, ?_⟩
    have hrest := Nat.le_trans h.unwritten_le (fileBytes_drop_le s.emitted h.checked_le)
    simpa [ahead, TailReader.openFd, hpath, unwritten] using hrest
  · cases hstep

theorem read_reading {s : Tail f} (h : s.Files) (hs : s.Reading) {maxBytes : Nat}
    (hallowed : s.Undisturbed maxBytes (.read : Action f)) {s' : Tail f}
    (hstep : s.step maxBytes .read = some s') : s'.Files ∧ s'.Reading := by
  simp only [step] at hstep
  split at hstep
  · next hphase =>
    obtain rfl := Option.some.inj hstep
    simp only [Reading, hphase] at hs
    obtain ⟨opened, delivered, hs, hinode, hyielded, hle⟩ := hs
    obtain ⟨k, hfiles, hstream, hevents, -, hfd, hcurrent⟩ := readEvents_spec h hs.stream true
    refine ⟨hfiles, opened, delivered + k, ⟨hs.openedAt, hs.opened_le, hstream, ?_,
      Nat.le_add_right_of_le hs.polled_le⟩, by rw [hcurrent, hfd, hinode]⟩
    refine Shown.of_firstRead hle (fun line hmem => ?_) (hyielded ▸ hevents) hs.stream.le
    have hcompleted : delivered + k ≤ s.completed := hstream.le_completed hfiles
    have hmem' : line ∈ (s.emitted.take s.completed).drop opened :=
      ((List.take_sublist_take_left hcompleted).drop opened).subset hmem
    simpa using hallowed hphase opened hs.openedAt line hmem'
  · next hphase =>
    obtain rfl := Option.some.inj hstep
    simp only [Reading, hphase] at hs
    obtain ⟨opened, delivered, hs, hinode, hrest⟩ := hs
    obtain ⟨k, hfiles, hstream, hevents, hfree, hfd, hcurrent⟩ :=
      readEvents_spec h hs.stream false
    have hchecked : s.checkedUpTo ≤ s.emitted.length :=
      Nat.le_trans h.checked_le s.completed_le
    have hahead : (s.readEvents false).ahead = s.ahead := by
      unfold ahead
      rw [hfd]
      rfl
    refine ⟨hfiles.of_reader rfl rfl rfl rfl rfl hfiles.checked_le
      (fun fd heq => ⟨hfiles.fd_lt fd heq, hfiles.offset_le fd heq⟩) hfiles.buf_free, opened,
      delivered + k, ⟨hs.openedAt, hs.opened_le, ⟨hstream.le, hstream.bytes⟩, ?_, ?_⟩,
      by rw [hcurrent, hfd, hinode]⟩
    · exact hs.shown.extend rfl hs.stream.le (by simpa using hevents)
    · exact hstream.le_of_rest hfree hchecked (hahead ▸ hrest)
  · cases hstep

/-- Every step of an undisturbed run keeps what holds of the reader. -/
theorem step_reading {s : Tail f} (h : s.Files) (hs : s.Reading) {maxBytes : Nat}
    {a : Action f} (hallowed : s.Undisturbed maxBytes a) {s' : Tail f}
    (hstep : s.step maxBytes a = some s') : s'.Files ∧ s'.Reading := by
  cases a with
  | emit line =>
    simp only [step] at hstep
    split at hstep
    · next hidle =>
      obtain rfl := Option.some.inj hstep
      exact ⟨h.emit hidle maxBytes line, (busMoves_emit hidle hallowed).reading
        (Nat.le_trans h.checked_le s.completed_le) hs⟩
    · cases hstep
  | append =>
    simp only [step] at hstep
    split at hstep
    · next line hopening =>
      obtain rfl := Option.some.inj hstep
      exact ⟨h.openToAppend hopening, (busMoves_openToAppend h hopening).reading
        (Nat.le_trans h.checked_le s.completed_le) hs⟩
    · cases hstep
  | write n =>
    simp only [step] at hstep
    split at hstep
    · next inode rest hwriting =>
      obtain rfl := Option.some.inj hstep
      exact ⟨h.write hwriting n, (busMoves_write h hwriting n).reading
        (Nat.le_trans h.checked_le s.completed_le) hs⟩
    · cases hstep
  | stat => exact stat_reading h hs hallowed hstep
  | openPath => exact openPath_reading h hs hstep
  | read => exact read_reading h hs hallowed hstep

theorem files_start : (start : Tail f).Files where
  path_lt _ heq := by cases heq
  fd_lt _ heq := by cases heq
  offset_le _ heq := by cases heq
  buf_free := List.not_mem_nil
  opening_ne _ heq := by cases heq
  writing _ _ heq := by cases heq
  busy hne := absurd rfl hne
  unwritten_le := Nat.zero_le _
  file := ⟨0, Nat.le_refl _, rfl⟩
  checked_le := Nat.le_refl _

/-! ## Whole runs -/

theorem Reading.following {s : Tail f} (hs : s.Reading) {opened : Nat}
    (hopened : s.openedAt = some opened) : ∃ delivered, s.Following opened delivered := by
  have hsame : ∀ other delivered, s.Following other delivered →
      ∃ delivered, s.Following opened delivered := by
    intro other delivered h
    obtain rfl : other = opened := Option.some.inj (h.openedAt ▸ hopened)
    exact ⟨delivered, h⟩
  unfold Reading at hs
  split at hs
  · exact absurd hs.openedAt (by simp [hopened])
  · exact absurd hs.1.openedAt (by simp [hopened])
  all_goals
    obtain ⟨other, delivered, h, -⟩ := hs
    exact hsame other delivered h

theorem Following.tailed {s : Tail f} {opened delivered : Nat}
    (h : s.Following opened delivered) : ∃ old k,
      old.Sublist ((s.emitted.take opened).map (·.event)) ∧
      s.yielded = old ++ ((s.emitted.drop opened).take k).map (·.event) ∧
      s.polledUpTo ≤ opened + k := by
  obtain ⟨old, hold, hyielded⟩ := h.shown
  refine ⟨old.map (·.event), delivered - opened, ?_, ?_, ?_⟩
  · rw [List.take_take] at hold
    exact (hold.trans (List.take_sublist_take_left (Nat.min_le_left _ _))).map _
  · rw [hyielded, List.map_append, List.drop_take]
  · have := h.polled_le
    omega

theorem reading_of_undisturbed {maxBytes : Nat} {s : Tail f}
    (h : Reaches (step maxBytes) (Undisturbed maxBytes) start s) : s.Files ∧ s.Reading :=
  Reaches.invariant (step maxBytes) (I := fun s => s.Files ∧ s.Reading)
    ⟨files_start, rfl, rfl, rfl, rfl⟩
    (fun hs hallowed hstep => step_reading hs.1 hs.2 hallowed hstep) h

/-- A run in which no rotation disturbs the reader loses and repeats nothing. -/
theorem tailed_of_undisturbed (maxBytes : Nat) (s : Tail f)
    (h : Reaches (step maxBytes) (Undisturbed maxBytes) start s) : s.Tailed := by
  intro opened hopened
  obtain ⟨delivered, hs⟩ := (reading_of_undisturbed h).2.following hopened
  exact hs.tailed

/-! ## Runs of three events -/

instance (maxBytes : Nat) (s : Tail f) : DecidablePred (s.Undisturbed maxBytes)
  | .emit _ => inferInstanceAs (Decidable (_ → _))
  | .stat => inferInstanceAs (Decidable (_ → _ → _))
  | .read => inferInstanceAs (Decidable (_ → ∀ o ∈ s.openedAt, ∀ line ∈ _, _))
  | .append | .write _ | .openPath => inferInstanceAs (Decidable True)

instance (maxBytes : Nat) (s : Tail f) : DecidablePred (s.OneRotation maxBytes)
  | .emit _ => inferInstanceAs (Decidable (_ → _))
  | .append | .write _ | .stat | .openPath | .read => inferInstanceAs (Decidable True)

/-- Every line is its own event. -/
def plainFormat : LineFormat Bytes where
  parseLine := some
  passesSince _ := true

/-- A line of one character that is not the newline. -/
def plainLine (c : UInt8) (h : c ≠ 10) : EmittedLine plainFormat where
  event := [c]
  json := [c]
  newlineFree := by simpa using h.symm
  parses := rfl

def emitPlain (c : UInt8) (h : c ≠ 10) : List (Action plainFormat) :=
  [.emit (plainLine c h), .append, .write 1, .write 1]

/-- A file of one event is opened and read. -/
def opened : List (Action plainFormat) := emitPlain 97 (by decide) ++ [.stat, .openPath, .read]

/-- A run with a rotation after the reader has read the whole file, and a line seen in two
halves. -/
theorem tailed_of_undisturbed_plain : ∃ s : Tail plainFormat,
    Reaches (step 4) (Undisturbed 4) start s ∧
    (s.yielded = [[97], [98], [99]] ∧ s.polledUpTo = 3 ∧ s.rotations = 0) ∧ s.Tailed := by
  obtain ⟨s, hs, hyielded⟩ := Reaches.exists_of_trace (step 4) (Undisturbed 4) start
    (opened ++ emitPlain 98 (by decide) ++ [.stat, .read] ++ emitPlain 99 (by decide) ++
      [.stat, .openPath, .read])
    (P := fun s : Tail plainFormat =>
      s.yielded = [[97], [98], [99]] ∧ s.polledUpTo = 3 ∧ s.rotations = 0) (by decide)
  exact ⟨s, hs, hyielded, tailed_of_undisturbed 4 s hs⟩

/-- The same without the poll before the rotation: the second event is lost. -/
theorem not_tailed_of_oneRotation : ¬ ∀ (ε : Type) (f : LineFormat ε) (maxBytes : Nat)
    (s : Tail f), Reaches (step maxBytes) (OneRotation maxBytes) start s → s.Tailed := by
  intro h
  obtain ⟨s, hs, hopened, hyielded, hemitted, hpolled⟩ :=
    Reaches.exists_of_trace (step 4) (OneRotation 4) start
    (opened ++ emitPlain 98 (by decide) ++ emitPlain 99 (by decide) ++ [.stat, .openPath, .read])
    (P := fun s : Tail plainFormat => s.openedAt = some 1 ∧ s.yielded = [[97], [99]] ∧
      (s.emitted.map (·.event)) = [[97], [98], [99]] ∧ s.polledUpTo = 3) (by decide)
  obtain ⟨old, k, -, hshown, hk⟩ := h Bytes plainFormat 4 s hs 1 hopened
  have hlength : s.emitted.length = 3 := by simpa using congrArg List.length hemitted
  rw [List.take_of_length_le (by rw [List.length_drop]; omega), List.map_drop, hemitted,
    hyielded] at hshown
  have hlost : ([98] : Bytes) ∈ ([[97], [99]] : List Bytes) := by
    rw [hshown]
    simp
  exact absurd hlost (by decide)

end Tail

end SchemaBrain.Observability
