import Whusp.Fs.PipeRing
import Whusp.Lib.Transition

/-!
# Pipes and their wait queues

`fs/pipe.rs`: reads and writes that sleep in a queue of the pipe, `tee` that sleeps in a queue of
either of its two pipes, `splice` that never sleeps, the close of an end, and signals.

One step is one section under the ring lock, or under both locks for `splice` and `tee`.  A
transfer takes one task off the queue of the other side and makes it runnable; the task then takes
the lock again and tries once more.  A signal makes a sleeping task runnable too, but its entry
stays in the queue, so an entry may be one of a task that no longer sleeps there.

The last reference to an end and the section of its `Drop` are one step; poll waiters are left out.
-/

namespace Whusp.Fs.Pipe

open Function List

open Whusp.Lib (Byte System)

/-! ## User buffers -/

namespace PipeRingBuffer

/-- The copy loop of a read: `left` bytes to go, into segments of the given lengths. -/
def readSegments : PipeRingBuffer → List Nat → Nat → PipeRingBuffer × List Byte
  | r, [], _ => (r, [])
  | r, segment :: segments, left =>
    if left = 0 then (r, [])
    else
      let (r, data) := r.readInto (min segment left)
      let (r, rest) := readSegments r segments (left - data.length)
      (r, data ++ rest)

/-- The copy loop of a write of `writeLen` bytes from behind the first `already` of the segments. -/
def writeSegments (already writeLen : Nat) :
    PipeRingBuffer → List (List Byte) → Nat → Nat → PipeRingBuffer × Nat
  | r, [], _, written => (r, written)
  | r, segment :: segments, skipped, written =>
    if skipped + segment.length ≤ already then
      writeSegments already writeLen r segments (skipped + segment.length) written
    else
      let source := segment.drop (already - skipped)
      let len := min source.length (writeLen - written)
      let (r, n) := r.writeFrom (source.take len)
      let written := written + n
      if written = writeLen then (r, written)
      else writeSegments already writeLen r segments (skipped + segment.length) written

theorem readSegments_spec {r : PipeRingBuffer} (h : r.Ok) {segments : List Nat} {left : Nat}
    (havail : left ≤ r.availableRead) (hleft : left ≤ segments.sum) :
    (r.readSegments segments left).1.Ok ∧ (r.readSegments segments left).1.capacity = r.capacity ∧
      (r.readSegments segments left).1.bytes = r.bytes.drop left ∧
      (r.readSegments segments left).2 = r.bytes.take left := by
  induction segments generalizing r left with
  | nil =>
    obtain rfl : left = 0 := by simpa using hleft
    exact ⟨h, rfl, by simp [readSegments], by simp [readSegments]⟩
  | cons segment segments ih =>
    unfold readSegments
    split
    next hzero =>
      subst hzero
      exact ⟨h, rfl, by simp, by simp⟩
    obtain ⟨hdata, hok, hcap, hbytes⟩ := readInto_spec h (min segment left)
    have hlen : (r.readInto (min segment left)).2.length = min segment left := by
      rw [hdata, length_take, length_bytes]
      omega
    have hrest : (r.readInto (min segment left)).1.availableRead =
        r.availableRead - min segment left := by
      rw [← length_bytes, hbytes, length_drop, length_bytes]
    have hsum : segment + segments.sum = (segment :: segments).sum := by simp
    obtain ⟨h₁, h₂, h₃, h₄⟩ := ih hok
      (show left - (r.readInto (min segment left)).2.length ≤ _ by omega) (by omega)
    refine ⟨h₁, h₂.trans hcap, ?_, ?_⟩
    · rw [h₃, hbytes, hlen, drop_drop]
      simp
    · dsimp only
      rw [h₄, hbytes, hlen, hdata, ← take_add]
      simp

/-- The bytes behind the first `already`, when the segments start `skipped` bytes in. -/
theorem writeSegments_spec {r : PipeRingBuffer} (h : r.Ok) {segments : List (List Byte)}
    {already writeLen : Nat} (skipped written : Nat) (hwritten : written < writeLen)
    (hroom : r.availableRead + (writeLen - written) ≤ r.capacity)
    (hdata : writeLen - written ≤ (segments.flatten.drop (already - skipped)).length) :
    (writeSegments already writeLen r segments skipped written).1.Ok ∧
      (writeSegments already writeLen r segments skipped written).1.capacity = r.capacity ∧
      (writeSegments already writeLen r segments skipped written).2 = writeLen ∧
      (writeSegments already writeLen r segments skipped written).1.bytes =
        r.bytes ++ (segments.flatten.drop (already - skipped)).take (writeLen - written) := by
  induction segments generalizing r skipped written with
  | nil => simp at hdata; omega
  | cons segment segments ih =>
    have hflat : (segment :: segments).flatten = segment ++ segments.flatten := by simp
    unfold writeSegments
    split
    · -- this segment has been written before
      have hdrop : (segment :: segments).flatten.drop (already - skipped) =
          segments.flatten.drop (already - (skipped + segment.length)) := by
        rw [hflat, drop_append, drop_eq_nil_of_le (by omega), nil_append]
        congr 1
        omega
      rw [hdrop] at hdata ⊢
      exact ih h _ written hwritten hroom hdata
    · set source := segment.drop (already - skipped) with hsource
      set len := min source.length (writeLen - written) with hlen
      have hdrop : (segment :: segments).flatten.drop (already - skipped) =
          source ++ segments.flatten := by
        rw [hflat, drop_append_of_le_length (by omega)]
      have htake : (source.take len).length = len := length_take_of_le (by omega)
      obtain ⟨hn, hok, hcap, hbytes⟩ := writeFrom_spec h (source.take len)
      have hn : (r.writeFrom (source.take len)).2 = len := by omega
      rw [hn, take_of_length_le (Nat.le_of_eq htake)] at hbytes
      rw [hdrop] at hdata ⊢
      dsimp only
      rw [hn]
      split
      · -- all is written
        rename_i hall
        refine ⟨hok, hcap, hall, ?_⟩
        rw [hbytes, take_append_of_le_length (by omega)]
        congr 2
        omega
      · have havail : (r.writeFrom (source.take len)).1.availableRead = r.availableRead + len := by
          rw [← length_bytes, hbytes, length_append, length_bytes, htake]
        have hzero : already - (skipped + segment.length) = 0 := by omega
        have hrest := ih hok (skipped + segment.length) (written + len) (by omega)
          (by omega) (by
            rw [hzero, drop_zero]
            rw [length_append] at hdata
            omega)
        obtain ⟨h₁, h₂, h₃, h₄⟩ := hrest
        refine ⟨h₁, h₂.trans hcap, h₃, ?_⟩
        rw [h₄, hbytes, hzero, drop_zero, append_assoc, take_append,
          take_of_length_le (show source.length ≤ len by omega),
          take_of_length_le (show source.length ≤ writeLen - written by omega)]
        congr 3
        omega

end PipeRingBuffer

/-! ## The state -/

/-- The two ends of a pipe, and the two wait queues. -/
inductive Side where
  | reader
  | writer
  deriving DecidableEq

def Side.peer : Side → Side
  | .reader => .writer
  | .writer => .reader

/-- A `PipeRingBuffer` with its ends and queues. -/
structure PipeState where
  ring : PipeRingBuffer
  /-- Whether `read_end` and `write_end` can be upgraded. -/
  endOpen : Side → Bool
  waitQueue : Side → List Nat

/-- A call that may sleep, between two sections of it. -/
inductive Op where
  /-- `read_with_status_flags`, into segments of the given lengths. -/
  | read (pipe : Nat) (segments : List Nat)
  /-- `write_with_status_flags`, of which `already` bytes are done. -/
  | write (pipe : Nat) (segments : List (List Byte)) (already : Nat) (nonblock : Bool)
  | tee (pipe out len : Nat)
  deriving DecidableEq

inductive TaskState where
  | idle
  /-- About to take the lock; not by a wakeup from the queue. -/
  | entering (op : Op)
  | blocked (op : Op) (pipe : Nat) (side : Side)
  /-- Taken off the queue to be woken up, and has not taken the lock since. -/
  | dequeued (op : Op) (pipe : Nat) (side : Side)

structure State where
  pipes : Nat → PipeState
  tasks : Nat → TaskState

def TaskState.blockedAt (x : TaskState) (p : Nat) (side : Side) : Bool :=
  match x with
  | .blocked _ p' side' => decide (p' = p) && decide (side' = side)
  | _ => false

def TaskState.dequeuedAt (x : TaskState) (p : Nat) (side : Side) : Bool :=
  match x with
  | .dequeued _ p' side' => decide (p' = p) && decide (side' = side)
  | _ => false

/-- The call whose next section a task can run. -/
def TaskState.next : TaskState → Option Op
  | .entering op => some op
  | .dequeued op _ _ => some op
  | _ => none

namespace State

def setTask (s : State) (t : Nat) (x : TaskState) : State :=
  { s with tasks := update s.tasks t x }

def setRing (s : State) (p : Nat) (r : PipeRingBuffer) : State :=
  { s with pipes := update s.pipes p { s.pipes p with ring := r } }

def setQueue (s : State) (p : Nat) (side : Side) (queue : List Nat) : State :=
  { s with
    pipes := update s.pipes p
      { s.pipes p with waitQueue := update (s.pipes p).waitQueue side queue } }

/-- A task is taken off a queue; if it sleeps there, it is on its way to the lock. -/
def dequeue (s : State) (p : Nat) (side : Side) (t : Nat) : State :=
  match s.tasks t with
  | .blocked op p' side' =>
    if p' = p ∧ side' = side then s.setTask t (.dequeued op p side) else s
  | _ => s

/-- A task that still sleeps, somewhere else, wakes up for nothing. -/
def wakeupTask (s : State) (t : Nat) : State :=
  match s.tasks t with
  | .blocked op _ _ => s.setTask t (.entering op)
  | _ => s

/-- `wake_reader` and `wake_writer`. -/
def popFront (s : State) (p : Nat) (side : Side) : Option Nat × State :=
  match (s.pipes p).waitQueue side with
  | [] => (none, s)
  | t :: queue => (some t, (s.setQueue p side queue).dequeue p side t)

def wakeTask (s : State) : Option Nat → State
  | none => s
  | some t => s.wakeupTask t

/-- `wake_all_readers` and `wake_all_writers`, with the wakeups. -/
def wakeAll (s : State) (p : Nat) (side : Side) : State :=
  ((s.pipes p).waitQueue side).foldl (fun s t => (s.dequeue p side t).wakeupTask t)
    (s.setQueue p side [])

/-- `sleep_reader` and `sleep_writer`. -/
def sleep (s : State) (t : Nat) (op : Op) (p : Nat) (side : Side) : State :=
  (s.setQueue p side ((s.pipes p).waitQueue side ++ [t])).setTask t (.blocked op p side)

/-- A round of `read_with_status_flags`. -/
def readRound (s : State) (t p : Nat) (segments : List Nat) (interrupted : Bool) : State :=
  let pipe := s.pipes p
  let loopRead := min pipe.ring.availableRead segments.sum
  if loopRead = 0 then
    if pipe.endOpen .writer = false then s.setTask t .idle
    else if interrupted then s.setTask t .idle
    else s.sleep t (.read p segments) p .reader
  else
    let ring := (pipe.ring.readSegments segments loopRead).1
    let (writer, s) := ((s.setRing p ring).setTask t .idle).popFront p .writer
    s.wakeTask writer

/-- A round of `write_with_status_flags`. -/
def writeRound (s : State) (t p : Nat) (segments : List (List Byte)) (already : Nat)
    (nonblock interrupted : Bool) : State :=
  let pipe := s.pipes p
  if pipe.endOpen .reader = false then s.setTask t .idle
  else
    let loopWrite := pipe.ring.availableWrite
    if loopWrite = 0 then
      if nonblock then s.setTask t .idle
      else if interrupted then s.setTask t .idle
      else s.sleep t (.write p segments already nonblock) p .writer
    else
      let writeLen := min loopWrite (segments.flatten.length - already)
      let (ring, written) := pipe.ring.writeSegments already writeLen segments 0 0
      let already := already + written
      let next := if already = segments.flatten.length then .idle
        else .entering (.write p segments already nonblock)
      let (reader, s) := ((s.setRing p ring).setTask t next).popFront p .reader
      s.wakeTask reader

/-- A round of `tee_pipe_to_pipe`. -/
def teeRound (s : State) (t p out len : Nat) (interrupted : Bool) : State :=
  if (s.pipes p).ring.availableRead = 0 then
    if (s.pipes p).endOpen .writer = false ∨ interrupted then s.setTask t .idle
    else s.sleep t (.tee p out len) p .reader
  else if (s.pipes out).ring.availableWrite = 0 then
    if (s.pipes out).endOpen .reader = false ∨ interrupted then s.setTask t .idle
    else s.sleep t (.tee p out len) out .writer
  else
    let (ring, copied) := (s.pipes p).ring.duplicateTo (s.pipes out).ring len
    let s := (s.setRing out ring).setTask t .idle
    if 0 < copied then
      let (reader, s) := s.popFront out .reader
      s.wakeTask reader
    else s

/-- `splice_pipe_to_pipe`. -/
def splice (s : State) (p out len : Nat) : State :=
  let (ring, outRing, moved) := (s.pipes p).ring.transferTo (s.pipes out).ring len
  let s := (s.setRing p ring).setRing out outRing
  if 0 < moved then
    let (writer, s) := s.popFront p .writer
    let (reader, s) := s.popFront out .reader
    (s.wakeTask writer).wakeTask reader
  else s

/-- The `Drop` of an end. -/
def close (s : State) (p : Nat) (side : Side) : State :=
  let pipe := s.pipes p
  let s := { s with
    pipes := update s.pipes p
      { pipe with endOpen := update pipe.endOpen side false } }
  s.wakeAll p side.peer

def round (s : State) (t : Nat) (op : Op) (interrupted : Bool) : State :=
  match op with
  | .read p segments => s.readRound t p segments interrupted
  | .write p segments already nonblock => s.writeRound t p segments already nonblock interrupted
  | .tee p out len => s.teeRound t p out len interrupted

end State

/-- A call that does anything: of an empty buffer it returns at once, and `tee` wants two pipes. -/
def Op.starts : Op → Bool
  | .read _ segments => decide (0 < segments.sum)
  | .write _ segments already _ => decide (0 < segments.flatten.length) && decide (already = 0)
  | .tee p out len => decide (p ≠ out) && decide (0 < len)

inductive Event where
  | call (t : Nat) (op : Op)
  /-- A task takes the lock; `interrupted` if it finds an interrupting signal when it looks. -/
  | enter (t : Nat) (interrupted : Bool)
  | splice (p out len : Nat)
  | close (p : Nat) (side : Side)
  /-- A signal wakes up a task that sleeps; its entry stays in the queue. -/
  | signal (t : Nat)

def State.step (s : State) : Event → Option State
  | .call t op =>
    match s.tasks t with
    | .idle => if op.starts then some (s.setTask t (.entering op)) else none
    | _ => none
  | .enter t interrupted =>
    match (s.tasks t).next with
    | some op => some (s.round t op interrupted)
    | none => none
  | .splice p out len => if p = out then none else some (s.splice p out len)
  | .close p side => if (s.pipes p).endOpen side then some (s.close p side) else none
  | .signal t =>
    match s.tasks t with
    | .blocked op _ _ => some (s.setTask t (.entering op))
    | _ => none

/-- Pipes as `make_pipe` leaves them, and no calls. -/
structure State.Initial (s : State) : Prop where
  pipes : ∀ p, ∃ capacity, s.pipes p = ⟨.new capacity, fun _ => true, fun _ => []⟩
  tasks : ∀ t, s.tasks t = .idle

def system : System State Event where
  init := State.Initial
  step := State.step

end Whusp.Fs.Pipe
