import Whusp.Fs.PipeBlocking

/-!
# Atomic writes

A write of at most one page should stand in one piece in what flows through a pipe, whatever the
other tasks do.  The ring forgets what was read, so the runs are recorded: beside the state stands,
for each pipe, everything that was ever added to it, byte by byte with the call it came from.
-/

namespace Whusp.Fs.Pipe

open Whusp.Lib (Byte System)
open Function PipeRingBuffer

attribute [local simp] State.setTask State.setRing State.setQueue State.sleep

/-! ## What a step adds -/

/-- The pipe that an event may add bytes to, and the bytes. -/
def State.adds (s : State) : Event → Nat × List Byte
  | .enter t _ =>
    match (s.tasks t).next with
    | some (.read p _) => (p, [])
    | some (.write p segments already _) =>
      (p, if (s.pipes p).endOpen .reader then
        (segments.flatten.drop already).take
          (min (s.pipes p).ring.availableWrite (segments.flatten.length - already)) else [])
    | some (.tee p out len) => (out, (s.pipes p).ring.bytes.take
        (min (min len (s.pipes p).ring.availableRead) (s.pipes out).ring.availableWrite))
    | none => (0, [])
  | .splice p out len => (out, (s.pipes p).ring.bytes.take
      (min (min len (s.pipes p).ring.availableRead) (s.pipes out).ring.availableWrite))
  | _ => (0, [])

/-- From `s` to `s'` bytes were read, and `bytes` were added to pipe `p`. -/
structure Effect (s s' : State) (p : Nat) (bytes : List Byte) : Prop where
  rings : ∀ q, (s'.pipes q).ring.Ok
  bytes : ∀ q, ∃ k, (s'.pipes q).ring.bytes =
    (s.pipes q).ring.bytes.drop k ++ if q = p then bytes else []

namespace Effect

variable {s s₁ s' : State} {p : Nat} {bytes : List Byte}

/-- A step that leaves the rings alone adds nothing. -/
lemma of_ring (hrings : ∀ q, (s.pipes q).ring.Ok)
    (h : ∀ q, (s'.pipes q).ring = (s.pipes q).ring) : Effect s s' p [] where
  rings q := h q ▸ hrings q
  bytes q := ⟨0, by simp [h q]⟩

/-- Wakeups add nothing to a ring. -/
lemma wakes (h : Effect s s₁ p bytes) (hw : Wakes s₁ s') : Effect s s' p bytes where
  rings q := hw.ring q ▸ h.rings q
  bytes q := hw.ring q ▸ h.bytes q

/-- A ring may lose bytes at the front and gains what is added. -/
lemma setRing (hrings : ∀ q, (s.pipes q).ring.Ok) {r : PipeRingBuffer} (hr : r.Ok) {k : Nat}
    (hbytes : r.bytes = (s.pipes p).ring.bytes.drop k ++ bytes) :
    Effect s (s.setRing p r) p bytes where
  rings q := by
    rcases eq_or_ne q p with rfl | hq
    · rwa [State.ring_setRing_self]
    · rw [State.ring_setRing_ne _ _ hq]
      exact hrings q
  bytes q := by
    rcases eq_or_ne q p with rfl | hq
    · exact ⟨k, by rw [State.ring_setRing_self, hbytes, if_pos rfl]⟩
    · exact ⟨0, by simp [hq]⟩

end Effect

/-- The call with `n` more bytes done. -/
def Op.advance (n : Nat) : Op → Op
  | .write p segments already nonblock => .write p segments (already + n) nonblock
  | op => op

/-- The call as it began. -/
def Op.begun : Op → Op
  | .write p segments _ nonblock => .write p segments 0 nonblock
  | op => op

variable {s s' : State} {t p : Nat} {e : Event} {op : Op} {interrupted : Bool}

lemma Op.advance_zero : op.advance 0 = op := by
  cases op <;> rfl

lemma Op.begun_advance (n : Nat) : (op.advance n).begun = op.begun := by
  cases op <;> rfl

/-- A round adds what `adds` says, and ends the call or leaves it with so much more done. -/
structure Round (s s' : State) (t : Nat) (op : Op) (adds : Nat × List Byte) : Prop where
  effect : Effect s s' adds.1 adds.2
  call : ∀ op', (s'.tasks t).call = some op' → op' = op.advance adds.2.length ∧ op'.Ok

namespace Round

variable {p q : Nat} {bytes : List Byte} {r : PipeRingBuffer} {x : TaskState}

section

variable (hrings : ∀ q, (s.pipes q).ring.Ok)
include hrings

/-- A call that ends without a transfer adds nothing. -/
lemma giveUp : Round s (s.setTask t .idle) t op (p, []) where
  effect := .of_ring hrings fun _ => rfl
  call op' h := by simp [TaskState.call] at h

lemma sleep (hok : op.Ok) (side : Side) : Round s (s.sleep t op q side) t op (p, []) where
  effect := .of_ring hrings fun p' => s.ring_sleep t op p' q side
  call op' h := by
    obtain rfl : op = op' := by simpa [TaskState.call] using h
    exact ⟨Op.advance_zero.symm, hok⟩

/-- A transfer adds its bytes and moves the call on by as many. -/
lemma transfer (hr : r.Ok) {k : Nat} (hbytes : r.bytes = (s.pipes p).ring.bytes.drop k ++ bytes)
    (hcall : ∀ op', x.call = some op' → op' = op.advance bytes.length ∧ op'.Ok) (side : Side) :
    let pop := ((s.setRing p r).setTask t x).popFront p side
    Round s (pop.2.wakeTask pop.1) t op (p, bytes) := by
  intro pop
  have hwakes : Wakes ((s.setRing p r).setTask t x) (pop.2.wakeTask pop.1) :=
    (Wakes.popFront _ p side).trans (Wakes.wakeTask _ _)
  have heffect : Effect s ((s.setRing p r).setTask t x) p bytes := by
    have h := Effect.setRing hrings hr hbytes
    exact ⟨h.rings, h.bytes⟩
  refine ⟨heffect.wakes hwakes, fun op' h => hcall op' ?_⟩
  rw [hwakes.call] at h
  simpa using h

end

end Round

namespace Round

variable (hrings : ∀ q, (s.pipes q).ring.Ok)
include hrings

/-- A read adds nothing. -/
lemma read {segments : List Nat} (hok : (Op.read p segments).Ok) :
    Round s (s.round t (.read p segments) interrupted) t (.read p segments) (p, []) := by
  simp only [State.round, State.readRound]
  split
  · split
    · exact .giveUp hrings
    · split
      · exact .giveUp hrings
      · exact .sleep hrings hok _
  · obtain ⟨hr, -, hbytes, -⟩ := readSegments_spec (hrings p)
      (show min (s.pipes p).ring.availableRead segments.sum ≤ _ from min_le_left _ _)
      (min_le_right _ segments.sum)
    exact .transfer hrings hr (by rw [hbytes, List.append_nil]) (fun _ h => by cases h) _

/-- A write adds the next bytes that fit, unless nobody reads. -/
lemma write {segments : List (List Byte)} {already : Nat} {nonblock : Bool}
    (hok : (Op.write p segments already nonblock).Ok) :
    Round s (s.round t (.write p segments already nonblock) interrupted) t
      (.write p segments already nonblock) (p, if (s.pipes p).endOpen .reader then
        (segments.flatten.drop already).take
          (min (s.pipes p).ring.availableWrite (segments.flatten.length - already)) else []) := by
  simp only [State.round, State.writeRound]
  have hlt : already < segments.flatten.length := hok
  split
  next hclosed =>
    simp only [hclosed, Bool.false_eq_true, if_false]
    exact .giveUp hrings
  next hopen =>
  have hopen : (s.pipes p).endOpen .reader = true := by simpa using hopen
  rw [if_pos hopen]
  split
  next hfull =>
    rw [hfull, Nat.zero_min, List.take_zero]
    split
    · exact .giveUp hrings
    · split
      · exact .giveUp hrings
      · exact .sleep hrings hok _
  next hroom =>
    have hring := hrings p
    have hroomEq := hring.availableWrite_eq
    set writeLen := min (s.pipes p).ring.availableWrite (segments.flatten.length - already)
      with hwriteLen
    have hdata : writeLen - 0 ≤ (segments.flatten.drop (already - 0)).length := by
      rw [List.length_drop]
      omega
    obtain ⟨hr, -, hwritten, hbytes⟩ := writeSegments_spec hring 0 0
      (show 0 < writeLen by omega) (by omega) hdata
    have hlen : ((segments.flatten.drop already).take writeLen).length = writeLen :=
      List.length_take_of_le hdata
    refine .transfer hrings hr (k := 0) (by simpa using hbytes) ?_ _
    intro op' hcall
    rw [hwritten] at hcall
    rw [hlen]
    split at hcall
    · cases hcall
    · cases hcall
      exact ⟨rfl, show already + writeLen < segments.flatten.length by omega⟩

/-- A tee adds to the second pipe what it finds in the first. -/
lemma tee {out len : Nat} (hok : (Op.tee p out len).Ok) :
    Round s (s.round t (.tee p out len) interrupted) t (.tee p out len)
      (out, (s.pipes p).ring.bytes.take
        (min (min len (s.pipes p).ring.availableRead) (s.pipes out).ring.availableWrite)) := by
  simp only [State.round, State.teeRound]
  have hempty : ∀ n m, (s.pipes p).ring.bytes.take (min (min n 0) m) = [] := by simp
  split
  next hzero =>
    rw [hzero, hempty]
    split
    · exact .giveUp hrings
    · exact .sleep hrings hok _
  next hsome =>
  split
  next hfull =>
    rw [hfull, Nat.min_zero, List.take_zero]
    split
    · exact .giveUp hrings
    · exact .sleep hrings hok _
  next hroom =>
    obtain ⟨hr, -, hcopied, hbytes⟩ := duplicateTo_spec (hrings p) (hrings out) len
    have hlen : 0 < len := hok.2
    rw [if_pos (by omega)]
    exact .transfer hrings hr (k := 0) (by simpa using hbytes) (fun _ h => by cases h) _

/-- Every section under the lock is such a round. -/
lemma of_next (hok : op.Ok) (hnext : (s.tasks t).next = some op) :
    Round s (s.round t op interrupted) t op (s.adds (.enter t interrupted)) := by
  simp only [State.adds, hnext]
  cases op with
  | read p segments => exact .read hrings hok
  | write p segments already nonblock => exact .write hrings hok
  | tee p out len => exact .tee hrings hok

end Round

/-- **What a step adds**: nothing but what `adds` says, and only at the end of one ring. -/
lemma State.step_effect (hrings : ∀ q, (s.pipes q).ring.Ok)
    (hok : ∀ t op, (s.tasks t).call = some op → op.Ok) (hs : s.step e = some s') :
    Effect s s' (s.adds e).1 (s.adds e).2 := by
  cases e with
  | call t op =>
    simp only [step] at hs
    split at hs
    · obtain ⟨-, rfl⟩ := of_guard hs
      exact .of_ring hrings fun _ => rfl
    · cases hs
  | enter t interrupted =>
    simp only [step] at hs
    split at hs
    next op hnext =>
      cases hs
      exact (Round.of_next hrings (hok t op (TaskState.call_of_next hnext)) hnext).effect
    · cases hs
  | splice q out len =>
    simp only [step] at hs
    split at hs
    · cases hs
    next hne =>
    cases hs
    obtain ⟨hr, hout, -, -, -, hbytes, hobytes⟩ := transferTo_spec (hrings q) (hrings out) len
    have heffect : Effect s ((s.setRing q ((s.pipes q).ring.transferTo (s.pipes out).ring len).1
        ).setRing out ((s.pipes q).ring.transferTo (s.pipes out).ring len).2.1)
        (s.adds (.splice q out len)).1 (s.adds (.splice q out len)).2 := by
      have hmid := Effect.setRing hrings hr (hbytes.trans (List.append_nil _).symm)
      have hsame := s.ring_setRing_ne ((s.pipes q).ring.transferTo (s.pipes out).ring len).1
        (Ne.symm hne)
      have hlast := Effect.setRing hmid.rings hout (k := 0)
        (by rw [hsame, List.drop_zero]; exact hobytes)
      refine ⟨hlast.rings, fun p => ?_⟩
      -- each of the two rings is changed once
      obtain ⟨k, hk⟩ := hmid.bytes p
      obtain ⟨k', hk'⟩ := hlast.bytes p
      refine ⟨k + k', ?_⟩
      rw [hk', hk, ite_self, List.append_nil, List.drop_drop]
      rfl
    simp only [splice]
    split
    · exact heffect.wakes ((((Wakes.popFront _ q .writer).trans
        (Wakes.popFront _ out .reader)).trans
        (Wakes.wakeTask _ _)).trans (Wakes.wakeTask _ _))
    · exact heffect
  | close q side =>
    obtain ⟨-, rfl⟩ := of_guard hs
    refine Effect.wakes (.of_ring hrings fun p => ?_) (Wakes.wakeAll _ q side.peer)
    rcases eq_or_ne p q with rfl | hp
    · simp
    · simp [hp]
  | signal t =>
    simp only [step] at hs
    split at hs
    next ht =>
      cases hs
      exact .of_ring hrings fun _ => rfl
    · cases hs

/-! ## Recorded runs -/

/-- A state with the calls made so far and everything added to each pipe. -/
structure Logged where
  state : State
  /-- The calls with their tasks; a call is known by its place in the list. -/
  calls : List (Nat × Op)
  /-- The last call of each task. -/
  number : Nat → Nat
  /-- The bytes, with their calls; a splice is none. -/
  stream : Nat → List (Option Nat × Byte)

def Event.begins : Event → Option (Nat × Op)
  | .call t op => some (t, op)
  | _ => none

/-- The record of a step. -/
def Logged.record (l : Logged) (e : Event) (s : State) : Logged where
  state := s
  calls := l.calls ++ e.begins.toList
  number t := if e.begins.map Prod.fst = some t then l.calls.length else l.number t
  stream p := l.stream p ++ if p = (l.state.adds e).1 then
    (l.state.adds e).2.map (e.task.map l.number, ·) else []

def Logged.step (l : Logged) (e : Event) : Option Logged :=
  (l.state.step e).map (l.record e)

def logged : System Logged Event where
  init l := l.state.Initial ∧ l.calls = [] ∧ ∀ p, l.stream p = []
  step := Logged.step

/-- A page, which is also the least capacity of a ring. -/
def Small (segments : List (List Byte)) : Prop := segments.flatten.length ≤ PIPE_MIN_CAPACITY

instance (segments : List (List Byte)) : Decidable (Small segments) :=
  inferInstanceAs (Decidable (_ ≤ _))

/-- The task is in a write of at most one page that has added some of its bytes to the pipe, but not
all of them. -/
def TaskState.HalfWritten (x : TaskState) (p : Nat) : Prop :=
  match x.call with
  | some (.write q segments already _) => q = p ∧ 0 < already ∧ Small segments
  | _ => False

/-- **The window**: no step adds bytes to a pipe while another task is in the middle of a small
write to it. -/
def Window (l : Logged) (e : Event) : Prop :=
  (l.state.adds e).2 ≠ [] → ∀ c ∈ l.calls, e.task ≠ some c.1 →
    ¬ (l.state.tasks c.1).HalfWritten (l.state.adds e).1

instance (x : TaskState) (p : Nat) : Decidable (x.HalfWritten p) := by
  unfold TaskState.HalfWritten
  split <;> infer_instance

instance : DecidableRel Window := fun l e => by
  unfold Window
  infer_instance

/-! ## Pieces of a stream -/

/-- A stream ends in these bytes of call `n`, and has no others of it. -/
def Ends (stream : List (Option Nat × Byte)) (n : Nat) (bytes : List Byte) : Prop :=
  ∃ before, stream = before ++ bytes.map (some n, ·) ∧ ∀ x ∈ before, x.1 ≠ some n

/-- What a stream has of call `n` is the beginning of these bytes, in one piece. -/
def Piece (stream : List (Option Nat × Byte)) (n : Nat) (bytes : List Byte) : Prop :=
  ∃ k before after, stream = before ++ (bytes.take k).map (some n, ·) ++ after ∧
    ∀ x ∈ before ++ after, x.1 ≠ some n

section

variable {stream more : List (Option Nat × Byte)} {n k : Nat} {bytes : List Byte}

lemma Ends.nil (h : ∀ x ∈ stream, x.1 ≠ some n) : Ends stream n [] :=
  ⟨stream, by simp, h⟩

/-- Bytes of others do not touch a write that has added nothing. -/
lemma Ends.append_other (h : Ends stream n []) (hmore : ∀ x ∈ more, x.1 ≠ some n) :
    Ends (stream ++ more) n [] := by
  obtain ⟨before, rfl, hbefore⟩ := h
  refine .nil fun x hx => ?_
  rcases List.mem_append.mp hx with hx | hx
  · exact hbefore x (by simpa using hx)
  · exact hmore x hx

/-- The next bytes of the call follow the ones before. -/
lemma Ends.extend (h : Ends stream n (bytes.take k)) (m : Nat) :
    Ends (stream ++ ((bytes.drop k).take m).map (some n, ·)) n
      (bytes.take (k + ((bytes.drop k).take m).length)) := by
  obtain ⟨before, rfl, hbefore⟩ := h
  refine ⟨before, ?_, hbefore⟩
  rw [List.take_add, List.length_take, ← List.take_eq_take_min, List.map_append, List.append_assoc]

/-- A write that ends the stream is in one piece so far. -/
lemma Ends.piece (h : Ends stream n (bytes.take k)) : Piece stream n bytes := by
  obtain ⟨before, rfl, hbefore⟩ := h
  exact ⟨k, before, [], by simp, by simpa using hbefore⟩

/-- Bytes of others behind a piece leave it whole. -/
lemma Piece.append_other (h : Piece stream n bytes) (hmore : ∀ x ∈ more, x.1 ≠ some n) :
    Piece (stream ++ more) n bytes := by
  obtain ⟨k, before, after, rfl, hother⟩ := h
  refine ⟨k, before, after ++ more, by simp, fun x hx => ?_⟩
  rw [← List.append_assoc] at hx
  exact (List.mem_append.mp hx).elim (hother x) (hmore x)

end

/-! ## The invariant -/

/-- The record agrees with the rings and the calls, and a small write in progress stands at the end
of its stream. -/
structure Recorded (l : Logged) : Prop where
  rings : ∀ p, (l.state.pipes p).ring.Ok
  kept : ∀ p, (l.state.pipes p).ring.bytes <:+ (l.stream p).map Prod.snd
  named : ∀ p, ∀ x ∈ l.stream p, ∀ n, x.1 = some n → n < l.calls.length
  current : ∀ t op, (l.state.tasks t).call = some op →
    op.Ok ∧ l.calls[l.number t]? = some (t, op.begun)
  ends : ∀ t p segments already nonblock,
    (l.state.tasks t).call = some (.write p segments already nonblock) → Small segments →
      Ends (l.stream p) (l.number t) (segments.flatten.take already)
  piece : ∀ n t p segments nonblock, l.calls[n]? = some (t, .write p segments 0 nonblock) →
    Small segments → Piece (l.stream p) n segments.flatten

namespace Recorded

variable {l l' : Logged} {n u : Nat}

lemma init (h : l.state.Initial) (hcalls : l.calls = []) (hstream : ∀ p, l.stream p = []) :
    Recorded l where
  rings p := by
    obtain ⟨capacity, hp⟩ := h.pipes p
    rw [hp]
    exact new_ok capacity
  kept p := by
    obtain ⟨capacity, hp⟩ := h.pipes p
    have hnil : (PipeRingBuffer.new capacity).bytes = [] :=
      List.eq_nil_of_length_eq_zero (by rw [length_bytes]; rfl)
    rw [hp, hnil]
    exact List.nil_suffix
  named p := by simp [hstream]
  current t op hop := by simp [h.tasks, TaskState.call] at hop
  ends t _ _ _ _ hop := by simp [h.tasks, TaskState.call] at hop
  piece n _ _ _ _ hn := by simp [hcalls] at hn

section

variable (h : Recorded l)
include h

/-- Tasks that are in calls are in different ones. -/
lemma number_ne {op op' : Op} (ht : (l.state.tasks t).call = some op)
    (hu : (l.state.tasks u).call = some op') (hne : u ≠ t) : l.number u ≠ l.number t := by
  intro heq
  have hcall := (h.current u op' hu).2
  rw [heq, (h.current t op ht).2] at hcall
  exact hne (congrArg Prod.fst (Option.some.inj hcall)).symm

/-- A number that has not been given out does not occur. -/
lemma fresh (p : Nat) : ∀ x ∈ l.stream p, x.1 ≠ some l.calls.length :=
  fun x hx heq => lt_irrefl _ (h.named p x hx _ heq)

omit h in
/-- A task that is in a call after its own step has begun it, or has run a round of it. -/
lemma own (hrings : ∀ p, (s.pipes p).ring.Ok) (hops : ∀ t op, (s.tasks t).call = some op → op.Ok)
    (hs : s.step e = some s') (htask : e.task = some t) (hcall : (s'.tasks t).call = some op) :
    (e = .call t op ∧ op.Ok ∧ op.begun = op) ∨
      ∃ interrupted op', e = .enter t interrupted ∧ (s.tasks t).next = some op' ∧
        op = op'.advance (s.adds e).2.length ∧ op.Ok := by
  cases e with
  | call t' op' =>
    cases htask
    simp only [State.step] at hs
    split at hs
    swap
    · cases hs
    obtain ⟨hstarts, rfl⟩ := of_guard hs
    obtain rfl : op' = op := by simpa [TaskState.call] using hcall
    refine .inl ⟨rfl, Op.ok_of_starts hstarts, ?_⟩
    cases op' with
    | read | tee => rfl
    | write p segments already nonblock =>
      simp only [Op.starts, Bool.and_eq_true, decide_eq_true_eq] at hstarts
      rw [hstarts.2]
      rfl
  | enter t' interrupted =>
    cases htask
    simp only [State.step] at hs
    split at hs
    next op' hnext =>
      cases hs
      have hround := (Round.of_next hrings (hops t op' (TaskState.call_of_next hnext))
        hnext).call op
        hcall
      exact .inr ⟨interrupted, op', rfl, hnext, hround⟩
    · cases hs
  | splice | close | signal => cases htask

/-- Bytes that a step adds are of the call in which its task is. -/
lemma added_by (hs : l.state.step e = some s') {x : Option Nat × Byte}
    (hx : x ∈ (l.state.adds e).2.map (e.task.map l.number, ·)) (hn : x.1 = some n) :
    ∃ u op interrupted, e = .enter u interrupted ∧ (l.state.tasks u).next = some op ∧
      l.number u = n ∧ l.calls[n]? = some (u, op.begun) := by
  obtain ⟨b, hb, rfl⟩ := List.mem_map.mp hx
  cases e with
  | enter u interrupted =>
    simp only [State.step] at hs
    split at hs
    next op hnext =>
      obtain rfl : l.number u = n := by simpa [Event.task] using hn
      exact ⟨u, op, interrupted, rfl, hnext, rfl, (h.current u op (TaskState.call_of_next hnext)).2⟩
    · cases hs
  | call | close | signal => simp [State.adds] at hb
  | splice => cases hn

/-- The round of a small write goes on where the write stands. -/
lemma ends_enter {u p already : Nat} {segments : List (List Byte)} {nonblock : Bool}
    (hnext : (l.state.tasks u).next = some (.write p segments already nonblock))
    (hsmall : Small segments) (s' : State) :
    Ends ((l.record (.enter u interrupted) s').stream p) (l.number u) (segments.flatten.take
      (already + (l.state.adds (.enter u interrupted)).2.length)) := by
  have hends := h.ends u p segments already nonblock (TaskState.call_of_next hnext) hsmall
  simp only [Logged.record, State.adds, hnext, if_true, Event.task, Option.map_some]
  split
  · exact hends.extend _
  · simpa using hends

variable (hok : Window l e) (hs : l.state.step e = some s')
include hs

/-- After a step the call of a task is the one it began, moved on. -/
lemma current_step (hcall : (s'.tasks t).call = some op) :
    op.Ok ∧ (l.record e s').calls[(l.record e s').number t]? = some (t, op.begun) := by
  have hops := fun t op ht => (h.current t op ht).1
  by_cases htask : e.task = some t
  · rcases own h.rings hops hs htask hcall with ⟨rfl, hop, hbegun⟩ | ⟨i, op', rfl, hnext, rfl, hop⟩
    · exact ⟨hop, by simp [Logged.record, Event.begins, hbegun]⟩
    · refine ⟨hop, ?_⟩
      rw [Op.begun_advance]
      simpa [Logged.record, Event.begins] using (h.current t op' (TaskState.call_of_next hnext)).2
  · rw [State.call_step hs htask] at hcall
    obtain ⟨hop, hold⟩ := h.current t op hcall
    have hkept : e.begins.map Prod.fst ≠ some t := by
      cases e <;> simp_all [Event.begins, Event.task]
    refine ⟨hop, ?_⟩
    simp only [Logged.record, if_neg hkept]
    rw [List.getElem?_append_left (List.getElem?_eq_some_iff.mp hold).1, hold]

include hok

/-- A small write in progress still ends the stream of its pipe. -/
lemma ends_step {already : Nat} {segments : List (List Byte)} {nonblock : Bool}
    (hcall : (s'.tasks t).call = some (.write p segments already nonblock))
    (hsmall : Small segments) : Ends ((l.record e s').stream p) ((l.record e s').number t)
      (segments.flatten.take already) := by
  have hops := fun t op ht => (h.current t op ht).1
  by_cases htask : e.task = some t
  · rcases own h.rings hops hs htask hcall with ⟨rfl, -, hbegun⟩ | ⟨i, op', rfl, hnext, hop, -⟩
    · -- a call that begins has a number of its own
      obtain rfl : 0 = already := by simpa [Op.begun] using hbegun
      simpa [Logged.record, Event.begins, State.adds] using Ends.nil (h.fresh p)
    · cases op' with
      | read | tee => cases hop
      | write =>
        cases hop
        simpa [Logged.record, Event.begins] using h.ends_enter hnext hsmall s'
  · rw [State.call_step hs htask] at hcall
    have hends := h.ends t p segments already nonblock hcall hsmall
    have hkept : e.begins.map Prod.fst ≠ some t := by
      cases e <;> simp_all [Event.begins, Event.task]
    simp only [Logged.record, if_neg hkept]
    split
    swap
    · simpa using hends
    next hp =>
    by_cases hnil : (l.state.adds e).2 = []
    · simpa [hnil] using hends
    -- in the window the write of the other task has not begun to add bytes
    have hmem : (t, Op.begun (.write p segments already nonblock)) ∈ l.calls :=
      List.mem_of_getElem? (h.current t _ hcall).2
    have hhalf := hok hnil _ hmem htask
    simp only [TaskState.HalfWritten, hcall, ← hp, hsmall, and_true, true_and, not_lt,
      nonpos_iff_eq_zero] at hhalf
    subst hhalf
    refine hends.append_other fun x hx hn => ?_
    obtain ⟨u, op, i, rfl, hnext, hnum, -⟩ := h.added_by hs hx hn
    exact h.number_ne hcall (TaskState.call_of_next hnext)
      (fun heq => htask (congrArg some heq)) hnum

omit hok in
/-- Every small write so far is in one piece. -/
lemma piece_step {segments : List (List Byte)} {nonblock : Bool}
    (hn : (l.record e s').calls[n]? = some (t, .write p segments 0 nonblock))
    (hsmall : Small segments) : Piece ((l.record e s').stream p) n segments.flatten := by
  by_cases hlt : n < l.calls.length
  swap
  · -- the call begins with this step
    cases e with
    | call t' op =>
      obtain rfl : n = l.calls.length := by
        have := (List.getElem?_eq_some_iff.mp hn).1
        simp [Logged.record, Event.begins] at this
        omega
      have hnil : Ends (l.stream p) l.calls.length (segments.flatten.take 0) := .nil (h.fresh p)
      simpa [Logged.record, State.adds] using hnil.piece
    | enter | splice | close | signal =>
      have := (List.getElem?_eq_some_iff.mp hn).1
      simp [Logged.record, Event.begins] at this
      omega
  rw [Logged.record, List.getElem?_append_left hlt] at hn
  have hpiece := h.piece n t p segments nonblock hn hsmall
  by_cases hother : ∀ x ∈ (l.state.adds e).2.map (e.task.map l.number, ·), x.1 ≠ some n
  · simp only [Logged.record]
    split
    · exact hpiece.append_other hother
    · simpa using hpiece
  · push Not at hother
    obtain ⟨x, hx, hxn⟩ := hother
    obtain ⟨u, op, i, rfl, hnext, rfl, hcall⟩ := h.added_by hs hx hxn
    -- it is the round of this call
    rw [hcall] at hn
    cases op with
    | read | tee => cases hn
    | write =>
      cases hn
      exact (h.ends_enter hnext hsmall s').piece

/-- **One step** in the window keeps the record. -/
theorem step : Recorded (l.record e s') where
  rings := (State.step_effect h.rings (fun t op ht => (h.current t op ht).1) hs).rings
  kept p := by
    obtain ⟨k, hk⟩ :=
      (State.step_effect h.rings (fun t op ht => (h.current t op ht).1) hs).bytes p
    obtain ⟨before, hbefore⟩ := (List.drop_suffix k _).trans (h.kept p)
    refine ⟨before, ?_⟩
    rw [show ((l.record e s').state.pipes p).ring.bytes = _ from hk, ← List.append_assoc, hbefore]
    simp only [Logged.record, List.map_append]
    split <;> simp
  named p x hx n hn := by
    have hlen : l.calls.length ≤ (l.record e s').calls.length := by simp [Logged.record]
    simp only [Logged.record, List.mem_append] at hx
    rcases hx with hx | hx
    · exact (h.named p x hx n hn).trans_le hlen
    · split at hx
      · obtain ⟨_, _, _, _, _, _, hcall⟩ := h.added_by hs hx hn
        exact (List.getElem?_eq_some_iff.mp hcall).1.trans_le hlen
      · cases hx
  current t op hcall := h.current_step hs hcall
  ends t p segments already nonblock hcall hsmall := h.ends_step hok hs hcall hsmall
  piece n t p segments nonblock hn hsmall := h.piece_step hs hn hsmall

end

end Recorded

/-! ## The result -/

/-- **Small writes in one piece.**  In every run in which no step adds bytes to a pipe while another
task is in the middle of a write of at most one page to it, what the pipe has got of each such write
is the beginning of its bytes, in one piece; and the ring holds the end of what the pipe has got. -/
theorem small_writes_in_one_piece {l : Logged} (h : logged.Reachable Window l) {n t p : Nat}
    {segments : List (List Byte)} {nonblock : Bool}
    (hcall : l.calls[n]? = some (t, .write p segments 0 nonblock))
    (hsmall : segments.flatten.length ≤ PIPE_MIN_CAPACITY) :
    Piece (l.stream p) n segments.flatten ∧
      (l.state.pipes p).ring.bytes <:+ (l.stream p).map Prod.snd := by
  have hrec : Recorded l := by
    apply h.invariant
    · exact fun l hl => .init hl.1 hl.2.1 hl.2.2
    · intro l e l' hl hok hs
      obtain ⟨s', hs', rfl⟩ := Option.map_eq_some_iff.mp hs
      exact hl.step hok hs'
  exact ⟨hrec.piece n t p segments nonblock hcall hsmall, hrec.kept p⟩

/-- No call has been made. -/
def bootLog : Logged := ⟨boot, [], fun _ => 0, fun _ => []⟩

/-- Task 0 fills a pipe up to one byte and then writes two, of which one has to wait; task 2 sleeps
on the full ring before it has written anything. -/
def waitedWrite : List Event :=
  [.call 0 (.write 0 [List.replicate 4095 0] 0 false), .enter 0 false,
    .call 0 (.write 0 [[1, 2]] 0 false), .enter 0 false, .enter 0 false,
    .call 2 (.write 0 [[9]] 0 false), .enter 2 false, .call 1 (.read 0 [1]), .enter 1 false,
    .enter 0 false, .call 1 (.read 0 [1]), .enter 1 false, .enter 2 false]

/-- A small write that had to wait for room, and one behind it. -/
theorem small_writes_in_one_piece_waited :
    ∃ l, logged.Reachable Window l ∧
      (l.stream 0).drop 4095 = [(some 1, 1), (some 1, 2), (some 2, 9)] ∧
      Piece (l.stream 0) 1 [1, 2] ∧ (l.state.pipes 0).ring.bytes <:+ (l.stream 0).map Prod.snd := by
  have hrun : (logged.runWhile Window bootLog waitedWrite).map
      (fun l => (l.calls[1]?, (l.stream 0).drop 4095)) = some (some (0, .write 0 [[1, 2]] 0 false),
        [(some 1, 1), (some 1, 2), (some 2, 9)]) := by decide +kernel
  obtain ⟨l, hreach, -, hv⟩ := System.exists_reachable hrun ⟨boot_initial, rfl, fun _ => rfl⟩
  obtain ⟨hcall, hstream⟩ := Prod.mk.inj hv
  exact ⟨l, hreach, hstream, small_writes_in_one_piece hreach hcall (by decide)⟩

/-- Task 0 fills a pipe up to one byte and then writes two; task 2 writes one, after a read and
before task 0 comes back. -/
def tornWrite : List Event :=
  [.call 0 (.write 0 [List.replicate 4095 0] 0 false), .enter 0 false,
    .call 0 (.write 0 [[1, 2]] 0 false), .enter 0 false, .call 1 (.read 0 [1]), .enter 1 false,
    .call 2 (.write 0 [[9]] 0 false), .enter 2 false, .call 1 (.read 0 [1]), .enter 1 false,
    .enter 0 false]

/-- **A small write torn apart**: the byte of the other writer stands between its two bytes. -/
theorem small_write_torn :
    (system.runWhile System.anyStep boot tornWrite).map
      (fun s => (s.pipes 0).ring.bytes.drop 4093) =
      some [1, 9, 2] := by
  decide +kernel

end Whusp.Fs.Pipe
