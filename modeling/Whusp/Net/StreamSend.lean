import Whusp.Lib.Transition
import Mathlib.Tactic.SplitIfs

/-!
# Bytes through a stream socket

One direction of a connected pair of `net/socket.rs`: `send_stream` at one end and `recv_stream` at
the other, with each section under a socket lock as one step.  `send_stream_user_buffer` runs the
same loop over the segments of its buffer, whose bytes are `data` here.  The directions share no
data; shutdowns and closes reach one as the three flags of the state, at any time.

A send that has moved bytes and then meets a full queue, a signal or a closed peer answers with the
error alone, so its caller counts none of them.
-/

namespace Whusp.Net.StreamSend

open Whusp.Lib

inductive Errno where
  | EPIPE
  | EAGAIN
  | EINTR

/-- A call of `send_stream`.  `peer` tells whether it has left the section under the lock of its own
socket with the peer; a sender that is woken goes back to that section. -/
structure Send where
  data : List UInt8
  nonblock : Bool
  written : Nat
  peer : Bool

structure State where
  writeShutdown : Bool
  /-- `peer_socket` can still be upgraded. -/
  peerAlive : Bool
  /-- `read_shutdown`, `rcvbuf` and `stream_rx` of the receiving socket. -/
  readShutdown : Bool
  rcvbuf : Nat
  streamRx : List UInt8
  send : Option Send
  /-- The result of the last send, and the bytes that all of them have reported. -/
  result : Option (Except Errno Nat)
  reported : List UInt8
  received : List UInt8

inductive Action where
  | send (data : List UInt8) (nonblock : Bool)
  | look
  | transfer (interrupted : Bool)
  | recv (want : Nat)
  | shutWrite
  | shutRead
  | dropPeer

namespace State

def available (s : State) : Nat := max s.rcvbuf 1 - s.streamRx.length

def fail (s : State) (e : Errno) : State := { s with send := none, result := some (.error e) }

/-- The head of the loop: the call returns once everything is written. -/
def next (s : State) (c : Send) : State :=
  if c.written < c.data.length then { s with send := some { c with peer := false } }
  else { s with
    send := none, result := some (.ok c.written), reported := s.reported ++ c.data.take c.written }

def transfer (s : State) (c : Send) (interrupted : Bool) : State :=
  if s.readShutdown then s.fail .EPIPE
  else if s.available = 0 then
    if c.nonblock then s.fail .EAGAIN
    else if interrupted then s.fail .EINTR
    else { s with send := some { c with peer := false } }
  else
    let chunk := (c.data.drop c.written).take (min s.available (c.data.length - c.written))
    { s with streamRx := s.streamRx ++ chunk }.next { c with written := c.written + chunk.length }

def look (s : State) (c : Send) : State :=
  if s.writeShutdown || !s.peerAlive then s.fail .EPIPE
  else { s with send := some { c with peer := true } }

def step (s : State) : Action → Option State
  | .send data nonblock => if s.send.isSome then none else some (s.next ⟨data, nonblock, 0, false⟩)
  | .look => (s.send.filter (!·.peer)).map s.look
  | .transfer interrupted => (s.send.filter (·.peer)).map (s.transfer · interrupted)
  | .recv want => some { s with
    streamRx := s.streamRx.drop want, received := s.received ++ s.streamRx.take want }
  | .shutWrite => some { s with writeShutdown := true }
  | .shutRead => some { s with readShutdown := true }
  | .dropPeer => some { s with peerAlive := false }

/-- A send that has moved bytes does not meet a reason to fail. -/
def StepOk (s : State) : Action → Prop
  | .look => ∀ c ∈ s.send, 0 < c.written → s.writeShutdown = false ∧ s.peerAlive = true
  | .transfer interrupted => ∀ c ∈ s.send, 0 < c.written →
    s.readShutdown = false ∧ (s.available = 0 → c.nonblock = false ∧ interrupted = false)
  | _ => True

def connected (rcvbuf : Nat) : State := ⟨false, true, false, rcvbuf, [], none, none, [], []⟩

/-- The bytes of the send in progress that it has moved. -/
def inProgress (s : State) : List UInt8 := s.send.elim [] fun c => c.data.take c.written

/-- What has been moved is received or waits in the queue. -/
def Balanced (s : State) : Prop := s.received ++ s.streamRx = s.reported ++ s.inProgress

end State

open State

def system (rcvbuf : Nat) : System State Action where
  init s := s = connected rcvbuf
  step := step

variable {s s' : State} {c : Send} {rcvbuf : Nat}

attribute [local simp] State.Balanced inProgress

lemma State.Balanced.moved (h : s.Balanced) (hc : s.send = some c) :
    s.received ++ s.streamRx = s.reported ++ c.data.take c.written := by
  simpa [hc] using h

lemma balanced_next (h : s.received ++ s.streamRx = s.reported ++ c.data.take c.written) :
    (s.next c).Balanced := by
  unfold State.next
  split
  · exact h
  · simpa using h

/-- A send without a byte fails and leaves nothing behind. -/
lemma balanced_fail (h : s.Balanced) (hs : s.send = some c) (hw : ¬ 0 < c.written) (e : Errno) :
    (s.fail e).Balanced := by
  simpa [State.fail, hs, Nat.eq_zero_of_not_pos hw] using h

theorem balanced_step {a : Action} (h : s.Balanced) (hok : StepOk s a) (hs : s.step a = some s') :
    s'.Balanced := by
  cases a with
  | send data nonblock =>
    obtain ⟨hno, rfl⟩ := of_refusal hs
    apply balanced_next
    simpa [Option.not_isSome_iff_eq_none.mp hno] using h
  | look =>
    obtain ⟨c, hc, rfl⟩ := Option.map_eq_some_iff.mp hs
    replace hc := (Option.filter_eq_some_iff.mp hc).1
    unfold State.look
    split_ifs with hshut
    · refine balanced_fail h hc (fun hw => ?_) _
      simp [hok c hc hw] at hshut
    · exact (h.moved hc :)
  | transfer interrupted =>
    obtain ⟨c, hc, rfl⟩ := Option.map_eq_some_iff.mp hs
    replace hc := (Option.filter_eq_some_iff.mp hc).1
    unfold State.transfer
    split_ifs with hread hfull hnon hint
    · refine balanced_fail h hc (fun hw => ?_) _
      simp [(hok c hc hw).1] at hread
    · refine balanced_fail h hc (fun hw => ?_) _
      simp [((hok c hc hw).2 hfull).1] at hnon
    · refine balanced_fail h hc (fun hw => ?_) _
      simp [((hok c hc hw).2 hfull).2] at hint
    · exact (h.moved hc :)
    · -- the chunk continues the bytes that were moved before
      apply balanced_next
      rw [List.take_add, ← List.append_assoc, ← List.append_assoc, h.moved hc]
      simp
  | recv want =>
    cases hs
    simpa using h
  | shutWrite | shutRead | dropPeer =>
    cases hs
    exact h

/-- **What is received is what is reported**: if no send fails after its first byte, the bytes
received are a prefix of those that the sends have reported and those of the send in progress. -/
theorem received_bytes_are_reported (h : (system rcvbuf).Reachable StepOk s) :
    s.received <+: s.reported ++ s.inProgress := by
  have hinv : s.Balanced := by
    apply h.invariant
    · rintro s rfl
      rfl
    · exact fun _ _ _ hs hok => balanced_step hs hok
  exact ⟨s.streamRx, hinv⟩

theorem received_bytes_are_reported_twoRounds :
    ∃ s, (system 1).Reachable StepOk s ∧ s.received = [7, 8] ∧ s.received <+: s.reported := by
  have h₁ : (system 1).Reachable StepOk _ := .step (a := .send [7, 8] false) (.init rfl) trivial rfl
  have h₂ := h₁.step (a := Action.look) (fun _ _ _ => ⟨rfl, rfl⟩) rfl
  have h₃ := h₂.step (a := Action.transfer false) (by rintro _ ⟨⟩ ⟨⟩) rfl
  have h₄ := h₃.step (a := Action.recv 1) trivial rfl
  have h₅ := h₄.step (a := Action.look) (fun _ _ _ => ⟨rfl, rfl⟩) rfl
  have h₆ := h₅.step (a := Action.transfer false) (fun _ _ _ => ⟨rfl, nofun⟩) rfl
  have h₇ := h₆.step (a := Action.recv 1) trivial rfl
  exact ⟨_, h₇, rfl, received_bytes_are_reported h₇⟩

/-- **A failed send is received**: a send that may not sleep moves one byte of two and then answers
`EAGAIN`. -/
theorem failed_send_is_received : ∃ s, (system 1).Reachable System.anyStep s ∧
    s.result = some (.error .EAGAIN) ∧ ¬ s.received <+: s.reported ++ s.send.elim [] Send.data := by
  have h₁ : (system 1).Reachable System.anyStep _ :=
    .step (a := .send [7, 8] true) (.init rfl) trivial rfl
  have h₂ := h₁.step (a := Action.look) trivial rfl
  have h₃ := h₂.step (a := Action.transfer false) trivial rfl
  have h₄ := h₃.step (a := Action.look) trivial rfl
  have h₅ := h₄.step (a := Action.transfer false) trivial rfl
  have h₆ := h₅.step (a := Action.recv 1) trivial rfl
  exact ⟨_, h₆, rfl, by decide⟩

end Whusp.Net.StreamSend
