import Whusp.Lib.Transition
import Mathlib.Data.BitVec

/-!
# Edge-triggered epoll

How `syscall/fs/epoll.rs` decides what `epoll_wait` reports.  There is no list of ready files: a
call polls every interest, and for an edge-triggered one it compares what it finds with what was
found last.  Only a poll that finds the file not ready forgets that, so an edge shows only if some
call looked at the file between its two ready phases.  What was found last is written before the
events are copied to the user, so an edge is also lost with a copy that fails.
-/

namespace Whusp.Syscall.EpollEdge

open Whusp.Lib

/-- Event sets of `poll` and `epoll`, which use the same bits. -/
abbrev Events := BitVec 32

def EPOLLIN : Events := 0x0001
def EPOLLPRI : Events := 0x0002
def EPOLLOUT : Events := 0x0004
def EPOLLERR : Events := 0x0008
def EPOLLHUP : Events := 0x0010
def EPOLLRDHUP : Events := 0x2000
def EPOLLONESHOT : Events := 1 <<< 30
def EPOLLET : Events := 1 <<< 31

structure EpollInterest where
  file : Nat
  events : Events
  data : BitVec 64
  lastReady : Events
  disabled : Bool

structure EpollEvent where
  events : Events
  data : BitVec 64

def epollToPollEvents (events : Events) : Events :=
  events &&& (EPOLLIN ||| EPOLLPRI ||| EPOLLOUT ||| EPOLLRDHUP)

def pollEventsToEpoll (events : Events) : Events :=
  events &&& (EPOLLIN ||| EPOLLPRI ||| EPOLLOUT ||| EPOLLERR ||| EPOLLHUP ||| EPOLLRDHUP)

def epollReadinessMask (events : Events) : Events :=
  events &&& (EPOLLIN ||| EPOLLPRI ||| EPOLLOUT ||| EPOLLRDHUP) ||| EPOLLERR ||| EPOLLHUP

namespace EpollInterest

/-- What of a poll's answer concerns the interest. -/
def ready (i : EpollInterest) (pollReady : Events) : Events :=
  pollEventsToEpoll pollReady &&& epollReadinessMask i.events

def edgeTriggered (i : EpollInterest) : Bool := i.events &&& EPOLLET ≠ 0#32

def oneShot (i : EpollInterest) : Bool := i.events &&& EPOLLONESHOT ≠ 0#32

/-- `epoll_ready_event_from_poll`: the interest after a poll, and the event that is reported. -/
def readyEventFromPoll (i : EpollInterest) (pollReady : Events) (sourceWake : Bool) :
    EpollInterest × Option EpollEvent :=
  let ready := i.ready pollReady
  if ready = 0#32 then (if i.edgeTriggered then { i with lastReady := 0#32 } else i, none)
  else if i.edgeTriggered && ready = i.lastReady && !sourceWake then (i, none)
  else ({ i with lastReady := ready, disabled := i.disabled || i.oneShot }, some ⟨ready, i.data⟩)

end EpollInterest

/-- The loop of `scan_ready_with_waiter`; `poll` answers for each file. -/
def scanReady (maxevents : Nat) (poll : Nat → Events → Events) :
    List EpollInterest → List EpollEvent → List EpollInterest × List EpollEvent
  | [], out => ([], out)
  | i :: rest, out =>
    if out.length ≥ maxevents || i.disabled then
      let done := scanReady maxevents poll rest out
      (i :: done.1, done.2)
    else
      let polled := i.readyEventFromPoll (poll i.file (epollToPollEvents i.events)) false
      let done := scanReady maxevents poll rest (out ++ polled.2.toList)
      (polled.1 :: done.1, done.2)

/-- One interest and what a poll of its file answers.  An interest is reported when a call has
copied its event to the user and returns it. -/
structure State where
  interest : EpollInterest
  pollReady : Events
  /-- The file was not ready at some time since the interest was last reported. -/
  fell : Bool
  /-- A poll has found it so since then, or nothing was reported yet. -/
  seen : Bool

/-- The file changes, or a call polls the interest: when it scans all interests, or because the
file woke it.  `copied` is false for a call that ends with `EFAULT` because `write_epoll_event`
fails for one of the events it has found. -/
inductive Action where
  | change (pollReady : Events)
  | poll (sourceWake copied : Bool)

def State.isReady (s : State) : Bool := s.interest.ready s.pollReady ≠ 0#32

def step (s : State) : Action → Option State
  | .change pollReady =>
    some { s with pollReady, fell := s.fell || s.interest.ready pollReady = 0#32 }
  | .poll sourceWake copied =>
    if s.interest.disabled then none
    else
      -- the interest is updated here, whether or not the event then reaches the user
      let polled := s.interest.readyEventFromPoll s.pollReady sourceWake
      let reported := polled.2.isSome && copied
      some { s with
        interest := polled.1
        fell := s.fell && !reported
        seen := (s.seen || !s.isReady) && !reported }

/-- The file becomes ready again only after a poll has found it not ready, and no copy of an event
of the interest fails. -/
def StepOk (s : State) : Action → Prop
  | .change pollReady => s.isReady = false → s.interest.ready pollReady ≠ 0#32 → s.seen = true
  | .poll sourceWake copied =>
    (s.interest.readyEventFromPoll s.pollReady sourceWake).2.isSome → copied = true

def system (events : Events) : System State Action where
  init s := s.interest.events = events ∧ s.interest.lastReady = 0#32 ∧ s.interest.disabled = false ∧
    s.fell = false ∧ s.seen = true
  step := step

/-! ## Scans with room -/

variable {poll : Nat → Events → Events} {maxevents : Nat} {i : EpollInterest}
variable {e : EpollEvent} {l : List EpollInterest} {out : List EpollEvent}

lemma scanReady_out (h : e ∈ out) : e ∈ (scanReady maxevents poll l out).2 := by
  induction l generalizing out with
  | nil => exact h
  | cons i l ih =>
    unfold scanReady
    split
    · exact ih h
    · exact ih (by simp [h])

/-- With room for all interests, a scan reports what the poll of each of them gives. -/
lemma mem_scanReady (hroom : out.length + l.length ≤ maxevents) (hi : i ∈ l)
    (hen : i.disabled = false)
    (he : (i.readyEventFromPoll (poll i.file (epollToPollEvents i.events)) false).2 = some e) :
    e ∈ (scanReady maxevents poll l out).2 := by
  induction l generalizing out with
  | nil => cases hi
  | cons j l ih =>
    simp only [List.length_cons] at hroom
    unfold scanReady
    rcases List.mem_cons.mp hi with rfl | hi
    · rw [if_neg (by simp [hen]; omega)]
      exact scanReady_out (by simp [he])
    · split
      · exact ih (by omega) hi
      · refine ih ?_ hi
        have : ∀ o : Option EpollEvent, o.toList.length ≤ 1 := by rintro (_ | _) <;> simp
        have := this (j.readyEventFromPoll (poll j.file (epollToPollEvents j.events)) false).2
        simp
        omega

/-! ## Edges -/

variable {events : Events} {s s' : State} {a : Action}

structure Inv (events : Events) (s : State) : Prop where
  events : s.interest.events = events
  enabled : s.interest.disabled = false
  fell : s.fell = true → s.isReady = true → s.seen = true
  seen : s.seen = true → s.interest.lastReady = 0#32

open EpollInterest

/-- **One step** keeps what is known of the phases. -/
theorem Inv.step (h : Inv events s) (het : events &&& EPOLLET ≠ 0#32)
    (hos : events &&& EPOLLONESHOT = 0#32) (hok : StepOk s a) (hs : step s a = some s') :
    Inv events s' := by
  obtain ⟨hevents, hen, hfell, hseen⟩ := h
  cases a with
  | change pollReady =>
    cases hs
    refine ⟨hevents, hen, fun hf hr => ?_, hseen⟩
    have hr' : s.interest.ready pollReady ≠ 0#32 := by simpa [State.isReady] using hr
    have hf' : s.fell = true := by simpa [hr'] using hf
    cases hready : s.isReady with
    | true => exact hfell hf' hready
    | false => exact hok hready hr'
  | poll sourceWake copied =>
    simp only [EpollEdge.step, hen] at hs
    cases hs
    simp only [StepOk] at hok
    have het' : s.interest.edgeTriggered = true := by
      simp [edgeTriggered, hevents, het]
    have hos' : s.interest.oneShot = false := by simp [oneShot, hevents, hos]
    unfold readyEventFromPoll at hok ⊢
    by_cases hr : s.interest.ready s.pollReady = 0#32
    · constructor <;> simp_all [State.isReady, ready]
    · simp only [if_neg hr] at hok ⊢
      split at hok
      next hsame =>
        simp only [if_pos hsame]
        constructor <;> simp_all [State.isReady]
      next hsame =>
        have hcopied := hok rfl
        simp only [if_neg hsame]
        constructor <;> simp_all

/-- **Seen edges are reported**: if the file becomes ready again only after a poll has found it not
ready, and no copy of an event of the interest to the user fails, then whenever it was not ready
since the last report and is ready now, the next scan with room for all interests reports it. -/
theorem seen_edges_are_reported (het : events &&& EPOLLET ≠ 0#32)
    (hos : events &&& EPOLLONESHOT = 0#32) (h : (system events).Reachable StepOk s)
    (hfell : s.fell = true) (hready : s.isReady = true)
    {l : List EpollInterest} (hmem : s.interest ∈ l) (hroom : l.length ≤ maxevents)
    (hpoll : poll s.interest.file (epollToPollEvents events) = s.pollReady) :
    ⟨s.interest.ready s.pollReady, s.interest.data⟩ ∈ (scanReady maxevents poll l []).2 := by
  have hinv : Inv events s := h.invariant
    (fun s ⟨he, hl, hd, hf, _⟩ => ⟨he, hd, by simp [hf], fun _ => hl⟩)
    fun _ _ _ hs hok => hs.step het hos hok
  refine mem_scanReady (by simpa using hroom) hmem hinv.enabled ?_
  have hlast := hinv.seen (hinv.fell hfell hready)
  have hr : s.interest.ready s.pollReady ≠ 0#32 := by simpa [State.isReady] using hready
  simp [readyEventFromPoll, hinv.events, hpoll, hlast, hr]

/-- The interest in input at the edges of a file, with a file that is ready. -/
def inputState : State := ⟨⟨0, EPOLLIN ||| EPOLLET, 7, 0, false⟩, EPOLLIN, false, true⟩

/-- A file that a call finds empty in between. -/
theorem seen_edges_are_reported_drained : ∃ s, (system (EPOLLIN ||| EPOLLET)).Reachable StepOk s ∧
    s.fell = true ∧ ⟨EPOLLIN, 7⟩ ∈ (scanReady 1 (fun _ _ => EPOLLIN) [s.interest] []).2 := by
  have h₁ : (system (EPOLLIN ||| EPOLLET)).Reachable StepOk _ :=
    .step (a := .poll false true) (.init (s := inputState) ⟨rfl, rfl, rfl, rfl, rfl⟩)
      (fun _ => rfl) rfl
  have h₂ := h₁.step (a := Action.change 0) nofun rfl
  have h₃ := h₂.step (a := Action.poll false true) (fun _ => rfl) rfl
  have h₄ := h₃.step (a := Action.change EPOLLIN) (fun _ _ => rfl) rfl
  exact ⟨_, h₄, rfl, seen_edges_are_reported (by decide) (by decide) h₄ rfl (by decide) (.head _)
    (by decide) rfl⟩

/-- **A lost edge**: after a report the file is drained and filled again, and the next call does not
report it. -/
theorem unseen_edge_is_lost :
    ∃ s, (system (EPOLLIN ||| EPOLLET)).Reachable System.anyStep s ∧ s.fell = true ∧
      s.isReady = true ∧ (scanReady 1 (fun _ _ => s.pollReady) [s.interest] []).2 = [] := by
  have h₁ : (system (EPOLLIN ||| EPOLLET)).Reachable System.anyStep _ :=
    .step (a := .poll false true) (.init (s := inputState) ⟨rfl, rfl, rfl, rfl, rfl⟩) trivial rfl
  have h₂ := h₁.step (a := Action.change 0) trivial rfl
  have h₃ := h₂.step (a := Action.change EPOLLIN) trivial rfl
  exact ⟨_, h₃, rfl, by decide, by decide⟩

end Whusp.Syscall.EpollEdge
