import Whusp.Fs.PipeWakeups

/-!
# Who sleeps at a pipe, and why

A reader should sleep only while the ring is empty and a write end is open, and a writer only while
it is full and a read end is open.  A transfer wakes up one task, so with several sleepers that
depends on the task that is woken up: if it sleeps no more and only its entry is left, the wakeup is
lost, and if it leaves bytes, or room, behind, nobody tells the next one.
-/

namespace Whusp.Fs.Pipe

open Whusp.Lib (Byte System)

attribute [local simp] State.setTask State.setRing State.setQueue State.sleep

/-! ## Sections -/

/-- In a section of task `t` nobody else stirs, and whoever sleeps slept before. -/
structure Section (s s' : State) (t p : Nat) (side : Side) : Prop where
  waiting : s'.Waiting p side → s.Waiting p side
  endOpen : (s'.pipes p).endOpen side.peer = (s.pipes p).endOpen side.peer
  dequeued : ∀ t' ≠ t, (s.tasks t').dequeuedAt p side = true →
    (s'.tasks t').dequeuedAt p side = true

variable {s s' : State} {t p : Nat} {side : Side}

/-- A side stays in order through a section that does not bring it anything, if the task, when it
was woken up for the side, leaves nothing for those that still sleep. -/
lemma Section.justified (h : Section s s' t p side)
    (hj : s.Justified p side) (hspent : (s.pipes p).supply side = 0 → (s'.pipes p).supply side = 0)
    (hself : (s.tasks t).dequeuedAt p side = true → s.Waiting p side →
      (s'.pipes p).supply side = 0) : s'.Justified p side := by
  intro hw
  have hwait := h.waiting hw
  obtain ⟨hopen, hrest⟩ := hj hwait
  rw [h.endOpen]
  refine ⟨hopen, ?_⟩
  rcases hrest with hzero | ⟨t', ht'⟩
  · exact .inl (hspent hzero)
  rcases eq_or_ne t' t with rfl | heq
  · exact .inl (hself ht' hwait)
  · exact .inr ⟨t', h.dequeued t' heq ht'⟩

namespace State

variable {s : State}

lemma pipes_setRing_endOpen (s : State) (p p' : Nat) (r : PipeRingBuffer) :
    ((s.setRing p r).pipes p').endOpen = (s.pipes p').endOpen := by
  rcases eq_or_ne p' p with rfl | hp
  · simp
  · simp [hp]

lemma pipes_setRing_waitQueue (s : State) (p p' : Nat) (r : PipeRingBuffer) :
    ((s.setRing p r).pipes p').waitQueue = (s.pipes p').waitQueue := by
  rcases eq_or_ne p' p with rfl | hp
  · simp
  · simp [hp]

lemma ring_setRing_self (s : State) (p : Nat) (r : PipeRingBuffer) :
    ((s.setRing p r).pipes p).ring = r := by
  simp

variable {p t : Nat}
variable {p' q : Nat} {r : PipeRingBuffer}

lemma ring_setRing_ne (s : State) (r : PipeRingBuffer) (h : p' ≠ p) :
    ((s.setRing p r).pipes p').ring = (s.pipes p').ring := by
  simp [h]

variable {side : Side}

lemma waiting_setRing : (s.setRing p r).Waiting p' side ↔ s.Waiting p' side := by
  unfold Waiting
  rw [pipes_setRing_waitQueue]
  rfl

variable {x : TaskState}

/-- A task that is awake goes on without falling asleep. -/
lemma waiting_setTask (hx : ∀ p side, x.blockedAt p side = false)
    (h : (s.setTask t x).Waiting p side) : s.Waiting p side := by
  obtain ⟨t', ht', hb⟩ := h
  have hne : t' ≠ t := by
    rintro rfl
    simp [hx] at hb
  exact ⟨t', ht', by simpa [hne] using hb⟩

lemma section_setTask (s : State) (hx : ∀ p side, x.blockedAt p side = false) (p : Nat)
    (side : Side) : Section s (s.setTask t x) t p side where
  waiting := waiting_setTask hx
  endOpen := rfl
  dequeued t' hne hd := by simpa [hne] using hd

lemma section_setRing_setTask (s : State) (q : Nat) (r : PipeRingBuffer)
    (hx : ∀ p side, x.blockedAt p side = false) (p : Nat) (side : Side) :
    Section s ((s.setRing q r).setTask t x) t p side where
  waiting h := waiting_setRing.mp (waiting_setTask hx h)
  endOpen := by
    change ((s.setRing q r).pipes p).endOpen side.peer = _
    rw [pipes_setRing_endOpen]
  dequeued t' hne hd := by simpa [hne] using hd

open State

/-- A queue whose front sleeps, if any task does, is one still after a section of a task that was
awake. -/
lemma FrontWaits.setTask (h : s.FrontWaits p side) (hx : ∀ p side, x.blockedAt p side = false)
    (hawake : (s.tasks t).blockedAt p side = false) :
    ((s.setRing q r).setTask t x).FrontWaits p side := by
  intro hw t' ht'
  change t' ∈ (((s.setRing q r).pipes p).waitQueue side).head? at ht'
  rw [pipes_setRing_waitQueue] at ht'
  have hb := h (waiting_setRing.mp (waiting_setTask hx hw)) t' ht'
  have hne : t' ≠ t := by
    rintro rfl
    simp [hawake] at hb
  simpa [hne] using hb

/-- Other sides than the one a task falls asleep at do not notice. -/
lemma section_sleep (s : State) (t : Nat) (op : Op) {side' : Side}
    (hother : ¬ (p = q ∧ side = side')) : Section s (s.sleep t op q side') t p side where
  waiting := by
    rintro ⟨t', ht', hb⟩
    have hne : t' ≠ t := by
      rintro rfl
      simp only [sleep, setTask, Function.update_self, TaskState.blockedAt,
        Bool.and_eq_true, decide_eq_true_eq] at hb
      exact hother ⟨hb.1.symm, hb.2.symm⟩
    refine ⟨t', ?_, by simpa [hne] using hb⟩
    rcases eq_or_ne p q with rfl | hp
    · simpa [show side ≠ side' from fun h => hother ⟨rfl, h⟩]
        using ht'
    · simpa [hp] using ht'
  endOpen := by
    rcases eq_or_ne p q with rfl | hp
    · simp
    · simp [hp]
  dequeued t' hne hd := by simpa [hne] using hd

lemma ring_sleep (s : State) (t : Nat) (op : Op) (p q : Nat) (side : Side) :
    ((s.sleep t op q side).pipes p).ring = (s.pipes p).ring := by
  rcases eq_or_ne p q with rfl | hp
  · simp
  · simp [hp]

lemma supply_congr (h : (s'.pipes p).ring = (s.pipes p).ring) (side : Side) :
    (s'.pipes p).supply side = (s.pipes p).supply side := by
  cases side <;> simp only [PipeState.supply, h]

end State

/-! ## The invariant -/

structure Inv (s : State) : Prop where
  shape : Shape s
  justified : ∀ p side, s.Justified p side

open PipeRingBuffer

lemma Inv.init (h : s.Initial) : Inv s where
  shape := by
    refine ⟨fun p => ?_, fun t p side hb => ?_, fun t => ?_⟩
    · obtain ⟨capacity, hp⟩ := h.pipes p
      rw [hp]
      exact new_ok capacity
    · rw [h.tasks] at hb
      cases hb
    · rw [h.tasks]
      trivial
  justified p side := by
    rintro ⟨t, -, hb⟩
    rw [h.tasks] at hb
    cases hb

/-- What a task finds that was woken up for a side, and what it must not leave behind. -/
def Spends (s : State) (t p : Nat) (side : Side) (left : Nat) : Prop :=
  (s.tasks t).dequeuedAt p side = true → s.Waiting p side → left = 0

/-- A task finishes, or goes on, without anything done. -/
lemma Inv.giveUp (h : Inv s) (hspends : ∀ p side, Spends s t p side ((s.pipes p).supply side)) :
    Inv (s.setTask t .idle) where
  shape := h.shape.setTask t trivial fun _ _ => rfl
  justified p side :=
    (s.section_setTask (fun _ _ => rfl) p side).justified (h.justified p side) id (hspends p side)

variable {op : Op} {q len out : Nat} {side' : Side} {e : Event}

/-- A task falls asleep where there is nothing for it. -/
lemma Inv.sleep (h : Inv s) (hop : op.Ok) (hplace : op.waitsAt q side')
    (hopen : (s.pipes q).endOpen side'.peer = true) (hspent : (s.pipes q).supply side' = 0)
    (hspends : ∀ p side, ¬ (p = q ∧ side = side') → Spends s t p side ((s.pipes p).supply side)) :
    Inv (s.sleep t op q side') where
  shape := h.shape.sleep t hop hplace
  justified p side := by
    by_cases hsame : p = q ∧ side = side'
    · obtain ⟨rfl, rfl⟩ := hsame
      intro _
      have hends : ((s.sleep t op p side).pipes p).endOpen = (s.pipes p).endOpen := by
        simp
      rw [hends, State.supply_congr (s.ring_sleep t op p p side)]
      exact ⟨hopen, .inl hspent⟩
    · have hsupply := State.supply_congr (s.ring_sleep t op p q side') side
      apply (s.section_sleep t op hsame).justified (h.justified p side)
      · omega
      · rw [hsupply]
        exact hspends p side hsame

open Wakes

/-- **A transfer of task `t`.**  It changes the ring of pipe `q`, and takes a task off the queue of
`side'`, the side it brings something. -/
theorem Inv.transfer {r : PipeRingBuffer} {x : TaskState}
    (h : Inv s) (hr : r.Ok) (hx : x.Ok) (hawake : ∀ p side, x.blockedAt p side = false)
    (htask : ∀ p side, (s.tasks t).blockedAt p side = false) (hfront : s.FrontWaits q side')
    (hmono : (s.pipes q).supply side'.peer = 0 →
      PipeState.supply { s.pipes q with ring := r } side'.peer = 0)
    (hself : Spends s t q side'.peer (PipeState.supply { s.pipes q with ring := r } side'.peer))
    (hspends : ∀ p side, p ≠ q → Spends s t p side ((s.pipes p).supply side)) :
    let pop := ((s.setRing q r).setTask t x).popFront q side'
    Inv (pop.2.wakeTask pop.1) := by
  intro pop
  have hwakes : Wakes ((s.setRing q r).setTask t x) (pop.2.wakeTask pop.1) :=
    (popFront _ q side').trans (wakeTask _ _)
  refine ⟨(((h.shape.setRing q hr).setTask t hx hawake).popFront q side').wakeTask _, ?_⟩
  intro p side
  have hsec := s.section_setRing_setTask q r (t := t) hawake p side
  rcases eq_or_ne p q with rfl | hp
  · by_cases hside : side = side'
    · -- the side that gets something: one of its sleepers is on its way
      subst hside
      intro hw
      have hw' := hwakes.waiting hw
      have hpop := State.onItsWay_popFront (hfront.setTask hawake (htask p side)) hw'
      refine ⟨?_, .inr ((wakeTask pop.2 pop.1).onItsWay hpop)⟩
      rw [hwakes.endOpen, hsec.endOpen]
      exact (h.justified p side (hsec.waiting hw')).1
    · -- the side that loses something
      obtain rfl : side = side'.peer := by
        cases side <;> cases side' <;> first | rfl | exact absurd rfl hside
      have hsupply : (((s.setRing p r).setTask t x).pipes p).supply side'.peer =
          PipeState.supply { s.pipes p with ring := r } side'.peer := by
        simp
      apply hwakes.justified
      apply hsec.justified (h.justified p _)
      · omega
      · rw [hsupply]
        exact hself
  · have hsupply : (((s.setRing q r).setTask t x).pipes p).supply side =
        (s.pipes p).supply side := by
      exact State.supply_congr (s.ring_setRing_ne r hp) side
    apply hwakes.justified
    apply hsec.justified (h.justified p side)
    · omega
    · rw [hsupply]
      exact hspends p side hp

/-! ## Rounds -/

/-- What a wakeup must do for a round not to leave a sleeper behind: the task at the front of the
queue is one that sleeps there, and a task that was woken up uses up what it was woken for. -/
def RoundOk (s : State) (t : Nat) : Op → Prop
  | .read p segments =>
    (0 < (s.pipes p).supply .reader → s.FrontWaits p .writer) ∧
      ((s.tasks t).dequeuedAt p .reader = true → s.Waiting p .reader →
        (s.pipes p).supply .reader ≤ segments.sum)
  | .write p segments already _ =>
    (0 < (s.pipes p).supply .writer → s.FrontWaits p .reader) ∧
      ((s.tasks t).dequeuedAt p .writer = true → s.Waiting p .writer →
        (s.pipes p).supply .writer ≤ segments.flatten.length - already)
  | .tee p out _ =>
    (0 < (s.pipes p).supply .reader → 0 < (s.pipes out).supply .writer → s.FrontWaits out .reader) ∧
      ((s.tasks t).dequeuedAt p .reader = true → 0 < (s.pipes p).supply .reader →
        ¬ s.Waiting p .reader) ∧
      ((s.tasks t).dequeuedAt out .writer = true → 0 < (s.pipes out).supply .writer →
        ¬ s.Waiting out .writer)

section Rounds

variable {s : State} {t : Nat}
variable {op : Op}

/-- A task that can run a section sleeps nowhere, and was woken up where its call sleeps. -/
lemma Shape.of_next (h : Shape s) (hnext : (s.tasks t).next = some op) :
    op.Ok ∧ (∀ p side, (s.tasks t).blockedAt p side = false) ∧
      ∀ p side, (s.tasks t).dequeuedAt p side = true → op.waitsAt p side := by
  have hok := h.tasks t
  cases hx : s.tasks t with
  | idle | blocked => simp [hx, TaskState.next] at hnext
  | entering op' =>
    rw [hx] at hnext hok
    cases hnext
    exact ⟨hok, fun _ _ => rfl, nofun⟩
  | dequeued op' p side =>
    rw [hx] at hnext hok
    cases hnext
    refine ⟨hok.1, fun _ _ => rfl, fun p' side' hd => ?_⟩
    obtain ⟨op, hop⟩ := TaskState.dequeuedAt_iff.mp hd
    cases hop
    exact hok.2

lemma Inv.readRound (h : Inv s) {segments : List Nat}
    (hnext : (s.tasks t).next = some (.read p segments)) (hok : RoundOk s t (.read p segments))
    (interrupted : Bool) : Inv (s.readRound t p segments interrupted) := by
  obtain ⟨hsum, hawake, hplace⟩ := h.shape.of_next hnext
  have hring := h.shape.rings p
  -- a reader was woken up as a reader of this pipe
  have helsewhere : ∀ p' side, ¬ (p' = p ∧ side = .reader) →
      Spends s t p' side ((s.pipes p').supply side) :=
    fun p' side hne hd _ => absurd (hplace p' side hd) hne
  change 0 < segments.sum at hsum
  unfold State.readRound
  dsimp only
  split
  · have hempty : (s.pipes p).ring.availableRead = 0 := by omega
    have hall : ∀ p' side, Spends s t p' side ((s.pipes p').supply side) := by
      intro p' side
      by_cases hsame : p' = p ∧ side = .reader
      · obtain ⟨rfl, rfl⟩ := hsame
        exact fun _ _ => hempty
      · exact helsewhere p' side hsame
    split
    · exact h.giveUp hall
    rename_i hopen
    split
    · exact h.giveUp hall
    · exact h.sleep hsum ⟨rfl, rfl⟩ (by simpa [Side.peer] using hopen) hempty helsewhere
  · obtain ⟨hrok, hcap, hbytes, -⟩ := readSegments_spec hring
      (show min (s.pipes p).ring.availableRead segments.sum ≤ _ from min_le_left _ _)
      (min_le_right _ segments.sum)
    have hleft : ((s.pipes p).ring.readSegments segments
        (min (s.pipes p).ring.availableRead segments.sum)).1.availableRead =
        (s.pipes p).ring.availableRead - min (s.pipes p).ring.availableRead segments.sum := by
      rw [← length_bytes, hbytes, List.length_drop, length_bytes]
    refine h.transfer hrok trivial (fun _ _ => rfl) hawake (hok.1 ?_) ?_ ?_ ?_
    · change 0 < (s.pipes p).ring.availableRead
      omega
    · intro hzero
      change (s.pipes p).ring.availableRead = 0 at hzero
      omega
    · intro hd hw
      have hall := hok.2 hd hw
      change (s.pipes p).ring.availableRead ≤ _ at hall
      change availableRead _ = 0
      rw [hleft]
      omega
    · exact fun p' side hp => helsewhere p' side fun hsame => hp hsame.1

lemma Inv.writeRound (h : Inv s) {already : Nat} {segments : List (List Byte)} {nonblock : Bool}
    (hnext : (s.tasks t).next = some (.write p segments already nonblock))
    (hok : RoundOk s t (.write p segments already nonblock)) (interrupted : Bool) :
    Inv (s.writeRound t p segments already nonblock interrupted) := by
  obtain ⟨hop, hawake, hplace⟩ := h.shape.of_next hnext
  have hring := h.shape.rings p
  have helsewhere : ∀ p' side, ¬ (p' = p ∧ side = .writer) →
      Spends s t p' side ((s.pipes p').supply side) :=
    fun p' side hne hd _ => absurd (hplace p' side hd) hne
  have hall : (s.Waiting p .writer → (s.pipes p).supply .writer = 0) →
      ∀ p' side, Spends s t p' side ((s.pipes p').supply side) := by
    intro hzero p' side
    by_cases hsame : p' = p ∧ side = .writer
    · obtain ⟨rfl, rfl⟩ := hsame
      exact fun _ => hzero
    · exact helsewhere p' side hsame
  change already < segments.flatten.length at hop
  unfold State.writeRound
  dsimp only
  split
  · -- no reader is left, and so no writer sleeps
    rename_i hclosed
    apply h.giveUp
    apply hall
    intro hw
    have hopen := (h.justified p .writer hw).1
    simp [Side.peer, hclosed] at hopen
  next hopen =>
    split
    next hfull =>
      split
      · exact h.giveUp (hall fun _ => hfull)
      · split
        · exact h.giveUp (hall fun _ => hfull)
        · exact h.sleep hop ⟨rfl, rfl⟩ (by simpa [Side.peer] using hopen) hfull helsewhere
    next hroom =>
      have hroomEq := hring.availableWrite_eq
      set writeLen := min (s.pipes p).ring.availableWrite (segments.flatten.length - already)
        with hwriteLen
      have hdata : writeLen - 0 ≤ (segments.flatten.drop (already - 0)).length := by
        rw [List.length_drop]
        omega
      obtain ⟨hrok, hcap, hwritten, hbytes⟩ := writeSegments_spec hring 0 0
        (show 0 < writeLen by omega) (by omega) hdata
      have hleft : (writeSegments already writeLen (s.pipes p).ring segments 0 0
          ).1.availableWrite = (s.pipes p).ring.availableWrite - writeLen := by
        rw [hrok.availableWrite_eq, hcap, ← length_bytes, hbytes,
          List.length_append, length_bytes, List.length_take, List.length_drop]
        omega
      refine h.transfer hrok ?_ ?_ hawake (hok.1 ?_) ?_ ?_ ?_
      · rw [hwritten]
        split
        · trivial
        · change already + writeLen < segments.flatten.length
          omega
      · intro p' side
        split <;> rfl
      · change 0 < (s.pipes p).ring.availableWrite
        omega
      · intro hzero
        exact absurd hzero hroom
      · intro hd hw
        have huse := hok.2 hd hw
        change (s.pipes p).ring.availableWrite ≤ _ at huse
        change availableWrite _ = 0
        rw [hleft]
        omega
      · exact fun p' side hp => helsewhere p' side fun hsame => hp hsame.1

lemma Inv.teeRound (h : Inv s) (hnext : (s.tasks t).next = some (.tee p out len))
    (hok : RoundOk s t (.tee p out len)) (interrupted : Bool) :
    Inv (s.teeRound t p out len interrupted) := by
  obtain ⟨hop, hawake, hplace⟩ := h.shape.of_next hnext
  obtain ⟨hne, hlen⟩ : p ≠ out ∧ 0 < len := hop
  obtain ⟨hfront, hreader, hwriter⟩ := hok
  -- a side that it was woken up for has nothing left, or no other sleeper
  have hall : ∀ p' side, Spends s t p' side ((s.pipes p').supply side) := by
    intro p' side hd hw
    rcases hplace p' side hd with ⟨rfl, rfl⟩ | ⟨rfl, rfl⟩
    · by_contra hpos
      exact hreader hd (pos_of_ne_zero hpos) hw
    · by_contra hpos
      exact hwriter hd (pos_of_ne_zero hpos) hw
  unfold State.teeRound
  split
  next hempty =>
    split
    · exact h.giveUp hall
    next hopen =>
      simp only [not_or, Bool.not_eq_false] at hopen
      exact h.sleep ⟨hne, hlen⟩ (.inl ⟨rfl, rfl⟩) hopen.1 hempty fun p' side _ => hall p' side
  next hbytes =>
    split
    next hfull =>
      split
      · exact h.giveUp hall
      next hopen =>
        simp only [not_or, Bool.not_eq_false] at hopen
        exact h.sleep ⟨hne, hlen⟩ (.inr ⟨rfl, rfl⟩) hopen.1 hfull fun p' side _ => hall p' side
    next hroom =>
      have houtOk := h.shape.rings out
      obtain ⟨hrok, hcap, hcopied, hcontent⟩ :=
        duplicateTo_spec (h.shape.rings p) houtOk len
      have hpos : 0 < ((s.pipes p).ring.duplicateTo (s.pipes out).ring len).2 := by
        omega
      dsimp only
      rw [if_pos hpos]
      refine h.transfer hrok trivial (fun _ _ => rfl) hawake
        (hfront (pos_of_ne_zero hbytes) (pos_of_ne_zero hroom)) ?_ ?_ ?_
      · exact fun hzero => absurd hzero hroom
      · exact fun hd hw => absurd hw (hwriter hd (pos_of_ne_zero hroom))
      · exact fun p' side _ => hall p' side

lemma Inv.round (h : Inv s) (hnext : (s.tasks t).next = some op) (hok : RoundOk s t op)
    (interrupted : Bool) : Inv (s.round t op interrupted) := by
  cases op with
  | read p segments => exact h.readRound hnext hok interrupted
  | write p segments already nonblock => exact h.writeRound hnext hok interrupted
  | tee p out len => exact h.teeRound hnext hok interrupted

end Rounds

/-! ## Splices, closes and signals -/

/-- Rings change, and a side with nothing stays one with nothing. -/
lemma State.Justified.of_supply (h : s.Justified p side) (htasks : s'.tasks = s.tasks)
    (hqueue : (s'.pipes p).waitQueue side = (s.pipes p).waitQueue side)
    (hends : (s'.pipes p).endOpen side.peer = (s.pipes p).endOpen side.peer)
    (hspent : (s.pipes p).supply side = 0 → (s'.pipes p).supply side = 0) :
    s'.Justified p side := by
  rintro ⟨t, ht, hb⟩
  rw [hqueue] at ht
  rw [htasks] at hb
  obtain ⟨hopen, hrest⟩ := h ⟨t, ht, hb⟩
  rw [hends]
  refine ⟨hopen, hrest.imp hspent ?_⟩
  rintro ⟨t', ht'⟩
  exact ⟨t', htasks ▸ ht'⟩

/-- The front of a queue sleeps on while a task is taken off another one. -/
lemma State.FrontWaits.popFront (h : s.FrontWaits p side) (hother : ¬ (p = q ∧ side = side')) :
    (s.popFront q side').2.FrontWaits p side := by
  intro hw t ht
  have hb := h ((Wakes.popFront s q side').waiting hw) t
  unfold State.popFront at ht ⊢
  split
  next hnil =>
    simp only [hnil] at ht
    exact hb ht
  rename_i t' queue hq
  simp only [hq, pipes_dequeue] at ht
  have hsame : ((s.setQueue q side' queue).pipes p).waitQueue side =
      (s.pipes p).waitQueue side := by
    rcases eq_or_ne p q with rfl | hp
    · simp [show side ≠ side' from fun h => hother ⟨rfl, h⟩]
    · simp [hp]
  rw [hsame] at ht
  have hb := hb ht
  rcases (s.setQueue q side' queue).tasks_dequeue q side' t' t with heq | ⟨rfl, op, hop, -⟩
  · rw [heq]
    exact hb
  · -- the task taken off sleeps at the other queue
    change s.tasks t = _ at hop
    rw [hop] at hb
    simp only [TaskState.blockedAt, Bool.and_eq_true, decide_eq_true_eq] at hb
    exact absurd ⟨hb.1.symm, hb.2.symm⟩ hother

/-- Bytes that go from `p` to `out` bring something to the writers of `p` and the readers of `out`
only. -/
lemma State.supply_spliced (h : Shape s) (hne : p ≠ out) {p' : Nat}
    (hside : min (min len (s.pipes p).ring.availableRead) (s.pipes out).ring.availableWrite = 0 ∨
      ¬ (p' = p ∧ side = .writer) ∧ ¬ (p' = out ∧ side = .reader)) :
    let done := (s.pipes p).ring.transferTo (s.pipes out).ring len
    (s.pipes p').supply side = 0 →
      (((s.setRing p done.1).setRing out done.2.1).pipes p').supply side = 0 := by
  intro done
  have hpOk := h.rings p
  have houtOk := h.rings out
  obtain ⟨hok, hook, hcap, hocap, -, hbytes, hobytes⟩ :=
    transferTo_spec hpOk houtOk len
  have hread := congrArg List.length hbytes
  have hwrite := congrArg List.length hobytes
  simp only [List.length_append, List.length_take, List.length_drop, length_bytes]
    at hread hwrite
  rcases eq_or_ne p' p with rfl | hp
  · have hring : (((s.setRing p' done.1).setRing out done.2.1).pipes p').ring = done.1 := by
      rw [ring_setRing_ne _ _ hne, ring_setRing_self]
    cases side with
    | reader =>
      simp only [PipeState.supply, hring, done]
      omega
    | writer =>
      simp only [PipeState.supply, hring, done, hok.availableWrite_eq, hpOk.availableWrite_eq, hcap]
      simp only [and_self, not_true_eq_false, false_and, or_false] at hside
      omega
  · rcases eq_or_ne p' out with rfl | hout
    · have hring : (((s.setRing p done.1).setRing p' done.2.1).pipes p').ring = done.2.1 :=
        ring_setRing_self _ _ _
      cases side with
      | reader =>
        simp only [PipeState.supply, hring, done]
        simp only [hp, false_and, not_false_eq_true, and_self, not_true_eq_false, and_false,
          or_false] at hside
        omega
      | writer =>
        simp only [PipeState.supply, hring, done, hook.availableWrite_eq, houtOk.availableWrite_eq,
          hocap]
        omega
    · have hsame : (((s.setRing p done.1).setRing out done.2.1).pipes p').ring =
          (s.pipes p').ring := by
        rw [ring_setRing_ne _ _ hout, ring_setRing_ne _ _ hp]
      rw [supply_congr hsame]
      exact id

lemma Inv.splice (h : Inv s) (hne : p ≠ out)
    (hfront : 0 < min (min len (s.pipes p).ring.availableRead) (s.pipes out).ring.availableWrite →
      s.FrontWaits p .writer ∧ s.FrontWaits out .reader) : Inv (s.splice p out len) := by
  obtain ⟨hok, hook, -, -, hmoved, -⟩ :=
    transferTo_spec (h.shape.rings p) (h.shape.rings out) len
  unfold State.splice
  dsimp only
  set s₁ := (s.setRing p ((s.pipes p).ring.transferTo (s.pipes out).ring len).1).setRing out
    ((s.pipes p).ring.transferTo (s.pipes out).ring len).2.1 with hs₁
  have hshape : Shape s₁ := (h.shape.setRing p hok).setRing out hook
  have hqueue : ∀ p', (s₁.pipes p').waitQueue = (s.pipes p').waitQueue := fun p' => by
    rw [hs₁, State.pipes_setRing_waitQueue, State.pipes_setRing_waitQueue]
  have hends : ∀ p', (s₁.pipes p').endOpen = (s.pipes p').endOpen := fun p' => by
    rw [hs₁, State.pipes_setRing_endOpen, State.pipes_setRing_endOpen]
  have hwaiting : ∀ {p' side}, s₁.Waiting p' side → s.Waiting p' side := fun hw =>
    State.waiting_setRing.mp (State.waiting_setRing.mp hw)
  split
  next hpos =>
    rw [hmoved] at hpos
    obtain ⟨hfw, hfr⟩ := hfront hpos
    have hfront₁ : ∀ {p' side}, s.FrontWaits p' side → s₁.FrontWaits p' side := by
      intro p' side hf hw t ht
      rw [hqueue] at ht
      exact hf (hwaiting hw) t ht
    set s₂ := (s₁.popFront p .writer).2
    set s₃ := (s₂.popFront out .reader).2
    have hw₂ : Wakes s₁ s₂ := popFront s₁ p .writer
    have hw₃ : Wakes s₂ s₃ := popFront s₂ out .reader
    have hw₄ : Wakes s₃ ((s₃.wakeTask (s₁.popFront p .writer).1).wakeTask
        (s₂.popFront out .reader).1) := (wakeTask _ _).trans (wakeTask _ _)
    have hall := (hw₂.trans hw₃).trans hw₄
    refine ⟨(((hshape.popFront p .writer).popFront out .reader).wakeTask _).wakeTask _, ?_⟩
    intro p' side
    by_cases hpw : p' = p ∧ side = .writer
    · -- the first task taken off is a writer of `p`
      obtain ⟨rfl, rfl⟩ := hpw
      intro hw
      refine ⟨?_, .inr ((hw₃.trans hw₄).onItsWay ?_)⟩
      · rw [hall.endOpen, hends]
        exact (h.justified p' .writer (hwaiting (hall.waiting hw))).1
      · exact State.onItsWay_popFront (hfront₁ hfw) (hall.waiting hw)
    · by_cases hor : p' = out ∧ side = .reader
      · -- the second one is a reader of `out`
        obtain ⟨rfl, rfl⟩ := hor
        intro hw
        refine ⟨?_, .inr (hw₄.onItsWay ?_)⟩
        · rw [hall.endOpen, hends]
          exact (h.justified p' .reader (hwaiting (hall.waiting hw))).1
        · exact State.onItsWay_popFront ((hfront₁ hfr).popFront hpw) ((hw₃.trans hw₄).waiting hw)
      · apply hall.justified
        exact (h.justified p' side).of_supply rfl (by rw [hqueue]) (by rw [hends])
          (State.supply_spliced h.shape hne (.inr ⟨hpw, hor⟩))
  next hzero =>
    rw [hmoved] at hzero
    refine ⟨hshape, fun p' side => ?_⟩
    exact (h.justified p' side).of_supply rfl (by rw [hqueue]) (by rw [hends])
      (State.supply_spliced h.shape hne (.inl (by omega)))

lemma Inv.close (h : Inv s) : Inv (s.close p side) := by
  set s₁ : State := { s with
    pipes := Function.update s.pipes p
      { s.pipes p with endOpen := Function.update (s.pipes p).endOpen side false } } with hs₁
  have hkept : ∀ p', (s₁.pipes p').ring = (s.pipes p').ring ∧
      (s₁.pipes p').waitQueue = (s.pipes p').waitQueue := by
    intro p'
    rcases eq_or_ne p' p with rfl | hp
    · simp [hs₁]
    · simp [hs₁, hp]
  have hshape : Shape s₁ := ⟨fun p' => (hkept p').1 ▸ h.shape.rings p',
    fun t p' side' hb => by rw [(hkept p').2]; exact h.shape.queued t p' side' hb, h.shape.tasks⟩
  obtain ⟨hshape', hwakes, hgone⟩ := State.wakeAll_spec hshape p side.peer
  refine ⟨hshape', fun p' side' => ?_⟩
  by_cases hsame : p' = p ∧ side' = side.peer
  · obtain ⟨rfl, rfl⟩ := hsame
    exact fun hw => absurd hw hgone
  -- the other sides do not depend on this end
  apply hwakes.justified
  refine (h.justified p' side').of_supply rfl (by rw [(hkept p').2]) ?_ ?_
  · rcases eq_or_ne p' p with rfl | hp
    · have hpeer : side'.peer ≠ side := by
        rintro rfl
        exact hsame ⟨rfl, by cases side' <;> rfl⟩
      simp [hs₁, hpeer]
    · simp [hs₁, hp]
  · rw [State.supply_congr (hkept p').1]
    exact id

/-! ## Runs -/

/-- Wakeups reach a sleeper, and what it was woken up for is used up. -/
def StepOk (s : State) : Event → Prop
  | .enter t _ => ∀ op ∈ (s.tasks t).next, RoundOk s t op
  | .splice p out len =>
    0 < min (min len (s.pipes p).ring.availableRead) (s.pipes out).ring.availableWrite →
      s.FrontWaits p .writer ∧ s.FrontWaits out .reader
  | _ => True

instance (s : State) (p : Nat) (side : Side) : Decidable (s.Waiting p side) := by
  unfold State.Waiting
  infer_instance

instance (s : State) (p : Nat) (side : Side) : Decidable (s.FrontWaits p side) := by
  unfold State.FrontWaits
  infer_instance

instance (s : State) (t : Nat) (op : Op) : Decidable (RoundOk s t op) := by
  cases op <;> (unfold RoundOk; infer_instance)

instance : DecidableRel StepOk := fun s e => by
  cases e <;> (unfold StepOk; infer_instance)

lemma Op.ok_of_starts (h : op.starts = true) : op.Ok := by
  cases op with
  | read | tee => simpa [Op.starts, Op.Ok] using h
  | write p segments already nonblock =>
    simp only [Op.starts, Bool.and_eq_true, decide_eq_true_eq] at h
    simp only [Op.Ok]
    omega

theorem Inv.step (h : Inv s) (hok : StepOk s e) (hs : s.step e = some s') : Inv s' := by
  cases e with
  | call t op =>
    simp only [State.step] at hs
    split at hs
    swap
    · cases hs
    rename_i hidle
    obtain ⟨hstarts, rfl⟩ := of_guard hs
    refine ⟨h.shape.setTask t (Op.ok_of_starts hstarts) fun _ _ => rfl, fun p side => ?_⟩
    apply (s.section_setTask (fun _ _ => rfl) p side).justified (h.justified p side) id
    intro hd
    rw [hidle] at hd
    cases hd
  | enter t interrupted =>
    simp only [State.step] at hs
    split at hs
    next op hnext =>
      cases hs
      exact h.round hnext (hok op hnext) interrupted
    · cases hs
  | splice p out len =>
    simp only [State.step] at hs
    split at hs
    · cases hs
    next hne =>
      cases hs
      exact h.splice hne hok
  | close p side =>
    obtain ⟨-, rfl⟩ := of_guard hs
    exact h.close
  | signal t =>
    simp only [State.step] at hs
    split at hs
    next ht =>
      cases hs
      have hok := h.shape.tasks t
      rw [ht] at hok
      refine ⟨h.shape.setTask t hok.1 fun _ _ => rfl, fun p' side' => ?_⟩
      exact (setTask ht rfl fun _ _ => rfl).justified (h.justified p' side')
    · cases hs

/-! ## Tasks that do not move -/

/-- The task whose step an event is. -/
def Event.task : Event → Option Nat
  | .call t _ | .enter t _ => some t
  | _ => none

lemma State.call_round {t' : Nat} (op : Op) (interrupted : Bool) (hne : t' ≠ t) :
    ((s.round t op interrupted).tasks t').call = (s.tasks t').call := by
  have htransfer : ∀ p r x side, (((((s.setRing p r).setTask t x).popFront p side).2.wakeTask
      (((s.setRing p r).setTask t x).popFront p side).1).tasks t').call = (s.tasks t').call := by
    intro p r x side
    rw [((Wakes.popFront _ p side).trans (Wakes.wakeTask _ _)).call]
    simp [hne]
  -- every branch ends the call, goes to sleep, or transfers and wakes one task
  cases op <;> simp only [round, readRound, writeRound, teeRound]
  all_goals
    repeat' split
    all_goals first
      | exact htransfer _ _ _ _
      | simp [hne]

/-- The call of a task changes in its own steps only. -/
lemma State.call_step (hs : s.step e = some s') (htask : e.task ≠ some t) :
    (s'.tasks t).call = (s.tasks t).call := by
  cases e with
  | call t' op =>
    have hne : t ≠ t' := fun heq => htask (congrArg some heq.symm)
    simp only [step] at hs
    split at hs
    · obtain ⟨-, rfl⟩ := of_guard hs
      simp [hne]
    · cases hs
  | enter t' interrupted =>
    simp only [step] at hs
    split at hs
    · cases hs
      exact call_round _ interrupted fun heq => htask (congrArg some heq.symm)
    · cases hs
  | splice p out len =>
    simp only [step] at hs
    split at hs
    · cases hs
    cases hs
    simp only [splice]
    split
    · exact ((((Wakes.popFront _ p .writer).trans (Wakes.popFront _ out .reader)).trans
        (Wakes.wakeTask _ _)).trans (Wakes.wakeTask _ _)).call t
    · rfl
  | close p side =>
    obtain ⟨-, rfl⟩ := of_guard hs
    exact (Wakes.wakeAll _ p side.peer).call t
  | signal t' =>
    simp only [step] at hs
    split at hs
    next ht =>
      cases hs
      exact (Wakes.setTask ht rfl fun _ _ => rfl).call t
    · cases hs

/-- Calls of the first `n` tasks only. -/
def CallsBelow (n : Nat) (_ : State) : Event → Prop
  | .call t _ => t < n
  | _ => True

lemma State.idle_of_callsBelow {n : Nat} (h : system.Reachable (CallsBelow n) s) (ht : n ≤ t) :
    s.tasks t = .idle := by
  apply h.invariant
  · exact fun s hs => hs.tasks t
  intro s e s' hidle hok hs
  by_cases htask : e.task = some t
  · cases e with
    | call t' op =>
      cases htask
      exact absurd (show t < n from hok) (by omega)
    | enter t' interrupted =>
      cases htask
      simp [system, step, hidle, TaskState.next] at hs
    | splice | close | signal => cases htask
  · rw [← TaskState.call_eq_none] at hidle ⊢
    rw [call_step hs htask, hidle]

/-! ## The result -/

/-- **Sleeping at a pipe is justified.**  In every run in which each wakeup reaches a task that
sleeps and each task that is woken up uses up what it was woken for, at every point where no
task of a pipe is on its way from a queue to the lock, a reader sleeps only while the ring is
empty and a write end is open, and a writer only while it is full and a read end is open. -/
theorem pipe_blocking_justified {s : State} (h : system.Reachable StepOk s) {p : Nat}
    (hsettled : ∀ t side, (s.tasks t).dequeuedAt p side = false) :
    (∀ t ∈ (s.pipes p).waitQueue .reader, (s.tasks t).blockedAt p .reader = true →
      (s.pipes p).ring.bytes = [] ∧ (s.pipes p).endOpen .writer = true) ∧
    (∀ t ∈ (s.pipes p).waitQueue .writer, (s.tasks t).blockedAt p .writer = true →
      (s.pipes p).ring.bytes.length = (s.pipes p).ring.capacity ∧
        (s.pipes p).endOpen .reader = true) := by
  have hinv : Inv s := by
    apply h.invariant
    · exact fun s hs => Inv.init hs
    · exact fun s e s' hinv hok hs => hinv.step hok hs
  have hspent : ∀ side t, t ∈ (s.pipes p).waitQueue side → (s.tasks t).blockedAt p side = true →
      (s.pipes p).endOpen side.peer = true ∧ (s.pipes p).supply side = 0 := by
    intro side t ht hb
    obtain ⟨hopen, hzero | ⟨t', ht'⟩⟩ := hinv.justified p side ⟨t, ht, hb⟩
    · exact ⟨hopen, hzero⟩
    · simp [hsettled] at ht'
  constructor
  · intro t ht hb
    obtain ⟨hopen, hzero⟩ := hspent .reader t ht hb
    exact ⟨List.eq_nil_of_length_eq_zero (by rw [length_bytes]; exact hzero), hopen⟩
  intro t ht hb
  obtain ⟨hopen, hzero⟩ := hspent .writer t ht hb
  have hring := hinv.shape.rings p
  have hle := hring.availableRead_le
  change (s.pipes p).ring.availableWrite = 0 at hzero
  rw [hring.availableWrite_eq] at hzero
  rw [length_bytes]
  exact ⟨by omega, hopen⟩

/-- Pipes of the least capacity and no calls. -/
def boot : State where
  pipes _ := ⟨.new 0, fun _ => true, fun _ => []⟩
  tasks _ := .idle

lemma boot_initial : boot.Initial := ⟨fun _ => ⟨0, rfl⟩, fun _ => rfl⟩

instance (n : Nat) : DecidableRel (CallsBelow n) := fun s e => by
  cases e <;> (unfold CallsBelow; infer_instance)

/-- Whether one of the first three tasks is on its way to pipe 0, its readers' queue, whether task 1
sleeps there, and the bytes of the pipe. -/
def State.summary (s : State) : Bool × List Nat × Bool × List Byte :=
  ((List.range 3).any fun t =>
      (s.tasks t).dequeuedAt 0 .reader || (s.tasks t).dequeuedAt 0 .writer,
    (s.pipes 0).waitQueue .reader, (s.tasks 1).blockedAt 0 .reader, (s.pipes 0).ring.bytes)

lemma State.settled_of_summary (h : system.Reachable (CallsBelow 3) s)
    (hs : s.summary.1 = false) (t : Nat) (side : Side) : (s.tasks t).dequeuedAt 0 side = false := by
  rcases lt_or_ge t 3 with ht | ht
  · have hno := List.any_eq_false.mp hs t (List.mem_range.mpr ht)
    simp only [Bool.or_eq_true, not_or, Bool.not_eq_true] at hno
    cases side
    · exact hno.1
    · exact hno.2
  · rw [idle_of_callsBelow h ht]
    rfl

/-- Two readers of `n` bytes each go to sleep, a write of two bytes wakes up the first, and it
reads. -/
def twoReaders (n : Nat) : List Event :=
  [.call 0 (.read 0 [n]), .enter 0 false, .call 1 (.read 0 [n]), .enter 1 false,
    .call 2 (.write 0 [[1, 2]] 0 false), .enter 2 false, .enter 0 false]

theorem pipe_blocking_justified_twoReaders :
    ∃ s, system.Reachable StepOk s ∧ (∀ t side, (s.tasks t).dequeuedAt 0 side = false) ∧
      1 ∈ (s.pipes 0).waitQueue .reader ∧ (s.tasks 1).blockedAt 0 .reader = true ∧
      (s.pipes 0).ring.bytes = [] ∧ (s.pipes 0).endOpen .writer = true := by
  have hrun : (system.runWhile (fun s e => StepOk s e ∧ CallsBelow 3 s e) boot (twoReaders 4)).map
      State.summary = some (false, [1], true, []) := by decide +kernel
  obtain ⟨s, hreach, -, hv⟩ := System.exists_reachable hrun boot_initial
  have hok : system.Reachable StepOk s := hreach.mono fun _ _ h => h.1
  have hsettled := State.settled_of_summary (hreach.mono fun _ _ h => h.2)
    (congrArg Prod.fst hv)
  obtain ⟨-, hv⟩ := Prod.mk.inj hv
  obtain ⟨hqueue, hv⟩ := Prod.mk.inj hv
  obtain ⟨hblocked, -⟩ := Prod.mk.inj hv
  have hmem : 1 ∈ (s.pipes 0).waitQueue .reader := by simp [hqueue]
  exact ⟨s, hok, hsettled, hmem, hblocked, (pipe_blocking_justified hok hsettled).1 1 hmem hblocked⟩

/-- **A reader left sleeping.**  The write wakes up one reader of two, who takes one byte of the
two; the other sleeps on beside the second byte, and nobody is on the way. -/
theorem reader_left_sleeping :
    ∃ s, system.Reachable System.anyStep s ∧ (∀ t side, (s.tasks t).dequeuedAt 0 side = false) ∧
      1 ∈ (s.pipes 0).waitQueue .reader ∧ (s.tasks 1).blockedAt 0 .reader = true ∧
      (s.pipes 0).ring.bytes = [2] := by
  have hrun : (system.runWhile (CallsBelow 3) boot (twoReaders 1)).map State.summary =
      some (false, [1], true, [2]) := by decide +kernel
  obtain ⟨s, hreach, -, hv⟩ := System.exists_reachable hrun boot_initial
  have hsettled := State.settled_of_summary hreach (congrArg Prod.fst hv)
  obtain ⟨-, hv⟩ := Prod.mk.inj hv
  obtain ⟨hqueue, hv⟩ := Prod.mk.inj hv
  obtain ⟨hblocked, hbytes⟩ := Prod.mk.inj hv
  exact ⟨s, hreach.mono fun _ _ _ => trivial, hsettled, by simp [hqueue], hblocked, hbytes⟩

end Whusp.Fs.Pipe
