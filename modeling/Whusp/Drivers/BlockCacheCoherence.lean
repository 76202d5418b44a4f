import Whusp.Drivers.BlockCacheWrites
import Whusp.Lib.Counting

/-!
# Coherence of the block cache

When no call is in flight, every line of every shard should be what the device holds.  A write
keeps its side: after each transfer it still has a section to do for every line the transfer made
stale.  A versioned read keeps its side through the epoch, as long as that does not come round to a
token that is still held.  An unversioned read does not: it
enters what it read from the device however long ago that was, so a write that transfers between
the read and the entry leaves a stale line behind.
-/

namespace Whusp.Drivers.BlockCache

open List

open Whusp.Lib (Byte System sum_map_set le_sum_map)

variable {deviceKey : BitVec 64}

/-! ## The invariant -/

def Call.writing : Call → Bool
  | .write _ _ sections => !sections.isEmpty
  | .read _ => false

@[simp] lemma Call.writing_read (r : ReadCall) : (Call.read r).writing = false := rfl

@[simp] lemma Call.writing_nil (lo blocks : Nat) : (Call.write lo blocks []).writing = false :=
  rfl

@[simp] lemma Call.writing_cons (lo blocks : Nat) (sec : Section) (rest : List Section) :
    (Call.write lo blocks (sec :: rest)).writing = true := rfl

def Call.range : Call → Nat × Nat
  | .write block blocks _ => (block, blocks)
  | .read _ => (0, 0)

def Call.sections : Call → List Section
  | .write _ _ sections => sections
  | .read _ => []

/-- The writes in progress touch different blocks. -/
def Call.Apart (c d : Call) : Prop :=
  c.writing = true → d.writing = true →
    c.range.1 + c.range.2 ≤ d.range.1 ∨ d.range.1 + d.range.2 ≤ c.range.1

/-- A line to be entered is that of the device and goes where it belongs. -/
def Fresh (deviceKey : BitVec 64) (device : Nat → Block) (kind : LineKind) (i : Nat)
    (run : List (Nat × List Block)) : Prop :=
  ∀ l ∈ run, cacheShardIndex deviceKey l.1 = i ∧ l.2 = window device l.1 kind.blocks

def ReadCall.Ok (deviceKey : BitVec 64) (s : State) (r : ReadCall) : Prop :=
  match r.phase with
  | .reading _ _ (some token) => s.writeEpoch = token → s.writersInflight = 0
  | .publishing _ blocks token data =>
    s.writeEpoch = token → s.writersInflight = 0 ∧ data = window s.device r.block blocks
  | .filling kind _ fills => ∀ run ∈ fills, Fresh deviceKey s.device kind run.1 run.2
  | _ => True

structure WriteLeft (deviceKey : BitVec 64) (device : Nat → Block) (lo blocks : Nat)
    (sections : List Section) : Prop where
  covered : Covered deviceKey sections
  settled : Settled deviceKey device sections
  within : ∀ sec ∈ sections, sec.Within lo blocks
  ends : Ends sections

def Call.Ok (deviceKey : BitVec 64) (s : State) : Call → Prop
  | .write lo blocks sections => WriteLeft deviceKey s.device lo blocks sections
  | .read r => r.Ok deviceKey s

structure Inv (deviceKey : BitVec 64) (s : State) : Prop where
  located : ∀ {i kind line data}, s.Holds i kind line data → cacheShardIndex deviceKey line = i
  /-- A stale line is one that a write in progress still has to drop. -/
  coherent : ∀ {i kind line data}, s.Holds i kind line data →
    data = window s.device line kind.blocks ∨
      ∃ c ∈ s.calls, ∃ sec ∈ c.sections, sec.Drops i kind line
  writers : s.writersInflight = (s.calls.map fun c => c.writing.toNat).sum
  calls : ∀ c ∈ s.calls, c.Ok deviceKey s
  apart : ∀ {i j : Nat} {c d : Call}, i ≠ j → s.calls[i]? = some c → s.calls[j]? = some d →
    c.Apart d

variable {s : State}

lemma Inv.init (h : s.Initial) : Inv deviceKey s where
  located {i kind line data} hl := by
    simp [State.Holds, h.empty] at hl
  coherent {i kind line data} hl := by
    simp [State.Holds, h.empty] at hl
  writers := by simp [h.calls, h.idle]
  calls := by simp [h.calls]
  apart := by simp [h.calls]

/-! ## Steps of a read -/

variable {j blocks : Nat} {c : Call}
variable {calls : List Call} {d : Call} {i lo : Nat} {data : List Block}
  {keep : LineKind → Nat → Bool} {s' : State} {rest : List Section}

variable {r : ReadCall} {sec : Section}

/-- A call other than the one that moves stands where it was. -/
lemma mem_set_of_sections (c' : Call) (hj : calls[j]? = some (.read r)) (hc : c ∈ calls)
    (hsec : sec ∈ c.sections) : c ∈ calls.set j c' := by
  obtain ⟨i, hi⟩ := mem_iff_getElem?.mp hc
  have hne : j ≠ i := by
    rintro rfl
    rw [hj] at hi
    cases hi
    cases hsec
  exact mem_of_getElem? (by rw [getElem?_set_ne hne]; exact hi)

open State

/-- A read goes on without touching the cache. -/
lemma Inv.setRead {r' : ReadCall} (h : Inv deviceKey s) (hj : s.calls[j]? = some (.read r))
    (hok : r'.Ok deviceKey s) : Inv deviceKey (s.setCall j (.read r')) where
  located hl := h.located hl
  coherent hl := by
    rcases h.coherent hl with hdata | ⟨c, hc, sec, hsec, hdrops⟩
    · exact .inl hdata
    · exact .inr ⟨c, mem_set_of_sections _ hj hc hsec, sec, hsec, hdrops⟩
  writers := by
    have := sum_map_set (fun c : Call => c.writing.toNat) (.read r') hj
    have hw := h.writers
    simp only [setCall, Call.writing_read, Bool.toNat_false] at this ⊢
    omega
  calls c hc := by
    rcases mem_or_eq_of_mem_set hc with hc | rfl
    · exact h.calls c hc
    · exact hok
  apart {i k c d} hne hc hd := by
    simp only [setCall, getElem?_set] at hc hd
    -- a read is apart from everything
    split at hc
    · split at hc
      · cases hc
        nofun
      · cases hc
    · split at hd
      · split at hd
        · cases hd
          intro _ hfalse
          cases hfalse
        · cases hd
      · exact h.apart hne hc hd

variable {kind : LineKind}

lemma Inv.enter {run : List (Nat × List Block)} (h : Inv deviceKey s)
    (hrun : Fresh deviceKey s.device kind i run) (keep : LineKind → Nat → Bool) :
    Inv deviceKey (s.enter kind i run keep) where
  located hl := by
    rcases holds_enter hl with ⟨rfl, rfl, hmem⟩ | ⟨hold, -⟩
    · exact (hrun _ hmem).1
    · exact h.located hold
  coherent hl := by
    rcases holds_enter hl with ⟨rfl, rfl, hmem⟩ | ⟨hold, -⟩
    · exact .inl (hrun _ hmem).2
    · exact h.coherent hold
  writers := h.writers
  calls := h.calls
  apart := h.apart

lemma Inv.enterAll {runs : List (Nat × List (Nat × List Block))} (h : Inv deviceKey s)
    (hruns : ∀ run ∈ runs, Fresh deviceKey s.device kind run.1 run.2)
    (keep : LineKind → Nat → Bool) :
    Inv deviceKey (runs.foldl (fun s run => s.enter kind run.1 run.2 keep) s) ∧
      (runs.foldl (fun s run => s.enter kind run.1 run.2 keep) s).calls = s.calls := by
  induction runs generalizing s with
  | nil => exact ⟨h, rfl⟩
  | cons run runs ih =>
    exact ih (h.enter (hruns run mem_cons_self) keep)
      fun run' hrun' => hruns run' (mem_cons_of_mem _ hrun')

/-- The runs of what was just read are those of the device. -/
lemma fresh_shardRuns {device : Nat → Block} {block : Nat}
    {run : Nat × List (Nat × List Block)} (h : run ∈ shardRuns (cacheShardIndex deviceKey)
      (lineRun kind block (window device block blocks))) :
    Fresh deviceKey device kind run.1 run.2 := fun l hl =>
  have ⟨hi, hmem⟩ := mem_shardRuns h l hl
  ⟨hi, mem_lineRun_window hmem⟩

/-- A token that is still current vouches for what was read. -/
lemma Inv.publish {token : BitVec 64} (h : Inv deviceKey s) (kind : LineKind)
    (hok : s.writeEpoch = token → s.writersInflight = 0 ∧ data = window s.device r.block blocks)
    (keep : LineKind → Nat → Bool) : Inv deviceKey (s.publish deviceKey r kind token data keep) ∧
      (s.publish deviceKey r kind token data keep).calls = s.calls := by
  unfold State.publish
  split
  next hcurrent =>
    simp only [readFillTokenIsCurrent, Bool.and_eq_true, decide_eq_true_eq] at hcurrent
    obtain ⟨-, rfl⟩ := hok hcurrent.2
    exact h.enterAll (fun run hrun => fresh_shardRuns hrun) keep
  · exact ⟨h, rfl⟩

lemma ReadCall.ok_startRound (s : State) (r : ReadCall) :
    (State.startRound r).Ok deviceKey s := by
  unfold startRound
  split
  · trivial
  · split <;> trivial

lemma ReadCall.ok_scan (s : State) (r : ReadCall) (kind : LineKind) (maxBlocks blocks : Nat) :
    (s.scan deviceKey r kind maxBlocks blocks).Ok deviceKey s := by
  unfold scan
  dsimp only
  split
  · trivial
  · generalize scanShard _ _ _ _ _ _ _ _ = found
    split <;> trivial

theorem Inv.stepRead (h : Inv deviceKey s) (hj : s.calls[j]? = some (.read r))
    (hs : s.stepRead deviceKey j r keep = some s') : Inv deviceKey s' := by
  have hr : r.Ok deviceKey s := h.calls _ (mem_of_getElem? hj)
  obtain ⟨versioned, block, addr, remaining, phase⟩ := r
  cases phase with
  | head =>
    cases hs
    exact h.setRead hj (ReadCall.ok_startRound _ _)
  | scanning kind maxBlocks blocks =>
    cases hs
    exact h.setRead hj (ReadCall.ok_scan _ _ _ _ _)
  | missed kind blocks =>
    simp only [stepRead] at hs
    split at hs
    · cases hs
      apply h.setRead hj
      unfold readFillToken
      split
      · trivial
      next hidle =>
        exact fun _ => not_not.mp hidle
    · cases hs
      exact h.setRead hj fun run hrun => fresh_shardRuns hrun
  | reading kind blocks token =>
    cases token with
    | none =>
      cases hs
      exact h.setRead hj trivial
    | some token =>
      cases hs
      exact h.setRead hj fun heq => ⟨hr heq, rfl⟩
  | publishing kind blocks token data =>
    cases hs
    obtain ⟨hinv, hcalls⟩ := h.publish kind hr keep
    exact hinv.setRead (hcalls ▸ hj) trivial
  | filling kind blocks fills =>
    cases fills with
    | nil =>
      cases hs
      exact h.setRead hj trivial
    | cons run fills =>
      cases hs
      have hinv := h.enter (hr run mem_cons_self) keep
      exact hinv.setRead hj fun run' hrun' => hr run' (mem_cons_of_mem _ hrun')
  | finished => cases hs

/-! ## Steps of a write -/

variable {t : State}

lemma State.device_exec (h : s.exec keep sec = some t) : t.device = sec.transferred s.device := by
  cases sec <;> cases h <;> rfl

lemma State.calls_exec (h : s.exec keep sec = some t) : t.calls = s.calls := by
  cases sec <;> cases h <;> rfl

/-- What the cache holds after a section was entered by it, or was there and not dropped. -/
lemma State.holds_exec {line : Nat} (ht : s.exec keep sec = some t)
    (h : t.Holds i kind line data) :
    (∃ run, sec = .update kind i run ∧ (line, data) ∈ run) ∨
      (s.Holds i kind line data ∧ ¬ sec.Drops i kind line) := by
  cases sec with
  | transfer | endWrite =>
    cases ht
    exact .inr ⟨h, nofun⟩
  | transferTail => cases ht
  | invalidate kind' i' block blocks =>
    cases ht
    rw [holds_setShard] at h
    split at h
    next hi =>
      subst hi
      obtain ⟨hold, hno⟩ := Shard.lines_invalidate h
      refine .inr ⟨hold, ?_⟩
      rintro ⟨-, rfl, hov⟩
      exact hno ⟨rfl, hov⟩
    next hi =>
      exact .inr ⟨h, fun hdrops => hi hdrops.1.symm⟩
  | update kind' i' run =>
    cases ht
    rcases holds_enter h with ⟨rfl, rfl, hmem⟩ | ⟨hold, hno⟩
    · exact .inl ⟨run, rfl, hmem⟩
    · refine .inr ⟨hold, ?_⟩
      rintro ⟨rfl, rfl, l, hl, heq⟩
      exact hno rfl l hl ⟨rfl, heq⟩

/-- No lines that an unversioned read is about to enter overlap the blocks `r`. -/
def ReadCall.Spares (r : ReadCall) (range : Nat × Nat) : Prop :=
  match r.phase with
  | .filling kind _ fills => ∀ run ∈ fills, ∀ l ∈ run.2,
      range.2 = 0 ∨ l.1 + kind.blocks ≤ range.1 ∨ range.1 + range.2 ≤ l.1
  | _ => True

def Call.Spares (c : Call) (range : Nat × Nat) : Prop :=
  match c with
  | .read r => r.Spares range
  | .write _ _ _ => True

instance (c : Call) (range : Nat × Nat) : Decidable (c.Spares range) := by
  unfold Call.Spares ReadCall.Spares
  split
  · split <;> infer_instance
  · infer_instance

/-- The token of a read that has still to publish what it reads. -/
def Call.token : Call → Option (BitVec 64)
  | .read r =>
    match r.phase with
    | .reading _ _ token => token
    | .publishing _ _ token _ => some token
    | _ => none
  | .write _ _ _ => none

section

variable (h : Inv deviceKey s) (hj : s.calls[j]? = some (.write lo blocks (sec :: rest)))
include h hj

/-- The call keeps what it relies on: another write has other blocks, a versioned read another
epoch, and an unversioned one is spared. -/
lemma Inv.ok_exec
    (hspares : ∀ c ∈ s.calls, ∀ r, sec.range = some r → c.Spares r)
    (hfresh : sec = .endWrite → ∀ c ∈ s.calls, c.token ≠ some (s.writeEpoch + 1))
    (ht : s.exec keep sec = some t) (hne : i ≠ j) (hc : s.calls[i]? = some c) :
    c.Ok deviceKey t := by
  have hok := h.calls c (mem_of_getElem? hc)
  have hleft : WriteLeft deviceKey s.device lo blocks (sec :: rest) :=
    h.calls _ (mem_of_getElem? hj)
  have hwithin := (hleft.within sec mem_cons_self).1
  -- a write is in progress
  have hbusy : 0 < s.writersInflight := by
    have := le_sum_map (fun c : Call => c.writing.toNat) (mem_of_getElem? hj)
    rw [h.writers]
    exact this
  cases c with
  | write lo' blocks' sections =>
    change WriteLeft deviceKey t.device lo' blocks' sections
    rw [device_exec ht]
    refine { hok with settled := ?_ }
    rcases sections with _ | ⟨sec', rest'⟩
    · trivial
    have hapart := h.apart hne hc hj rfl rfl
    simp only [Call.range] at hapart
    refine hok.settled.congr hok.within fun b hlo hhi => ?_
    apply Section.transferred_outside
    intro r hr
    have := hwithin r hr
    omega
  | read r =>
    obtain ⟨versioned, block, addr, remaining, phase⟩ := r
    -- the epoch differs from a token while a write is in progress, and does not move to one
    have hepoch : ∀ token, (s.writeEpoch = token → s.writersInflight = 0) →
        Call.token (.read ⟨versioned, block, addr, remaining, phase⟩) = some token →
        t.writeEpoch ≠ token := by
      rintro token hidle htoken rfl
      cases sec with
      | endWrite =>
        cases ht
        exact hfresh rfl _ (mem_of_getElem? hc) htoken
      | transferTail => cases ht
      | transfer | invalidate | update =>
        cases ht
        exact absurd (hidle rfl) (Nat.ne_of_gt hbusy)
    cases phase with
    | head | scanning | missed | finished => trivial
    | reading kind n token =>
      cases token with
      | none => trivial
      | some token => exact fun heq => absurd heq (hepoch token hok rfl)
    | publishing kind n token data =>
      exact fun heq => absurd heq (hepoch token (fun heq => (hok heq).1) rfl)
    | filling kind n fills =>
      intro run hrun l hl
      obtain ⟨hi, hdata⟩ := hok run hrun l hl
      refine ⟨hi, hdata.trans ?_⟩
      rw [device_exec ht]
      symm
      apply Section.window_transferred
      intro r hr
      exact hspares _ (mem_of_getElem? hc) r hr run hrun l hl

lemma Inv.writers_exec
    (hends : sec = .endWrite ↔ rest = []) (ht : s.exec keep sec = some t) : t.writersInflight =
      ((s.calls.set j (.write lo blocks rest)).map fun c => c.writing.toNat).sum := by
  have hsum := sum_map_set (fun c : Call => c.writing.toNat) (.write lo blocks rest) hj
  have hw := h.writers
  rw [Call.writing_cons, Bool.toNat_true] at hsum
  by_cases hsec : sec = .endWrite
  · obtain rfl := hends.mp hsec
    subst hsec
    rw [Call.writing_nil, Bool.toNat_false] at hsum
    cases ht
    simp only
    omega
  · obtain ⟨sec', rest', rfl⟩ := exists_cons_of_ne_nil (mt hends.mpr hsec)
    rw [Call.writing_cons, Bool.toNat_true] at hsum
    have hsame : t.writersInflight = s.writersInflight := by
      cases sec <;> cases ht <;> first | rfl | exact absurd rfl hsec
    omega

end

/-- **One section of a write.**  It keeps the invariant if its transfer spares the lines that
unversioned reads are about to enter, and the epoch does not move to a token. -/
theorem Inv.stepWrite {sections : List Section} (h : Inv deviceKey s)
    (hj : s.calls[j]? = some (.write lo blocks sections))
    (hspares : ∀ sec rest, sections = sec :: rest →
      ∀ c ∈ s.calls, ∀ r, sec.range = some r → c.Spares r)
    (hfresh : ∀ rest, sections = .endWrite :: rest →
      ∀ c ∈ s.calls, c.token ≠ some (s.writeEpoch + 1))
    (hs : s.stepWrite j lo blocks sections keep = some s') : Inv deviceKey s' := by
  rcases sections with _ | ⟨sec, rest⟩
  · cases hs
  obtain ⟨t, ht, rfl⟩ := Option.map_eq_some_iff.mp hs
  have hleft : WriteLeft deviceKey s.device lo blocks (sec :: rest) :=
    h.calls _ (mem_of_getElem? hj)
  obtain ⟨hends, hlast⟩ := hleft.ends.tail
  have hself : (s.calls.set j (.write lo blocks rest))[j]? = some (.write lo blocks rest) := by
    rw [List.getElem?_set_self (List.getElem?_eq_some_iff.mp hj).1]
  have hcalls : (t.setCall j (.write lo blocks rest)).calls =
      s.calls.set j (.write lo blocks rest) := by
    rw [setCall, calls_exec ht]
  constructor
  case located =>
    intro i kind line data hl
    rcases holds_exec ht hl with ⟨run, rfl, hmem⟩ | ⟨hold, -⟩
    · exact (hleft.settled.1 kind i run rfl _ hmem).1
    · exact h.located hold
  case coherent =>
    intro i kind line data hl
    rw [hcalls]
    change data = window t.device line kind.blocks ∨ _
    rw [device_exec ht]
    rcases holds_exec ht hl with ⟨run, rfl, hmem⟩ | ⟨hold, hkept⟩
    · exact .inl (hleft.settled.1 kind i run rfl _ hmem).2
    rcases h.coherent hold with hdata | ⟨c, hc, sec', hsec', hdrops⟩
    · -- a line the transfer hits has a section of the rest to drop it
      by_cases hhit : ∃ r, sec.range = some r ∧ 0 < r.2 ∧ Shard.overlaps kind line r.1 r.2 = true
      · obtain ⟨r, hr, hpos, hov⟩ := hhit
        obtain ⟨sec', hsec', hdrops⟩ := hleft.covered.1 r hr hpos kind line hov
        rw [h.located hold] at hdrops
        exact .inr ⟨_, mem_of_getElem? hself, sec', hsec', hdrops⟩
      · refine .inl (hdata.trans (Section.window_transferred fun r hr => ?_).symm)
        by_contra hno
        refine hhit ⟨r, hr, by omega, Shard.overlaps_iff.mpr ⟨by omega, by omega⟩⟩
    · right
      obtain ⟨i', hi'⟩ := mem_iff_getElem?.mp hc
      rcases eq_or_ne i' j with rfl | hij
      · rw [hj] at hi'
        cases hi'
        rcases mem_cons.mp hsec' with rfl | hsec'
        · exact absurd hdrops hkept
        · exact ⟨_, mem_of_getElem? hself, sec', hsec', hdrops⟩
      · have hstay : (s.calls.set j (.write lo blocks rest))[i']? = some c := by
          rw [getElem?_set_ne (Ne.symm hij)]
          exact hi'
        exact ⟨c, mem_of_getElem? hstay, sec', hsec', hdrops⟩
  case writers =>
    rw [hcalls]
    have hwriters := h.writers_exec hj hlast ht
    exact hwriters
  case calls =>
    intro c hc
    rw [hcalls] at hc
    obtain ⟨i, hi⟩ := mem_iff_getElem?.mp hc
    rcases eq_or_ne i j with rfl | hij
    · rw [hself] at hi
      cases hi
      change WriteLeft deviceKey t.device lo blocks rest
      rw [device_exec ht]
      exact ⟨hleft.covered.2, hleft.settled.2,
        fun sec' hsec' => hleft.within sec' (mem_cons_of_mem _ hsec'), hends⟩
    · rw [getElem?_set_ne (Ne.symm hij)] at hi
      have hfresh' : sec = .endWrite → ∀ c ∈ s.calls, c.token ≠ some (s.writeEpoch + 1) := by
        rintro rfl
        exact hfresh rest rfl
      have hok := h.ok_exec hj (hspares sec rest rfl) hfresh' ht hij hi
      exact hok
  case apart =>
    intro i k c d hne hc hd
    rw [hcalls] at hc hd
    -- the write keeps its range
    have hold : ∀ {i : Nat} {c : Call}, (s.calls.set j (.write lo blocks rest))[i]? = some c →
        ∃ c', s.calls[i]? = some c' ∧ c.range = c'.range ∧
          (c.writing = true → c'.writing = true) := by
      intro i c hc
      rcases eq_or_ne i j with rfl | hij
      · rw [hself] at hc
        cases hc
        exact ⟨_, hj, rfl, fun _ => rfl⟩
      · rw [getElem?_set_ne (Ne.symm hij)] at hc
        exact ⟨c, hc, rfl, id⟩
    obtain ⟨c', hc', hcr, hcw⟩ := hold hc
    obtain ⟨d', hd', hdr, hdw⟩ := hold hd
    intro hw hw'
    rw [hcr, hdr]
    exact h.apart hne hc' hd' (hcw hw) (hdw hw')

/-! ## Runs -/

/-- Writes in progress are not joined by one to the same blocks. -/
def WritesApart (s : State) : Event → Prop
  | .startWrite _ block data tail =>
    ∀ c ∈ s.calls, c.writing = true →
      c.range.1 + c.range.2 ≤ block ∨
        block + (data.length + if tail = [] then 0 else 1) ≤ c.range.1
  | _ => True

/-- No transfer hits blocks that an unversioned read has read and not yet entered. -/
def FillsSpared (s : State) : Event → Prop
  | .advance j _ =>
    ∀ c ∈ s.calls[j]?, ∀ sec ∈ c.sections.head?, ∀ r ∈ sec.range, ∀ d ∈ s.calls, d.Spares r
  | _ => True

/-- The write epoch, a machine word, does not come round to a token that a read still holds. -/
def EpochFresh (s : State) : Event → Prop
  | .startWrite _ _ _ _ => ∀ c ∈ s.calls, c.token ≠ some (s.writeEpoch + 1)
  | .advance j _ => ∀ c ∈ s.calls[j]?, c.sections.head? = some .endWrite →
      ∀ d ∈ s.calls, d.token ≠ some (s.writeEpoch + 1)
  | _ => True

def StepOk (s : State) (e : Event) : Prop := WritesApart s e ∧ FillsSpared s e ∧ EpochFresh s e

instance : DecidableRel WritesApart := fun s e => by
  cases e <;> (unfold WritesApart; infer_instance)

instance : DecidableRel StepOk := fun s e => by
  unfold StepOk FillsSpared EpochFresh
  cases e <;> infer_instance

def Call.finished : Call → Bool
  | .write _ _ sections => sections.isEmpty
  | .read r => decide (r.phase = .finished)

/-- No call is in flight. -/
def State.Quiet (s : State) : Prop := ∀ c ∈ s.calls, c.finished = true

instance (s : State) : Decidable s.Quiet := by
  unfold State.Quiet
  infer_instance

/-- Every line is what the device holds. -/
def State.Coherent (s : State) : Prop :=
  ∀ i kind line data, s.Holds i kind line data → data = window s.device line kind.blocks

lemma Inv.append {epoch : BitVec 64} {writers : Nat} (h : Inv deviceKey s)
    (hwriters : writers = s.writersInflight + c.writing.toNat)
    (hcalls : ∀ d ∈ s.calls, d.Ok deviceKey
      { s with writeEpoch := epoch, writersInflight := writers, calls := s.calls ++ [c] })
    (hok : c.Ok deviceKey
      { s with writeEpoch := epoch, writersInflight := writers, calls := s.calls ++ [c] })
    (hapart : ∀ d ∈ s.calls, d.Apart c ∧ c.Apart d) :
    Inv deviceKey
      { s with writeEpoch := epoch, writersInflight := writers, calls := s.calls ++ [c] } where
  located hl := h.located hl
  coherent hl := by
    rcases h.coherent hl with hdata | ⟨d, hd, hsec⟩
    · exact .inl hdata
    · exact .inr ⟨d, mem_append_left _ hd, hsec⟩
  writers := by
    have := h.writers
    simp only [map_append, map_cons, map_nil, sum_append, sum_cons, sum_nil]
    omega
  calls d hd := by
    rcases mem_append.mp hd with hd | hd
    · exact hcalls d hd
    · obtain rfl := mem_singleton.mp hd
      exact hok
  apart {i j d d'} hne hd hd' := by
    have hcase : ∀ {i : Nat} {d : Call}, (s.calls ++ [c])[i]? = some d →
        s.calls[i]? = some d ∨ (i = s.calls.length ∧ d = c) := by
      intro i d hd
      rw [getElem?_append] at hd
      split at hd
      · exact .inl hd
      have hlen := (List.getElem?_eq_some_iff.mp hd).1
      simp only [length_singleton] at hlen
      have hzero : i - s.calls.length = 0 := by omega
      rw [hzero] at hd
      cases hd
      exact .inr ⟨by omega, rfl⟩
    rcases hcase hd with hold | ⟨hi, hdc⟩
    · rcases hcase hd' with hold' | ⟨-, hdc'⟩
      · exact h.apart hne hold hold'
      · exact hdc' ▸ (hapart d (mem_of_getElem? hold)).1
    · rcases hcase hd' with hold' | ⟨hi', -⟩
      · exact hdc ▸ (hapart d' (mem_of_getElem? hold')).2
      · exact absurd (hi.trans hi'.symm) hne

/-- A write that begins moves the epoch away from the tokens. -/
lemma Call.Ok.begin (h : d.Ok deviceKey s) (hfresh : d.token ≠ some (s.writeEpoch + 1)) :
    d.Ok deviceKey { s with
      writeEpoch := s.writeEpoch + 1
      writersInflight := s.writersInflight + 1
      calls := s.calls ++ [c] } := by
  cases d with
  | write lo blocks sections => exact h
  | read r =>
    obtain ⟨versioned, block, addr, remaining, phase⟩ := r
    cases phase with
    | head | scanning | missed | finished => trivial
    | reading kind n token =>
      cases token with
      | none => trivial
      | some token => exact fun heq => absurd (congrArg some heq).symm hfresh
    | publishing kind n token data => exact fun heq => absurd (congrArg some heq).symm hfresh
    | filling => exact h

lemma Inv.step {e : Event} (h : Inv deviceKey s) (hok : StepOk s e)
    (hs : s.step deviceKey e = some s') : Inv deviceKey s' := by
  cases e with
  | startRead versioned addr block remaining =>
    cases hs
    exact h.append rfl (fun d hd => h.calls d hd) trivial fun d hd => ⟨fun _ => nofun, nofun⟩
  | startWrite addr block data tail =>
    cases hs
    obtain ⟨init, heq, hwrite⟩ := writeWithCache_ok deviceKey addr block data tail
    have hwriting : (Call.write block (data.length + if tail = [] then 0 else 1)
        (writeWithCache deviceKey addr block data tail)).writing = true := by
      simp [Call.writing, heq]
    refine h.append ?_ (fun d hd => (h.calls d hd).begin (hok.2.2 d hd)) ?_ ?_
    · rw [hwriting, Bool.toNat_true]
    · -- the guard's drop is after all the rest
      rw [heq]
      have hlast : WriteLeft deviceKey s.device block
          (data.length + if tail = [] then 0 else 1) [.endWrite] :=
        ⟨⟨nofun, trivial⟩, ⟨nofun, trivial⟩, by simp [Section.Within, Section.range],
          .inr ⟨[], rfl, nofun⟩⟩
      refine ⟨hwrite.covered.append hlast.covered,
        (hwrite.settled _).append fun _ => ⟨nofun, trivial⟩, fun sec hsec => ?_,
        .inr ⟨init, rfl, hwrite.running⟩⟩
      exact (mem_append.mp hsec).elim (hwrite.within sec) (hlast.within sec)
    · intro d hd
      have hfree := hok.1 d hd
      exact ⟨fun hw _ => hfree hw, fun _ hw => (hfree hw).symm⟩
  | advance j keep =>
    simp only [State.step] at hs
    split at hs
    · cases hs
    next hj =>
      exact h.stepRead hj hs
    next hj =>
      refine h.stepWrite hj ?_ ?_ hs
      · rintro sec rest rfl c hc r hr
        exact hok.2.1 _ hj sec rfl r hr c hc
      · rintro rest rfl
        exact hok.2.2 _ hj rfl

/-- When the calls are over no line waits to be dropped. -/
lemma Inv.coherent_of_quiet (h : Inv deviceKey s) (hquiet : s.Quiet) : s.Coherent := by
  intro i kind line data hl
  rcases h.coherent hl with hdata | ⟨c, hc, sec, hsec, -⟩
  · exact hdata
  have hdone := hquiet c hc
  cases c with
  | write lo blocks sections =>
    obtain rfl := isEmpty_iff.mp hdone
    cases hsec
  | read r => cases hsec

/-- **Coherence of the block cache.**  In every run in which writes that overlap in time go to
different blocks, no transfer hits blocks that an unversioned read has read and not yet entered,
and the write epoch does not come round to a token that a read holds, whenever no call is in flight
every line of every shard is what the device holds. -/
theorem block_cache_coherent {s : State} (h : (system deviceKey).Reachable StepOk s)
    (hquiet : s.Quiet) : s.Coherent := by
  suffices hinv : Inv deviceKey s from hinv.coherent_of_quiet hquiet
  apply h.invariant
  · exact fun s hs => Inv.init hs
  · exact fun s e s' hinv hok hs => hinv.step hok hs

/-- A device of zeroes, an empty cache and no calls. -/
def boot : State where
  device _ := List.replicate BLOCK_CACHE_LINE_SIZE 0
  shards _ := ⟨fun _ _ => none⟩
  writeEpoch := 0
  writersInflight := 0
  calls := []

lemma boot_initial : boot.Initial := ⟨fun _ _ _ => rfl, rfl, rfl⟩

def ones : Block := List.replicate BLOCK_CACHE_LINE_SIZE 1

/-- What a run leaves of the 512-byte line of block 0, as the first bytes of it and of the block. -/
def State.firstBytes (s : State) : Option (List (Option Byte)) × Option Byte :=
  (((s.shards (cacheShardIndex 0 0)).lines .legacy 0).map (·.map List.head?), (s.device 0).head?)

def keepAll (_ : LineKind) (_ : Nat) : Bool := true

/-- An unversioned read and a versioned one of block 0, each over before a write of it goes on. -/
def orderlyTrace : List Event :=
  .startRead false 0 0 1 :: List.replicate 6 (.advance 0 keepAll) ++
    .startRead true 0 0 1 :: List.replicate 3 (.advance 1 keepAll) ++
    .startWrite 0 0 [ones] [] :: List.replicate 4 (.advance 2 keepAll)

theorem block_cache_coherent_orderlyTrace :
    ∃ s, (system 0).Reachable StepOk s ∧ s.Quiet ∧ s.firstBytes = (some [some 1], some 1) ∧
      s.Coherent := by
  have hrun : (((system 0).runWhile StepOk boot orderlyTrace).map
      fun s => (decide s.Quiet, s.firstBytes)) =
        some (true, some [some 1], some 1) := by decide +kernel
  obtain ⟨s, hreach, -, hv⟩ := System.exists_reachable hrun boot_initial
  obtain ⟨hquiet, hbytes⟩ := Prod.mk.inj hv
  have hquiet : s.Quiet := of_decide_eq_true hquiet
  exact ⟨s, hreach, hquiet, hbytes, block_cache_coherent hreach hquiet⟩

/-- An unversioned read takes block 0 from the device; a write of block 0 runs from beginning to
end; then the read enters what it took. -/
def staleTrace : List Event :=
  .startRead false 0 0 1 :: List.replicate 3 (.advance 0 keepAll) ++
    .startWrite 0 0 [ones] [] :: List.replicate 4 (.advance 1 keepAll) ++
    List.replicate 3 (.advance 0 keepAll)

/-- **A stale line.**  Between the transfer of `read_with_cache` and its insertion of the line
nothing is checked, so the line of block 0 is left with what the write has replaced. -/
theorem unversioned_fill_goes_stale :
    ∃ s, (system 0).Reachable WritesApart s ∧ s.Quiet ∧ ¬ s.Coherent := by
  have hrun : (((system 0).runWhile WritesApart boot staleTrace).map
      fun s => (decide s.Quiet, s.firstBytes)) =
        some (true, some [some 0], some 1) := by decide +kernel
  obtain ⟨s, hreach, -, hv⟩ := System.exists_reachable hrun boot_initial
  obtain ⟨hquiet, hbytes⟩ := Prod.mk.inj hv
  obtain ⟨hline, hblock⟩ := Prod.mk.inj hbytes
  obtain ⟨data, hdata, hhead⟩ := Option.map_eq_some_iff.mp hline
  refine ⟨s, hreach, of_decide_eq_true hquiet, ?_⟩
  intro hcoherent
  -- the line would be the block, whose first byte is another
  have hwindow := hcoherent _ .legacy 0 data hdata
  rw [hwindow] at hhead
  simp [window, LineKind.blocks, hblock] at hhead

end Whusp.Drivers.BlockCache
