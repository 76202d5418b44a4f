import Whusp.Drivers.BlockCache
import Mathlib.Data.List.GetD

/-!
# What a write does to the block cache

The lines that a section of `write_with_cache` drops or enters, against what its transfers do to
the device.
-/

namespace Whusp.Drivers.BlockCache

open List

open Whusp.Lib (Byte System)

/-! ## Device contents -/

lemma length_window (device : Nat → Block) (block blocks : Nat) :
    (window device block blocks).length = blocks := by
  simp [window]

variable {device : Nat → Block} {block blocks lo fuel : Nat}
variable {device' : Nat → Block} {n line addr : Nat} {lines : List (Nat × List Block)}
  {a b : List Section} {c : Section}

lemma window_congr (h : ∀ b, block ≤ b → b < block + blocks → device' b = device b) :
    window device' block blocks = window device block blocks := by
  apply map_congr_left
  intro i hi
  have := mem_range.mp hi
  exact h _ (by omega) (by omega)

lemma take_drop_window {start : Nat} (h : start + n ≤ blocks) :
    ((window device block blocks).drop start).take n = window device (block + start) n := by
  apply ext_getElem
  · simp [window]; omega
  · intro i h₁ h₂
    simp [window, add_assoc]

lemma window_writeBlocks (device : Nat → Block) (block : Nat) (data : List Block) :
    window (writeBlocks device block data) block data.length = data := by
  apply ext_getElem (length_window _ _ _)
  intro i h₁ h₂
  simp [window, writeBlocks, h₂]

variable {data : List Block}

lemma writeBlocks_outside {b : Nat} (h : b < block ∨ block + data.length ≤ b) :
    writeBlocks device block data b = device b := by
  unfold writeBlocks
  split
  · rw [getElem?_eq_none (by omega), Option.getD_none]
  · rfl

def Section.range : Section → Option (Nat × Nat)
  | .transfer block data => some (block, data.length)
  | .transferTail block _ => some (block, 1)
  | _ => none

/-- What a section makes of the device. -/
def Section.transferred (device : Nat → Block) : Section → Nat → Block
  | .transfer block data => writeBlocks device block data
  | _ => device

variable {sec : Section}

lemma Section.transferred_outside {b : Nat}
    (h : ∀ r, sec.range = some r → b < r.1 ∨ r.1 + r.2 ≤ b) :
    sec.transferred device b = device b := by
  cases sec with
  | transfer block data => exact writeBlocks_outside (h _ rfl)
  | transferTail | invalidate | update | endWrite => rfl

open Section

/-- A line apart from what a section transfers reads the same. -/
lemma Section.window_transferred
    (h : ∀ r, sec.range = some r → r.2 = 0 ∨ block + blocks ≤ r.1 ∨ r.1 + r.2 ≤ block) :
    window (sec.transferred device) block blocks = window device block blocks := by
  apply window_congr
  intro b hlo hhi
  apply transferred_outside
  intro r hr
  have := h r hr
  omega

/-! ## Runs of lines -/

variable {kind : LineKind} {l : Nat × List Block}

lemma mem_lineRun (h : l ∈ lineRun kind block data) :
    ∃ i, (i + 1) * kind.blocks ≤ data.length ∧ l.1 = block + i * kind.blocks ∧
      l.2 = (data.drop (i * kind.blocks)).take kind.blocks := by
  obtain ⟨i, hi, rfl⟩ := mem_map.mp h
  have hi := mem_range.mp hi
  refine ⟨i, ?_, rfl, rfl⟩
  calc (i + 1) * kind.blocks ≤ data.length / kind.blocks * kind.blocks :=
        Nat.mul_le_mul_right _ hi
    _ ≤ data.length := Nat.div_mul_le_self _ _

/-- The lines of what is on the device are on the device. -/
lemma mem_lineRun_window (h : l ∈ lineRun kind block (window device block blocks)) :
    l.2 = window device l.1 kind.blocks := by
  obtain ⟨i, hi, h₁, h₂⟩ := mem_lineRun h
  rw [length_window, Nat.succ_mul] at hi
  rw [h₁, h₂, take_drop_window hi]

lemma mem_shardRuns {shard : Nat → Nat} {r : Nat × List (Nat × List Block)}
    (h : r ∈ shardRuns shard lines) : ∀ l ∈ r.2, shard l.1 = r.1 ∧ l ∈ lines := by
  induction lines generalizing r with
  | nil => cases h
  | cons head rest ih =>
    obtain ⟨line, data⟩ := head
    simp only [shardRuns] at h
    split at h
    · obtain rfl := mem_singleton.mp h
      simp
    next i run runs hruns =>
      have hold : ∀ {r}, r ∈ (i, run) :: runs → ∀ l ∈ r.2,
          shard l.1 = r.1 ∧ l ∈ (line, data) :: rest := fun hr l hl =>
        have := ih (hruns ▸ hr) l hl
        ⟨this.1, mem_cons_of_mem _ this.2⟩
      -- the new line joins the first run or stands before it
      split at h
      next hi =>
        rcases mem_cons.mp h with rfl | hmem
        · intro l hl
          rcases mem_cons.mp hl with rfl | hl
          · exact ⟨hi, mem_cons_self⟩
          · exact hold mem_cons_self l hl
        · exact hold (mem_cons_of_mem _ hmem)
      · rcases mem_cons.mp h with rfl | hmem
        · simp
        · exact hold hmem

lemma exists_mem_shardRuns (shard : Nat → Nat) (h : l ∈ lines) :
    ∃ r ∈ shardRuns shard lines, l ∈ r.2 := by
  induction lines with
  | nil => cases h
  | cons head rest ih =>
    simp only [shardRuns]
    split
    next hruns =>
      rcases mem_cons.mp h with rfl | h
      · simp
      · obtain ⟨r, hr, -⟩ := ih h
        simp [hruns] at hr
    next hruns =>
      rw [hruns] at ih
      split
      · rcases mem_cons.mp h with rfl | h
        · simp
        obtain ⟨r, hr, hl⟩ := ih h
        rcases mem_cons.mp hr with rfl | hr
        · exact ⟨_, mem_cons_self, mem_cons_of_mem _ hl⟩
        · exact ⟨r, mem_cons_of_mem _ hr, hl⟩
      · rcases mem_cons.mp h with rfl | h
        · simp
        · obtain ⟨r, hr, hl⟩ := ih h
          exact ⟨r, mem_cons_of_mem _ hr, hl⟩

/-! ## What a shard holds after a section -/

namespace Shard

variable {kind : LineKind} {line : Nat}

lemma overlaps_iff :
    overlaps kind line block blocks ↔ line < block + blocks ∧ block < line + kind.blocks := by
  simp [overlaps]

variable {kind' : LineKind} {sh : Shard}

lemma lines_invalidate (h : (sh.invalidate kind block blocks).lines kind' line = some data) :
    sh.lines kind' line = some data ∧ ¬ (kind' = kind ∧ overlaps kind line block blocks) := by
  simp only [invalidate] at h
  split at h
  · cases h
  next hno =>
    exact ⟨h, hno⟩

lemma lines_insertRun {run : List (Nat × List Block)}
    (h : (sh.insertRun kind run).lines kind' line = some data) :
    (kind' = kind ∧ (line, data) ∈ run) ∨
      (sh.lines kind' line = some data ∧ ∀ l ∈ run, ¬ (kind' = kind ∧ l.1 = line)) := by
  induction run generalizing sh with
  | nil => exact .inr ⟨h, by simp⟩
  | cons l run ih =>
    have hlast : ((sh.insert kind l.1 l.2).insertRun kind run).lines kind' line = some data := h
    rcases ih hlast with ⟨rfl, hmem⟩ | ⟨hline, hrest⟩
    · exact .inl ⟨rfl, mem_cons_of_mem _ hmem⟩
    simp only [insert] at hline
    split at hline
    next heq =>
      obtain ⟨rfl, rfl⟩ := heq
      cases hline
      simp
    next hne =>
      refine .inr ⟨hline, ?_⟩
      intro l' hl'
      rcases mem_cons.mp hl' with rfl | hl'
      · exact fun heq => hne ⟨heq.1, heq.2.symm⟩
      · exact hrest l' hl'

lemma lines_trim {keep : LineKind → Nat → Bool} (h : (sh.trim keep).lines kind line = some data) :
    sh.lines kind line = some data := by
  simp only [trim] at h
  split at h
  · exact h
  · cases h

end Shard

/-- A line of the cache: the shard it lies in, its kind, its first block and its data. -/
def State.Holds (s : State) (i : Nat) (kind : LineKind) (line : Nat) (data : List Block) : Prop :=
  (s.shards i).lines kind line = some data

namespace State

variable {i j line : Nat} {s : State}

lemma holds_setShard {sh : Shard} : (s.setShard i sh).Holds j kind line data ↔
      if j = i then sh.lines kind line = some data else s.Holds j kind line data := by
  unfold Holds setShard
  rcases eq_or_ne j i with rfl | hj
  · simp
  · simp [hj]

/-- Lines that enter a shard are new lines or were there and are not replaced. -/
theorem holds_enter {kind' : LineKind} {run : List (Nat × List Block)}
    {keep : LineKind → Nat → Bool} (h : (s.enter kind i run keep).Holds j kind' line data) :
    (j = i ∧ kind' = kind ∧ (line, data) ∈ run) ∨ (s.Holds j kind' line data ∧
        (j = i → ∀ l ∈ run, ¬ (kind' = kind ∧ l.1 = line))) := by
  rw [enter, holds_setShard] at h
  split at h
  next hj =>
    subst hj
    rcases Shard.lines_insertRun (Shard.lines_trim h) with ⟨hk, hmem⟩ | ⟨hold, hrest⟩
    · exact .inl ⟨rfl, hk, hmem⟩
    · exact .inr ⟨hold, fun _ => hrest⟩
  next hj =>
    exact .inr ⟨h, fun heq => absurd heq hj⟩

end State

/-! ## The sections of a write -/

/-- A section takes a line out of its shard or puts a new one in its place. -/
def Section.Drops (sec : Section) (i : Nat) (kind : LineKind) (line : Nat) : Prop :=
  match sec with
  | .invalidate kind' i' block blocks =>
    i' = i ∧ kind' = kind ∧ Shard.overlaps kind line block blocks = true
  | .update kind' i' run => i' = i ∧ kind' = kind ∧ ∃ l ∈ run, l.1 = line
  | _ => False

variable (deviceKey : BitVec 64)

/-- Every transfer is followed by a section for each line it can make stale. -/
def Covered : List Section → Prop
  | [] => True
  | sec :: rest =>
    (∀ r, sec.range = some r → 0 < r.2 → ∀ kind line, Shard.overlaps kind line r.1 r.2 = true →
      ∃ sec' ∈ rest, sec'.Drops (cacheShardIndex deviceKey line) kind line) ∧ Covered rest

/-- Lines that are entered are those of the device by then, and go where they belong. -/
def Settled (device : Nat → Block) : List Section → Prop
  | [] => True
  | sec :: rest =>
    (∀ kind i run, sec = .update kind i run →
      ∀ l ∈ run, cacheShardIndex deviceKey l.1 = i ∧ l.2 = window device l.1 kind.blocks) ∧
      Settled (sec.transferred device) rest

/-- All that a section transfers or enters lies within a range. -/
def Section.Within (lo blocks : Nat) (sec : Section) : Prop :=
  (∀ r, sec.range = some r → lo ≤ r.1 ∧ r.1 + r.2 ≤ lo + blocks) ∧
    ∀ kind i run, sec = .update kind i run →
      ∀ l ∈ run, lo ≤ l.1 ∧ l.1 + kind.blocks ≤ lo + blocks

/-- The guard is dropped at the end and only there. -/
def Ends (sections : List Section) : Prop :=
  sections = [] ∨ ∃ init, sections = init ++ [.endWrite] ∧ .endWrite ∉ init

variable {rest after : List Section}

lemma Ends.tail (h : Ends (sec :: rest)) : Ends rest ∧ (sec = .endWrite ↔ rest = []) := by
  rcases h with h | ⟨init, heq, hno⟩
  · cases h
  cases init with
  | nil =>
    cases heq
    exact ⟨.inl rfl, by simp⟩
  | cons first init =>
    cases heq
    have hne : sec ≠ .endWrite := fun h => hno (h ▸ mem_cons_self)
    exact ⟨.inr ⟨init, rfl, fun h => hno (mem_cons_of_mem _ h)⟩, by simp [hne]⟩

/-- Device contents that agree within a write's range settle the same sections. -/
lemma Settled.congr {deviceKey : BitVec 64} {sections : List Section}
    (hwithin : ∀ sec ∈ sections, sec.Within lo blocks)
    (heq : ∀ b, lo ≤ b → b < lo + blocks → device' b = device b)
    (h : Settled deviceKey device sections) : Settled deviceKey device' sections := by
  induction sections generalizing device device' with
  | nil => trivial
  | cons sec rest ih =>
    obtain ⟨hlines, hrest⟩ := h
    have hsec := hwithin sec mem_cons_self
    constructor
    · intro kind i run hupd l hl
      obtain ⟨hi, hdata⟩ := hlines kind i run hupd l hl
      have hin := hsec.2 kind i run hupd l hl
      refine ⟨hi, hdata.trans (window_congr fun b hlo hhi => ?_).symm⟩
      exact heq b (by omega) (by omega)
    · apply ih (fun s hs => hwithin s (mem_cons_of_mem _ hs)) _ hrest
      intro b hlo hhi
      -- both sides get the same blocks where the section transfers, and keep theirs elsewhere
      cases sec with
      | transfer block data =>
        simp only [transferred, writeBlocks]
        rw [heq b hlo hhi]
      | transferTail | invalidate | update | endWrite => exact heq b hlo hhi

/-! ## The sections of `write_with_cache` -/

/-- What a write does between a transfer and the next one. -/
structure FollowUp (sec : Section) (lo blocks : Nat) (after : List Section) : Prop where
  plain : ∀ c ∈ after, c.range = none ∧ c ≠ .endWrite
  drops : ∀ r, sec.range = some r → 0 < r.2 → ∀ kind line,
    Shard.overlaps kind line r.1 r.2 = true →
      ∃ c ∈ after, c.Drops (cacheShardIndex deviceKey line) kind line
  enters : ∀ kind i run, .update kind i run ∈ after → ∀ l ∈ run,
    cacheShardIndex deviceKey l.1 = i ∧
      (∀ device, l.2 = window (sec.transferred device) l.1 kind.blocks) ∧
      lo ≤ l.1 ∧ l.1 + kind.blocks ≤ lo + blocks

structure WriteOk (lo blocks : Nat) (sections : List Section) : Prop where
  covered : Covered deviceKey sections
  settled : ∀ device, Settled deviceKey device sections
  within : ∀ sec ∈ sections, sec.Within lo blocks
  running : .endWrite ∉ sections

variable {deviceKey}

lemma Section.transferred_of_range_none (h : sec.range = none) (device : Nat → Block) :
    sec.transferred device = device := by
  cases sec with
  | transfer | transferTail => cases h
  | invalidate | update | endWrite => rfl

lemma Covered.of_plain (hplain : ∀ c ∈ after, c.range = none) (h : Covered deviceKey rest) :
    Covered deviceKey (after ++ rest) := by
  induction after with
  | nil => exact h
  | cons c after ih =>
    refine ⟨fun r hr => ?_, ih fun c hc => hplain c (mem_cons_of_mem _ hc)⟩
    simp [hplain c mem_cons_self] at hr

lemma Covered.append (ha : Covered deviceKey a) (hb : Covered deviceKey b) :
    Covered deviceKey (a ++ b) := by
  induction a with
  | nil => exact hb
  | cons sec a ih =>
    refine ⟨fun r hr hpos kind line hov => ?_, ih ha.2⟩
    obtain ⟨c, hc, hdrops⟩ := ha.1 r hr hpos kind line hov
    exact ⟨c, mem_append_left _ hc, hdrops⟩

lemma Settled.of_plain (hplain : ∀ c ∈ after, c.range = none)
    (henters : ∀ kind i run, .update kind i run ∈ after → ∀ l ∈ run,
      cacheShardIndex deviceKey l.1 = i ∧ l.2 = window device l.1 kind.blocks)
    (h : Settled deviceKey device rest) : Settled deviceKey device (after ++ rest) := by
  induction after with
  | nil => exact h
  | cons c after ih =>
    constructor
    · rintro kind i run rfl
      exact henters kind i run mem_cons_self
    · rw [transferred_of_range_none (hplain c mem_cons_self)]
      apply ih (fun c hc => hplain c (mem_cons_of_mem _ hc))
      exact fun kind i run hmem => henters kind i run (mem_cons_of_mem _ hmem)

/-- One round of a write: a transfer, what follows it, and the rest. -/
lemma WriteOk.round (hsec : sec.Within lo blocks)
    (hnot : ∀ kind i run, sec ≠ .update kind i run) (hend : sec ≠ .endWrite)
    (hafter : FollowUp deviceKey sec lo blocks after) (hrest : WriteOk deviceKey lo blocks rest) :
    WriteOk deviceKey lo blocks (sec :: (after ++ rest)) where
  covered := by
    refine ⟨fun r hr hpos kind line hov => ?_,
      .of_plain (fun c hc => (hafter.plain c hc).1) hrest.covered⟩
    obtain ⟨c, hc, hdrops⟩ := hafter.drops r hr hpos kind line hov
    exact ⟨c, mem_append_left _ hc, hdrops⟩
  settled device := by
    refine ⟨fun kind i run heq => absurd heq (hnot kind i run), ?_⟩
    apply Settled.of_plain (fun c hc => (hafter.plain c hc).1) _ (hrest.settled _)
    intro kind i run hmem l hl
    obtain ⟨hi, hdata, -⟩ := hafter.enters kind i run hmem l hl
    exact ⟨hi, hdata device⟩
  within c hc := by
    rcases mem_cons.mp hc with rfl | hc
    · exact hsec
    rcases mem_append.mp hc with hc | hc
    · constructor
      · intro r hr
        simp [(hafter.plain c hc).1] at hr
      · rintro kind i run rfl l hl
        exact (hafter.enters kind i run hc l hl).2.2
    · exact hrest.within c hc
  running hc := by
    rcases mem_cons.mp hc with hc | hc
    · exact hend hc.symm
    · rcases mem_append.mp hc with hc | hc
      · exact (hafter.plain _ hc).2 rfl
      · exact hrest.running hc

/-- Lines that start in the same region lie in the same shard. -/
lemma cacheShardIndex_congr {a b : Nat}
    (h : a / BLOCK_CACHE_SHARD_REGION_BLOCKS = b / BLOCK_CACHE_SHARD_REGION_BLOCKS) :
    cacheShardIndex deviceKey a = cacheShardIndex deviceKey b := by
  unfold cacheShardIndex
  rw [h]

lemma mem_invalidateRead4kRange (h : c ∈ invalidateRead4kRange deviceKey block blocks) :
    ∃ i, c = .invalidate .read4k i block blocks := by
  unfold invalidateRead4kRange at h
  split at h
  · cases h
  · obtain ⟨r, -, rfl⟩ := mem_map.mp h
    simp

/-- The regions visited are those in which an overlapping line can start. -/
lemma invalidateRead4kRange_drops (hpos : 0 < blocks)
    (h : Shard.overlaps .read4k line block blocks = true) :
    ∃ c ∈ invalidateRead4kRange deviceKey block blocks,
      c.Drops (cacheShardIndex deviceKey line) .read4k line := by
  obtain ⟨hlo, hhi⟩ := Shard.overlaps_iff.mp h
  simp only [LineKind.blocks, READ_CACHE_LINE_BLOCKS, PAGE_SIZE, BLOCK_CACHE_LINE_SIZE,
    Nat.reduceDiv] at hhi
  unfold invalidateRead4kRange
  rw [if_neg (by omega)]
  simp only [READ_CACHE_LINE_BLOCKS, PAGE_SIZE, BLOCK_CACHE_LINE_SIZE, Nat.reduceDiv,
    Nat.reduceSub, BLOCK_CACHE_SHARD_REGION_BLOCKS, MAX_CACHED_IO_BLOCKS]
  refine ⟨_, mem_map.mpr ⟨line / 64 - (block - 7) / 64, ?_, rfl⟩, ?_, rfl, h⟩
  · apply mem_range.mpr
    omega
  · apply cacheShardIndex_congr
    simp only [BLOCK_CACHE_SHARD_REGION_BLOCKS, MAX_CACHED_IO_BLOCKS]
    omega

lemma mem_invalidateLegacyLoop (h : c ∈ invalidateLegacyLoop deviceKey fuel block blocks) :
    ∃ i b n, c = .invalidate .legacy i b n := by
  induction fuel generalizing block blocks with
  | zero => cases h
  | succ fuel ih =>
    unfold invalidateLegacyLoop at h
    split at h
    · cases h
    · rcases mem_cons.mp h with rfl | h
      · simp
      · exact ih h

lemma invalidateLegacyLoop_drops (deviceKey : BitVec 64) (hfuel : blocks ≤ fuel)
    (hlo : block ≤ line) (hhi : line < block + blocks) :
    ∃ c ∈ invalidateLegacyLoop deviceKey fuel block blocks,
      c.Drops (cacheShardIndex deviceKey line) .legacy line := by
  induction fuel generalizing block blocks with
  | zero => omega
  | succ fuel ih =>
    unfold invalidateLegacyLoop
    rw [if_neg (by omega)]
    -- the line is in the first part, of one region, or in a later one
    by_cases hpart : line < block + min (64 - block % 64) blocks
    · refine ⟨_, mem_cons_self, ?_, rfl, ?_⟩
      · apply cacheShardIndex_congr
        simp only [BLOCK_CACHE_SHARD_REGION_BLOCKS, MAX_CACHED_IO_BLOCKS]
        omega
      · exact Shard.overlaps_iff.mpr ⟨hpart, by simp only [LineKind.blocks]; omega⟩
    · obtain ⟨c, hc, hdrops⟩ := ih
        (show blocks - min (64 - block % 64) blocks ≤ fuel by omega)
        (show block + min (64 - block % 64) blocks ≤ line by omega) (by omega)
      exact ⟨c, mem_cons_of_mem _ hc, hdrops⟩

lemma mem_updateRun (h : c ∈ updateRun deviceKey kind block data) :
    ∃ i run, c = .update kind i run ∧
      ∀ l ∈ run, cacheShardIndex deviceKey l.1 = i ∧ l ∈ lineRun kind block data := by
  obtain ⟨r, hr, rfl⟩ := mem_map.mp h
  exact ⟨r.1, r.2, rfl, mem_shardRuns hr⟩

/-- Every 512-byte line of what was written is replaced. -/
lemma updateRun_legacy_drops (deviceKey : BitVec 64) (hlo : block ≤ line)
    (hhi : line < block + data.length) : ∃ c ∈ updateRun deviceKey .legacy block data,
      c.Drops (cacheShardIndex deviceKey line) .legacy line := by
  have hmem : (line, (data.drop (line - block)).take 1) ∈ lineRun .legacy block data := by
    refine mem_map.mpr ⟨line - block, mem_range.mpr ?_, ?_⟩
    · simp only [LineKind.blocks]
      omega
    · simp only [LineKind.blocks, mul_one]
      rw [Nat.add_sub_cancel' hlo]
  obtain ⟨r, hr, hl⟩ := exists_mem_shardRuns (cacheShardIndex deviceKey) hmem
  have hi := (mem_shardRuns hr _ hl).1
  exact ⟨_, mem_map.mpr ⟨r, hr, rfl⟩, hi.symm, rfl, _, hl, rfl⟩

/-- Lines of what was just transferred. -/
lemma mem_lineRun_transferred (h : l ∈ lineRun kind block data) :
    (∀ device, l.2 = window ((Section.transfer block data).transferred device) l.1 kind.blocks) ∧
      block ≤ l.1 ∧ l.1 + kind.blocks ≤ block + data.length := by
  constructor
  · intro device
    have hmem : l ∈ lineRun kind block (window (writeBlocks device block data) block data.length) :=
      by rwa [window_writeBlocks]
    exact mem_lineRun_window hmem
  · obtain ⟨i, hi, heq, -⟩ := mem_lineRun h
    rw [Nat.succ_mul] at hi
    omega

/-- A section that may follow a transfer: it transfers nothing, and the lines it enters are those
of the device after the transfer. -/
def Section.Follows (deviceKey : BitVec 64) (lo blocks : Nat) (sec c : Section) : Prop :=
  (c.range = none ∧ c ≠ .endWrite) ∧ ∀ kind i run, c = .update kind i run → ∀ l ∈ run,
    cacheShardIndex deviceKey l.1 = i ∧
      (∀ device, l.2 = window (sec.transferred device) l.1 kind.blocks) ∧
      lo ≤ l.1 ∧ l.1 + kind.blocks ≤ lo + blocks

lemma follows_invalidate (sec : Section) (kind : LineKind) (i b n : Nat) :
    sec.Follows deviceKey lo blocks (.invalidate kind i b n) := ⟨⟨rfl, nofun⟩, nofun⟩

/-- What follows a transfer begins with the 4-KiB lines, and the rest has to see to the others. -/
lemma FollowUp.of_read4k (hrange : sec.range = some (block, n))
    (hrest : ∀ c ∈ rest, sec.Follows deviceKey lo blocks c)
    (hlegacy : ∀ line, block ≤ line → line < block + n →
      ∃ c ∈ rest, c.Drops (cacheShardIndex deviceKey line) .legacy line) :
    FollowUp deviceKey sec lo blocks (invalidateRead4kRange deviceKey block n ++ rest) := by
  have hall : ∀ c ∈ invalidateRead4kRange deviceKey block n ++ rest,
      sec.Follows deviceKey lo blocks c := by
    intro c hc
    rcases mem_append.mp hc with hc | hc
    · obtain ⟨i, rfl⟩ := mem_invalidateRead4kRange hc
      exact follows_invalidate ..
    · exact hrest c hc
  refine ⟨fun c hc => (hall c hc).1, ?_, fun kind i run hmem => (hall _ hmem).2 kind i run rfl⟩
  intro r hr hpos kind line hov
  cases hrange.symm.trans hr
  cases kind with
  | read4k =>
    obtain ⟨c, hc, hdrops⟩ := invalidateRead4kRange_drops hpos hov
    exact ⟨c, mem_append_left _ hc, hdrops⟩
  | legacy =>
    have h := Shard.overlaps_iff.mp hov
    simp only [LineKind.blocks] at h
    obtain ⟨c, hc, hdrops⟩ := hlegacy line (by omega) h.1
    exact ⟨c, mem_append_right _ hc, hdrops⟩

section

variable (deviceKey : BitVec 64) (hlo : lo ≤ block) (hhi : block + data.length ≤ lo + blocks)
include hlo hhi

lemma follows_updateRun (hc : c ∈ updateRun deviceKey kind block data) :
    (Section.transfer block data).Follows deviceKey lo blocks c := by
  obtain ⟨i, run, rfl, hrun⟩ := mem_updateRun hc
  refine ⟨⟨rfl, nofun⟩, ?_⟩
  rintro kind i run ⟨⟩ l hl
  obtain ⟨hdata, h₁, h₂⟩ := mem_lineRun_transferred (hrun l hl).2
  exact ⟨(hrun l hl).1, hdata, by omega, by omega⟩

/-- What follows a transfer of 4-KiB lines. -/
lemma followUp_wide : FollowUp deviceKey (.transfer block data) lo blocks
      (invalidateRead4kRange deviceKey block data.length ++
        invalidateLegacyRange deviceKey block data.length ++
        updateRun deviceKey .read4k block data) := by
  rw [append_assoc]
  refine .of_read4k rfl (fun c hc => ?_) fun line hle hlt => ?_
  · rcases mem_append.mp hc with hc | hc
    · obtain ⟨i, b, n, rfl⟩ := mem_invalidateLegacyLoop hc
      exact follows_invalidate ..
    · exact follows_updateRun deviceKey hlo hhi hc
  · obtain ⟨c, hc, hdrops⟩ := invalidateLegacyLoop_drops deviceKey (le_refl data.length) hle hlt
    exact ⟨c, mem_append_left _ hc, hdrops⟩

/-- What follows a transfer of 512-byte lines. -/
lemma followUp_legacy : FollowUp deviceKey (.transfer block data) lo blocks
      (invalidateRead4kRange deviceKey block data.length ++
        updateRun deviceKey .legacy block data) :=
  .of_read4k rfl (fun _ hc => follows_updateRun deviceKey hlo hhi hc) fun _ hle hlt =>
    updateRun_legacy_drops deviceKey hle hlt

end

lemma followUp_tail (deviceKey : BitVec 64) (lo blocks block : Nat) (tail : List Byte) :
    FollowUp deviceKey (.transferTail block tail) lo blocks
      (invalidateRead4kRange deviceKey block 1 ++
        [.invalidate .legacy (cacheShardIndex deviceKey block) block 1]) := by
  refine .of_read4k rfl (fun c hc => ?_) fun line hle hlt => ?_
  · rw [mem_singleton.mp hc]
    exact follows_invalidate ..
  · obtain rfl : line = block := by omega
    exact ⟨_, mem_singleton_self _, rfl, rfl,
      Shard.overlaps_iff.mpr ⟨hlt, Nat.lt_add_of_pos_right (by decide)⟩⟩

lemma Section.within_transfer (hlo : lo ≤ block) (hhi : block + data.length ≤ lo + blocks) :
    (Section.transfer block data).Within lo blocks := by
  constructor
  · rintro r ⟨⟩
    exact ⟨hlo, hhi⟩
  · nofun

lemma pageBoundedFullBlocks_le (addr maxBlocks : Nat) :
    pageBoundedFullBlocks addr maxBlocks ≤ maxBlocks := by
  unfold pageBoundedFullBlocks
  split
  · simp
  · simp

lemma WriteOk.nil (lo blocks : Nat) : WriteOk deviceKey lo blocks [] :=
  ⟨trivial, fun _ => trivial, nofun, nofun⟩

lemma writeLoop_ok (hlo : lo ≤ block) (hhi : block + data.length ≤ lo + blocks) :
    WriteOk deviceKey lo blocks (writeLoop deviceKey fuel addr block data) := by
  induction fuel generalizing addr block data with
  | zero => exact WriteOk.nil lo blocks
  | succ fuel ih =>
    -- all three kinds of round take `n` blocks off the front
    have hround : ∀ n, n ≤ data.length → ∀ addr',
        (data.take n).length = n ∧ block + (data.take n).length ≤ lo + blocks ∧
          WriteOk deviceKey lo blocks
            (writeLoop deviceKey fuel addr' (block + n) (data.drop n)) := by
      intro n hn addr'
      have hlen : (data.take n).length = n := length_take_of_le hn
      refine ⟨hlen, by omega, ih (by omega) ?_⟩
      rw [length_drop]
      omega
    unfold writeLoop
    split
    · exact WriteOk.nil lo blocks
    split
    · obtain ⟨hlen, hfit, hrest⟩ := hround (min data.length MAX_CACHED_IO_BLOCKS)
        (min_le_left _ _) (addr + min data.length MAX_CACHED_IO_BLOCKS * BLOCK_CACHE_LINE_SIZE)
      have hafter := followUp_wide deviceKey hlo hfit
      rw [hlen] at hafter
      exact .round (within_transfer hlo hfit) nofun nofun hafter hrest
    split
    next huse =>
      simp only [canUseWrite4k, Bool.and_eq_true, decide_eq_true_eq] at huse
      obtain ⟨hlen, hfit, hrest⟩ := hround READ_CACHE_LINE_BLOCKS huse.1
        (addr + READ_CACHE_LINE_BLOCKS * BLOCK_CACHE_LINE_SIZE)
      have hafter := followUp_wide deviceKey hlo hfit
      rw [hlen] at hafter
      exact .round (within_transfer hlo hfit) nofun nofun hafter hrest
    · obtain ⟨hlen, hfit, hrest⟩ := hround (pageBoundedFullBlocks addr data.length)
        (pageBoundedFullBlocks_le _ _)
        (addr + pageBoundedFullBlocks addr data.length * BLOCK_CACHE_LINE_SIZE)
      have hafter := followUp_legacy deviceKey hlo hfit
      rw [hlen] at hafter
      exact .round (within_transfer hlo hfit) nofun nofun hafter hrest

lemma Settled.append (ha : Settled deviceKey device a)
    (hb : ∀ device, Settled deviceKey device b) : Settled deviceKey device (a ++ b) := by
  induction a generalizing device with
  | nil => exact hb device
  | cons sec a ih => exact ⟨ha.1, ih ha.2⟩

lemma WriteOk.append (ha : WriteOk deviceKey lo blocks a) (hb : WriteOk deviceKey lo blocks b) :
    WriteOk deviceKey lo blocks (a ++ b) where
  covered := ha.covered.append hb.covered
  settled device := (ha.settled device).append hb.settled
  within sec hsec := (mem_append.mp hsec).elim (ha.within sec) (hb.within sec)
  running hmem := (mem_append.mp hmem).elim ha.running hb.running

/-- **The sections of a write.**  They stay in the range of the write, each transfer is followed
by a section for every line it can make stale, the lines entered are those of the device,
and the guard is dropped last. -/
theorem writeWithCache_ok (deviceKey : BitVec 64) (addr block : Nat) (data : List Block)
    (tail : List Byte) :
    ∃ init, writeWithCache deviceKey addr block data tail = init ++ [.endWrite] ∧
      WriteOk deviceKey block (data.length + if tail = [] then 0 else 1) init := by
  refine ⟨_, rfl, ?_⟩
  apply WriteOk.append
  · exact writeLoop_ok (le_refl block) (by omega)
  split
  · exact WriteOk.nil _ _
  have hsec : (transferTail (block + data.length) tail).Within block
      (data.length + 1) := by
    constructor
    · rintro r ⟨⟩
      exact ⟨Nat.le_add_right _ _, by simp only; omega⟩
    · nofun
  have h := WriteOk.round hsec nofun nofun
    (followUp_tail deviceKey block (data.length + 1) _ tail)
    (WriteOk.nil _ _)
  simpa using h

lemma foldl_transferred_plain (hplain : ∀ c ∈ after, c.range = none) (device : Nat → Block) :
    after.foldl (fun d c => c.transferred d) device = device := by
  induction after with
  | nil => rfl
  | cons c after ih =>
    rw [foldl_cons, transferred_of_range_none (hplain c mem_cons_self)]
    exact ih fun c hc => hplain c (mem_cons_of_mem _ hc)

lemma writeBlocks_nil (device : Nat → Block) (block : Nat) :
    writeBlocks device block [] = device := by
  funext b
  exact writeBlocks_outside (by simp only [length_nil]; omega)

lemma writeBlocks_take_drop (device : Nat → Block) (block : Nat) (data : List Block) (n : Nat) :
    writeBlocks (writeBlocks device block (data.take n)) (block + n) (data.drop n) =
      writeBlocks device block data := by
  funext b
  unfold writeBlocks
  by_cases hlo : block ≤ b
  · by_cases hmid : block + n ≤ b
    · rw [if_pos hmid, if_pos hlo, if_pos hlo, getElem?_drop,
        getElem?_take_eq_none (by omega), Option.getD_none]
      congr 2
      omega
    · rw [if_neg hmid, if_pos hlo, if_pos hlo, getElem?_take_of_lt (by omega)]
  · rw [if_neg (by omega), if_neg hlo, if_neg hlo]

/-- A round that takes blocks off the front leaves the rest of the data to the rounds after it. -/
lemma foldl_transferred_round
    (hafter : FollowUp deviceKey (.transfer block (data.take n)) lo blocks after)
    (hrest : ∀ device, rest.foldl (fun d c => c.transferred d) device =
      writeBlocks device (block + n) (data.drop n)) :
    (Section.transfer block (data.take n) :: (after ++ rest)).foldl
      (fun d c => c.transferred d) device = writeBlocks device block data := by
  rw [foldl_cons, foldl_append, foldl_transferred_plain fun c hc => (hafter.plain c hc).1, hrest]
  exact writeBlocks_take_drop device block data n

lemma pageBoundedFullBlocks_pos {maxBlocks : Nat} (h : 0 < maxBlocks) :
    0 < pageBoundedFullBlocks addr maxBlocks := by
  unfold pageBoundedFullBlocks
  rw [if_neg (by omega)]
  omega

/-- Every round of the loop takes a block, so the fuel suffices: all data reach the device. -/
theorem foldl_transferred_writeLoop (hfuel : data.length ≤ fuel) (device : Nat → Block) :
    (writeLoop deviceKey fuel addr block data).foldl (fun d c => c.transferred d) device =
      writeBlocks device block data := by
  induction fuel generalizing addr block data device with
  | zero =>
    obtain rfl := eq_nil_of_length_eq_zero (Nat.le_zero.mp hfuel)
    exact (writeBlocks_nil device block).symm
  | succ fuel ih =>
    have hlength : ∀ n, 0 < n → (data.drop n).length ≤ fuel := by
      intro n hn
      rw [length_drop]
      omega
    unfold writeLoop
    split
    next hnil =>
      rw [hnil, foldl_nil, writeBlocks_nil]
    rename_i hne
    have hpos := length_pos_iff.mpr hne
    split
    · have hn : min data.length MAX_CACHED_IO_BLOCKS ≤ data.length := min_le_left _ _
      have hafter := followUp_wide deviceKey (le_refl block)
        (le_refl (block + (data.take (min data.length MAX_CACHED_IO_BLOCKS)).length))
      rw [length_take_of_le hn] at hafter
      refine foldl_transferred_round hafter (ih (hlength _ ?_))
      simp only [MAX_CACHED_IO_BLOCKS]
      omega
    split
    next huse =>
      simp only [canUseWrite4k, Bool.and_eq_true, decide_eq_true_eq] at huse
      have hafter := followUp_wide deviceKey (le_refl block)
        (le_refl (block + (data.take READ_CACHE_LINE_BLOCKS).length))
      rw [length_take_of_le huse.1] at hafter
      exact foldl_transferred_round hafter (ih (hlength _ (by decide)))
    · have hn := pageBoundedFullBlocks_le addr data.length
      have hafter := followUp_legacy deviceKey (le_refl block)
        (le_refl (block + (data.take (pageBoundedFullBlocks addr data.length)).length))
      rw [length_take_of_le hn] at hafter
      exact foldl_transferred_round hafter (ih (hlength _ (pageBoundedFullBlocks_pos hpos)))

/-- **A write reaches the device**: whatever its address and length, the transfers of a write of
whole blocks write the blocks of `data` at their places, and nothing else. -/
theorem write_reaches_device (addr : Nat) (device : Nat → Block) :
    (writeWithCache deviceKey addr block data []).foldl (fun d c => c.transferred d) device =
      writeBlocks device block data := by
  unfold writeWithCache
  rw [foldl_append, foldl_append, foldl_transferred_writeLoop (le_refl data.length)]
  rfl

end Whusp.Drivers.BlockCache
