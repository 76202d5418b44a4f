import Whusp.Config
import Whusp.Lib.Codec
import Whusp.Lib.Transition

/-!
# The block cache

`drivers/block_cache.rs` for one device: 512-byte lines and 4-KiB lines in sixteen shards, reads
that fill them with or without a check of the write epoch, and writes that go to the device first
and then invalidate and update lines.

One step is one device transfer, one section of the write coordinator or one section of a shard.
A write does the same sections whatever it finds in the cache, so a call in progress is the list
of those it has still to do; what a read does next depends on the lines it finds.  The order in
which the least recently used lines leave is not modelled: any line may leave when lines enter.

What the cache keeps is in `Drivers.BlockCacheCoherence`.
-/

namespace Whusp.Drivers.BlockCache

open Whusp.Lib (Byte System)

/-! ## Constants -/

def BLOCK_CACHE_LINE_SIZE : Nat := 512
def READ_CACHE_LINE_BLOCKS : Nat := PAGE_SIZE / BLOCK_CACHE_LINE_SIZE
def MAX_CACHED_IO_BLOCKS : Nat := 64
def BLOCK_CACHE_SHARD_COUNT : Nat := 16
def BLOCK_CACHE_SHARD_REGION_BLOCKS : Nat := MAX_CACHED_IO_BLOCKS

abbrev Block := List Byte

inductive LineKind where
  /-- `BlockCacheLine`, of one block. -/
  | legacy
  /-- `ReadCacheLine`, of eight blocks, at any start. -/
  | read4k
  deriving DecidableEq

def LineKind.blocks : LineKind → Nat
  | .legacy => 1
  | .read4k => READ_CACHE_LINE_BLOCKS

/-! ## Shards -/

/-- The shard of a line depends on the region of its first block. -/
def cacheShardIndex (deviceKey : BitVec 64) (blockId : Nat) : Nat :=
  let region := BitVec.ofNat 64 (blockId / BLOCK_CACHE_SHARD_REGION_BLOCKS)
  let mixed := region ^^^ region.rotateLeft 17 ^^^ deviceKey.rotateLeft 11 ^^^ (deviceKey >>> 7)
  mixed.toNat % BLOCK_CACHE_SHARD_COUNT

/-- The lines of one shard, by kind and first block. -/
structure Shard where
  lines : LineKind → Nat → Option (List Block)

namespace Shard

/-- `ranges_overlap` of a line and the blocks from `block` on. -/
def overlaps (kind : LineKind) (line block blocks : Nat) : Bool :=
  decide (line < block + blocks) && decide (block < line + kind.blocks)

/-- `invalidate_read4k_range`, `invalidate_legacy_range_after_write` and
`invalidate_key_after_write`: the lines that overlap a range leave. -/
def invalidate (sh : Shard) (kind : LineKind) (block blocks : Nat) : Shard where
  lines kind' line :=
    if kind' = kind ∧ overlaps kind line block blocks then none else sh.lines kind' line

/-- `insert_read`, `insert_read4k`, `update_after_write` and `update_after_write4k`. -/
def insert (sh : Shard) (kind : LineKind) (line : Nat) (data : List Block) : Shard where
  lines kind' line' := if kind' = kind ∧ line' = line then some data else sh.lines kind' line'

def insertRun (sh : Shard) (kind : LineKind) (run : List (Nat × List Block)) : Shard :=
  run.foldl (fun sh l => sh.insert kind l.1 l.2) sh

/-- `trim_to_capacity` and `trim_read4k_to_capacity`; `keep` says which lines stay. -/
def trim (sh : Shard) (keep : LineKind → Nat → Bool) : Shard where
  lines kind line := if keep kind line then sh.lines kind line else none

end Shard

/-! ## Runs of lines -/

/-- The full lines of `data`, which starts at `block`. -/
def lineRun (kind : LineKind) (block : Nat) (data : List Block) : List (Nat × List Block) :=
  (List.range (data.length / kind.blocks)).map fun i =>
    (block + i * kind.blocks, (data.drop (i * kind.blocks)).take kind.blocks)

/-- The sections that enter a run of lines: one for each stretch of lines of one shard. -/
def shardRuns (shard : Nat → Nat) : List (Nat × List Block) → List (Nat × List (Nat × List Block))
  | [] => []
  | (line, data) :: rest =>
    match shardRuns shard rest with
    | [] => [(shard line, [(line, data)])]
    | (i, run) :: runs =>
      if shard line = i then (i, (line, data) :: run) :: runs
      else (shard line, [(line, data)]) :: (i, run) :: runs

/-! ## Writes -/

/-- A section of a write in progress. -/
inductive Section where
  | transfer (block : Nat) (data : List Block)
  /-- `write_uncached` of the last, partial block.  The closures of all drivers assert whole
  sectors, so no call comes past it. -/
  | transferTail (block : Nat) (tail : List Byte)
  | invalidate (kind : LineKind) (shard block blocks : Nat)
  | update (kind : LineKind) (shard : Nat) (run : List (Nat × List Block))
  | endWrite
  deriving DecidableEq

def pageBoundedFullBlocks (addr maxBlocks : Nat) : Nat :=
  if maxBlocks = 0 then 0
  else min (max ((PAGE_SIZE - addr % PAGE_SIZE) / BLOCK_CACHE_LINE_SIZE) 1) maxBlocks

def canUseWrite4k (addr remaining : Nat) : Bool :=
  decide (READ_CACHE_LINE_BLOCKS ≤ remaining) &&
    decide (READ_CACHE_LINE_BLOCKS ≤ pageBoundedFullBlocks addr remaining)

variable (deviceKey : BitVec 64)

/-- `cache_invalidate_read4k_range`: every region in which an overlapping line can start. -/
def invalidateRead4kRange (block blocks : Nat) : List Section :=
  if blocks = 0 then []
  else
    let first := (block - (READ_CACHE_LINE_BLOCKS - 1)) / BLOCK_CACHE_SHARD_REGION_BLOCKS
    let last := (block + blocks - 1) / BLOCK_CACHE_SHARD_REGION_BLOCKS
    (List.range (last + 1 - first)).map fun r =>
      .invalidate .read4k
        (cacheShardIndex deviceKey ((first + r) * BLOCK_CACHE_SHARD_REGION_BLOCKS)) block blocks

/-- The loop of `cache_invalidate_legacy_range_after_write`, a region at a time. -/
def invalidateLegacyLoop : Nat → Nat → Nat → List Section
  | 0, _, _ => []
  | fuel + 1, block, blocks =>
    if blocks = 0 then []
    else
      let part := min
        (BLOCK_CACHE_SHARD_REGION_BLOCKS - block % BLOCK_CACHE_SHARD_REGION_BLOCKS) blocks
      .invalidate .legacy (cacheShardIndex deviceKey block) block part ::
        invalidateLegacyLoop fuel (block + part) (blocks - part)

def invalidateLegacyRange (block blocks : Nat) : List Section :=
  invalidateLegacyLoop deviceKey blocks block blocks

/-- `cache_update_after_write4k_run` and `cache_update_after_write_run`. -/
def updateRun (kind : LineKind) (block : Nat) (data : List Block) : List Section :=
  (shardRuns (cacheShardIndex deviceKey) (lineRun kind block data)).map fun r =>
    .update kind r.1 r.2

/-- The loop of `write_with_cache` over the full blocks; every round takes at least one. -/
def writeLoop : Nat → Nat → Nat → List Block → List Section
  | 0, _, _, _ => []
  | fuel + 1, addr, block, data =>
    if data = [] then []
    else if READ_CACHE_LINE_BLOCKS < data.length then
      let blocks := min data.length MAX_CACHED_IO_BLOCKS
      .transfer block (data.take blocks) ::
        (invalidateRead4kRange deviceKey block blocks ++
          invalidateLegacyRange deviceKey block blocks ++
          updateRun deviceKey .read4k block (data.take blocks) ++
          writeLoop fuel (addr + blocks * BLOCK_CACHE_LINE_SIZE) (block + blocks)
            (data.drop blocks))
    else if canUseWrite4k addr data.length then
      let blocks := READ_CACHE_LINE_BLOCKS
      .transfer block (data.take blocks) ::
        (invalidateRead4kRange deviceKey block blocks ++
          invalidateLegacyRange deviceKey block blocks ++
          updateRun deviceKey .read4k block (data.take blocks) ++
          writeLoop fuel (addr + blocks * BLOCK_CACHE_LINE_SIZE) (block + blocks)
            (data.drop blocks))
    else
      let blocks := pageBoundedFullBlocks addr data.length
      .transfer block (data.take blocks) ::
        (invalidateRead4kRange deviceKey block blocks ++
          updateRun deviceKey .legacy block (data.take blocks) ++
          writeLoop fuel (addr + blocks * BLOCK_CACHE_LINE_SIZE) (block + blocks)
            (data.drop blocks))

/-- `write_with_cache` after `begin_device_write`, as the sections it goes through. -/
def writeWithCache (addr block : Nat) (data : List Block) (tail : List Byte) : List Section :=
  writeLoop deviceKey data.length addr block data ++
    (if tail = [] then []
    else
      .transferTail (block + data.length) tail ::
        (invalidateRead4kRange deviceKey (block + data.length) 1 ++
          [.invalidate .legacy (cacheShardIndex deviceKey (block + data.length))
            (block + data.length) 1])) ++
    [.endWrite]

/-! ## Reads -/

inductive ReadPhase where
  | head
  /-- In `cache_read_or_miss_run` or `cache_read4k_or_miss_run`, between two sections; `blocks`
      have been found missing. -/
  | scanning (kind : LineKind) (maxBlocks blocks : Nat)
  | missed (kind : LineKind) (blocks : Nat)
  | reading (kind : LineKind) (blocks : Nat) (token : Option (BitVec 64))
  /-- A versioned read has the blocks and a token to publish them with. -/
  | publishing (kind : LineKind) (blocks : Nat) (token : BitVec 64) (data : List Block)
  /-- An unversioned read enters the lines it has read, a section at a time. -/
  | filling (kind : LineKind) (blocks : Nat) (fills : List (Nat × List (Nat × List Block)))
  | finished
  deriving DecidableEq

/-- `read_with_cache` or `read_with_cache_versioned_fill` in progress. -/
structure ReadCall where
  versioned : Bool
  /-- The next block, where it goes in memory, and how many full ones are left. -/
  block : Nat
  addr : Nat
  remaining : Nat
  phase : ReadPhase

inductive Call where
  /-- A write of `blocks` blocks, the last of them perhaps in part. -/
  | write (block blocks : Nat) (sections : List Section)
  | read (r : ReadCall)

def ReadCall.advance (r : ReadCall) (blocks : Nat) : ReadCall :=
  { r with
    block := r.block + blocks
    addr := r.addr + blocks * BLOCK_CACHE_LINE_SIZE
    remaining := r.remaining - blocks
    phase := .head }

/-- The inner loop of a scan, in one section: whether it met a line, and how far it came. -/
def scanShard (sh : Shard) (kind : LineKind) (shard block maxBlocks : Nat) : Nat → Nat → Bool × Nat
  | 0, blocks => (false, blocks)
  | fuel + 1, blocks =>
    if blocks < maxBlocks ∧ cacheShardIndex deviceKey (block + blocks) = shard then
      if (sh.lines kind (block + blocks)).isSome then (true, blocks)
      else scanShard sh kind shard block maxBlocks fuel (blocks + kind.blocks)
    else (false, blocks)

/-! ## The state -/

structure State where
  device : Nat → Block
  shards : Nat → Shard
  /-- Moved by every start and end of a write, with `wrapping_add`. -/
  writeEpoch : BitVec 64
  writersInflight : Nat
  calls : List Call

def window (device : Nat → Block) (block blocks : Nat) : List Block :=
  (List.range blocks).map fun i => device (block + i)

/-- A transfer of full blocks to the device. -/
def writeBlocks (device : Nat → Block) (block : Nat) (data : List Block) : Nat → Block :=
  fun b => if block ≤ b then (data[b - block]?).getD (device b) else device b

namespace State

def setShard (s : State) (i : Nat) (sh : Shard) : State :=
  { s with shards := Function.update s.shards i sh }

def setCall (s : State) (j : Nat) (c : Call) : State := { s with calls := s.calls.set j c }

def enter (s : State) (kind : LineKind) (i : Nat) (run : List (Nat × List Block))
    (keep : LineKind → Nat → Bool) : State :=
  s.setShard i (((s.shards i).insertRun kind run).trim keep)

/-- One section of a write; `none` is a failed assertion. -/
def exec (s : State) (keep : LineKind → Nat → Bool) : Section → Option State
  | .transfer block data => some { s with device := writeBlocks s.device block data }
  | .transferTail _ _ => none
  | .invalidate kind i block blocks =>
    some (s.setShard i ((s.shards i).invalidate kind block blocks))
  | .update kind i run => some (s.enter kind i run keep)
  | .endWrite =>
    some { s with writersInflight := s.writersInflight - 1, writeEpoch := s.writeEpoch + 1 }

def readFillToken (s : State) : Option (BitVec 64) :=
  if s.writersInflight ≠ 0 then none else some s.writeEpoch

def readFillTokenIsCurrent (s : State) (token : BitVec 64) : Bool :=
  decide (s.writersInflight = 0) && decide (s.writeEpoch = token)

/-- The head of the loop: the kind of line, and the most blocks of one transfer. -/
def startRound (r : ReadCall) : ReadCall :=
  if r.remaining = 0 then { r with phase := .finished }
  else if READ_CACHE_LINE_BLOCKS ≤ r.remaining then
    let maxBlocks := min r.remaining MAX_CACHED_IO_BLOCKS
    let wholeLines := maxBlocks / READ_CACHE_LINE_BLOCKS * READ_CACHE_LINE_BLOCKS
    { r with phase := .scanning .read4k wholeLines 0 }
  else { r with phase := .scanning .legacy (pageBoundedFullBlocks r.addr r.remaining) 0 }

def scan (s : State) (r : ReadCall) (kind : LineKind) (maxBlocks blocks : Nat) : ReadCall :=
  let i := cacheShardIndex deviceKey (r.block + blocks)
  let sh := s.shards i
  if blocks = 0 ∧ (sh.lines kind r.block).isSome then r.advance kind.blocks
  else
    let start := if blocks = 0 then kind.blocks else blocks
    let (met, blocks) := scanShard deviceKey sh kind i r.block maxBlocks maxBlocks start
    if met ∨ maxBlocks ≤ blocks then { r with phase := .missed kind blocks }
    else { r with phase := .scanning kind maxBlocks blocks }

/-- `cache_insert_read4k_run_if_token` and `cache_insert_read_run_if_token`, a section of the
coordinator. -/
def publish (s : State) (r : ReadCall) (kind : LineKind) (token : BitVec 64)
    (data : List Block) (keep : LineKind → Nat → Bool) : State :=
  if s.readFillTokenIsCurrent token then
    (shardRuns (cacheShardIndex deviceKey) (lineRun kind r.block data)).foldl
      (fun s run => s.enter kind run.1 run.2 keep) s
  else s

def stepRead (s : State) (j : Nat) (r : ReadCall) (keep : LineKind → Nat → Bool) :
    Option State :=
  match r.phase with
  | .head => some (s.setCall j (.read (startRound r)))
  | .scanning kind maxBlocks blocks =>
    some (s.setCall j (.read (s.scan deviceKey r kind maxBlocks blocks)))
  | .missed kind blocks =>
    if r.versioned then
      some (s.setCall j (.read { r with phase := .reading kind blocks s.readFillToken }))
    else
      let fills := shardRuns (cacheShardIndex deviceKey)
        (lineRun kind r.block (window s.device r.block blocks))
      some (s.setCall j (.read { r with phase := .filling kind blocks fills }))
  | .reading kind blocks token =>
    match token with
    | none => some (s.setCall j (.read (r.advance blocks)))
    | some token =>
      let data := window s.device r.block blocks
      some (s.setCall j (.read { r with phase := .publishing kind blocks token data }))
  | .publishing kind blocks token data =>
    some ((s.publish deviceKey r kind token data keep).setCall j (.read (r.advance blocks)))
  | .filling kind blocks fills =>
    match fills with
    | [] => some (s.setCall j (.read (r.advance blocks)))
    | run :: fills =>
      some ((s.enter kind run.1 run.2 keep).setCall j
        (.read { r with phase := .filling kind blocks fills }))
  | .finished => none

def stepWrite (s : State) (j block blocks : Nat) (sections : List Section)
    (keep : LineKind → Nat → Bool) : Option State :=
  match sections with
  | [] => none
  | sec :: rest => (s.exec keep sec).map (·.setCall j (.write block blocks rest))

end State

inductive Event where
  /-- A read of full blocks is called; a partial last block bypasses the cache. -/
  | startRead (versioned : Bool) (addr block remaining : Nat)
  | startWrite (addr block : Nat) (data : List Block) (tail : List Byte)
  /-- The next section of a call; `keep` says which lines stay if the shard is trimmed. -/
  | advance (j : Nat) (keep : LineKind → Nat → Bool)

def State.step (s : State) : Event → Option State
  | .startRead versioned addr block remaining =>
    some { s with calls := s.calls ++ [.read ⟨versioned, block, addr, remaining, .head⟩] }
  | .startWrite addr block data tail =>
    let blocks := data.length + if tail = [] then 0 else 1
    some { s with
      writeEpoch := s.writeEpoch + 1
      writersInflight := s.writersInflight + 1
      calls := s.calls ++ [.write block blocks (writeWithCache deviceKey addr block data tail)] }
  | .advance j keep =>
    match s.calls[j]? with
    | none => none
    | some (.read r) => s.stepRead deviceKey j r keep
    | some (.write block blocks sections) => s.stepWrite j block blocks sections keep

/-- The cache is empty and no call is in flight. -/
structure State.Initial (s : State) : Prop where
  empty : ∀ i kind line, (s.shards i).lines kind line = none
  idle : s.writersInflight = 0
  calls : s.calls = []

def system : System State Event where
  init := State.Initial
  step := State.step deviceKey

end Whusp.Drivers.BlockCache
