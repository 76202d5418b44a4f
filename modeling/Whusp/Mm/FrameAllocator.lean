import Mathlib.Data.List.Chain
import Whusp.Lib.Counting
import Whusp.Lib.RefCount
import Whusp.Lib.Transition

/-!
# The physical frame allocator

`mm/frame_allocator.rs`: a bump cursor with a stack of recycled pages under one global lock, a
stack of free pages for each CPU under its own lock, and an atomic reference count for each page.
A call is cut at its lock sections and atomic operations; between two of them the pages it
carries are in transit.  A `FrameTracker` is an owned value: it is made by an allocation or by
`from_retained`, and dropped once.
-/

namespace Whusp.Mm.FrameAllocator

open Function Whusp.Lib List

/-! ## The global allocator -/

def FRAME_CACHE_CAPACITY : Nat := 256

def FRAME_CACHE_BATCH : Nat := 128

/-- The head of `recycled` is the top of the stack. -/
structure StackFrameAllocator where
  start : Nat
  current : Nat
  stop : Nat
  recycled : List Nat
  deriving DecidableEq

namespace StackFrameAllocator

def init (l r : Nat) : StackFrameAllocator := ⟨l, l, r, []⟩

def alloc (a : StackFrameAllocator) : Option (Nat × StackFrameAllocator) :=
  match a.recycled with
  | ppn :: recycled => some (ppn, { a with recycled })
  | [] =>
    if a.current = a.stop then none
    else some (a.current, { a with current := a.current + 1 })

/-- The pages of the answer descend. -/
def allocMore (a : StackFrameAllocator) (pages : Nat) : Option (List Nat × StackFrameAllocator) :=
  if pages = 0 then none
  else if a.current + pages > a.stop then none
  else some ((List.range' a.current pages).reverse, { a with current := a.current + pages })

/-- `none` is the panic on a page that was never handed out. -/
def recycle (a : StackFrameAllocator) (ppn : Nat) : Option StackFrameAllocator :=
  if ppn < a.start ∨ ppn ≥ a.current then none
  else some { a with recycled := ppn :: a.recycled }

/-- The refill loop of `alloc_frame_ppn`; the last page taken comes first. -/
def refill (a : StackFrameAllocator) : Nat → List Nat → List Nat × StackFrameAllocator
  | 0, taken => (taken, a)
  | n + 1, taken =>
    match a.alloc with
    | some (ppn, a') => a'.refill n (ppn :: taken)
    | none => (taken, a)

/-- The loop over the drained pages. -/
def recycleAll (a : StackFrameAllocator) : List Nat → Option StackFrameAllocator
  | [] => some a
  | ppn :: pages => do (← a.recycle ppn).recycleAll pages

/-- The page lies below the cursor: it was handed out at least once. -/
def HandedOut (a : StackFrameAllocator) (p : Nat) : Prop := a.start ≤ p ∧ p < a.current

def handed (a : StackFrameAllocator) (p : Nat) : Nat :=
  if a.start ≤ p ∧ p < a.current then 1 else 0

structure Ordered (a : StackFrameAllocator) : Prop where
  start_le : a.start ≤ a.current
  le_stop : a.current ≤ a.stop

/-- **What an allocation does**: the range stays, and each page of the answer left the recycled
stack or went below the cursor. -/
structure Takes (a : StackFrameAllocator) (pages : List Nat) (a' : StackFrameAllocator) :
    Prop where
  start_eq : a'.start = a.start
  stop_eq : a'.stop = a.stop
  ordered : a'.Ordered
  balance : ∀ p, a'.recycled.count p + pages.count p + a.handed p =
    a.recycled.count p + a'.handed p

variable {a a' : StackFrameAllocator} {ppn : Nat} {pages taken : List Nat}

lemma handed_le_one (a : StackFrameAllocator) (p : Nat) : a.handed p ≤ 1 := by
  unfold handed
  split <;> decide

lemma handed_pos {p : Nat} : 0 < a.handed p ↔ a.HandedOut p := by
  unfold handed HandedOut
  split <;> simp [*]

lemma takes_alloc (ho : a.Ordered) (h : a.alloc = some (ppn, a')) : a.Takes [ppn] a' := by
  unfold alloc at h
  split at h
  next _ recycled hr =>
    cases h
    refine ⟨rfl, rfl, ⟨ho.start_le, ho.le_stop⟩, fun p => ?_⟩
    simp only [hr, count_cons, count_nil, handed]
    omega
  split at h
  · cases h
  rename_i hne
  cases h
  have hlt : a.current < a.stop := lt_of_le_of_ne ho.le_stop hne
  refine ⟨rfl, rfl, ⟨Nat.le_succ_of_le ho.start_le, hlt⟩, fun p => ?_⟩
  have hs := ho.start_le
  simp only [count_singleton, handed, beq_iff_eq]
  split_ifs <;> omega

variable {n : Nat}

lemma takes_allocMore (ho : a.Ordered) (h : a.allocMore n = some (pages, a')) :
    a.Takes pages a' := by
  obtain ⟨-, h⟩ := Option.ite_none_left_eq_some.mp h
  obtain ⟨hle, ⟨⟩⟩ := of_refusal h
  have hs := ho.start_le
  refine ⟨rfl, rfl, ⟨Nat.le_add_right_of_le hs, Nat.not_lt.mp hle⟩, fun p => ?_⟩
  -- a page of the run occurs in it once
  have hcount : (List.range' a.current n).reverse.count p =
      if a.current ≤ p ∧ p < a.current + n then 1 else 0 := by
    rw [count_reverse]
    split_ifs with hp
    · exact count_eq_one_of_mem nodup_range' (mem_range'_1.mpr hp)
    · exact count_eq_zero_of_not_mem fun hm => hp (mem_range'_1.mp hm)
  simp only [hcount, handed]
  split_ifs <;> omega

/-- The refill loop: induction on the batch that is left. -/
lemma takes_refill (ho : a.Ordered) (h : a.refill n taken = (pages, a')) :
    ∃ new, pages = new ++ taken ∧ a.Takes new a' := by
  induction n generalizing a taken with
  | zero =>
    cases h
    exact ⟨[], rfl, rfl, rfl, ho, fun p => by simp⟩
  | succ n ih =>
    rw [refill] at h
    split at h
    next ppn b hb =>
      have hone := takes_alloc ho hb
      obtain ⟨new, rfl, hrest⟩ := ih hone.ordered h
      refine ⟨new ++ [ppn], by simp, hrest.start_eq.trans hone.start_eq,
        hrest.stop_eq.trans hone.stop_eq, hrest.ordered, fun p => ?_⟩
      have h1 := hone.balance p
      have h2 := hrest.balance p
      rw [count_append]
      omega
    next =>
      cases h
      exact ⟨[], rfl, rfl, rfl, ho, fun p => by simp⟩

/-- Pages below the cursor can all be recycled. -/
lemma recycleAll_of_handedOut (h : ∀ p ∈ pages, a.HandedOut p) :
    a.recycleAll pages = some { a with recycled := pages.reverse ++ a.recycled } := by
  induction pages generalizing a with
  | nil => rfl
  | cons ppn pages ih =>
    have hp := h ppn mem_cons_self
    have hone : a.recycle ppn = some { a with recycled := ppn :: a.recycled } :=
      if_neg (not_or.mpr ⟨not_lt.mpr hp.1, not_le.mpr hp.2⟩)
    rw [recycleAll, hone]
    refine (ih fun p hm => ?_).trans (by simp)
    exact h p (mem_cons_of_mem _ hm)

end StackFrameAllocator

/-! ## Calls -/

/-- A call between two of its atomic steps. -/
inductive Call where
  | alloc
  | refill (cpu : Nat)
  | claim (ppn : Nat)
  /-- After a refill the rest of the batch goes to the CPU's cache. -/
  | claimRefill (cpu : Nat) (ppn : Nat) (rest : List Nat)
  | publish (cpu : Nat) (ppn : Nat) (rest : List Nat)
  | claimRun (todo done : List Nat)
  /-- `FrameRefCounts::release` before its load. -/
  | release (ppn : Nat)
  | releaseCas (ppn count : Nat)
  | dealloc (ppn : Nat)
  | drain (pages : List Nat)
  /-- `FrameRefCounts::retain` before its load. -/
  | retain (ppn : Nat)
  | retainCas (ppn count : Nat)
  | returned

namespace Call

/-- Free pages that only the call knows. -/
def transit : Call → List Nat
  | claim ppn => [ppn]
  | claimRefill _ ppn rest => ppn :: rest
  | publish _ _ rest => rest
  | claimRun todo _ => todo
  | dealloc ppn => [ppn]
  | drain pages => pages
  | _ => []

/-- Claimed pages on their way to the caller. -/
def claimed : Call → List Nat
  | publish _ ppn _ => [ppn]
  | claimRun _ done => done
  | _ => []

/-- References that the call holds: the pages it claimed, or that of a dropped tracker. -/
def refs : Call → List Nat
  | release ppn => [ppn]
  | releaseCas ppn _ => [ppn]
  | call => call.claimed

/-- A count that a call has loaded and checked. -/
def Loaded : Call → Prop
  | releaseCas _ count => 0 < count
  | retainCas _ count => 0 < count
  | _ => True

lemma count_claimed_le (p : Nat) (call : Call) : call.claimed.count p ≤ call.refs.count p := by
  cases call <;> first | exact Nat.le_refl _ | exact Nat.zero_le _

end Call

/-! ## The system -/

inductive Panic where
  /-- "frame PPN is outside allocator metadata". -/
  | outsideMetadata
  /-- "free frame PPN has reference count". -/
  | claim
  /-- "frame PPN has no reference count". -/
  | doubleFree
  /-- "Frame ppn has not been allocated!". -/
  | notAllocated
  /-- "frame reference count overflow". -/
  | overflow

/-- What the callers saw of a page. -/
inductive Mark where
  | alloc
  | free
  deriving DecidableEq

structure State where
  allocator : StackFrameAllocator
  /-- One stack for each CPU. -/
  caches : List (List Nat)
  counts : Nat → Nat
  calls : List Call
  trackers : Nat → Nat
  /-- Allocations that returned the page and last releases of it, newest first. -/
  log : Nat → List Mark
  panic : Option Panic

namespace State

def boot (start stop cpus : Nat) : State where
  allocator := .init start stop
  caches := List.replicate cpus []
  counts := fun _ => 0
  calls := []
  trackers := fun _ => 0
  log := fun _ => []
  panic := none

/-- `FrameRefCounts::slot` is there. -/
def HasSlot (s : State) (ppn : Nat) : Prop := s.allocator.start ≤ ppn ∧ ppn < s.allocator.stop

instance (s : State) (ppn : Nat) : Decidable (s.HasSlot ppn) :=
  inferInstanceAs (Decidable (_ ∧ _))

def panics (s : State) (why : Panic) : State := { s with panic := some why }

def setCount (s : State) (ppn count : Nat) : State :=
  { s with counts := update s.counts ppn count }

def claimFree (s : State) (ppn : Nat) : Except Panic State :=
  if ¬ s.HasSlot ppn then .error .outsideMetadata
  else if s.counts ppn = 0 then .ok (s.setCount ppn 1)
  else .error .claim

/-- The call returns trackers of claimed pages. -/
def give (s : State) (pages : List Nat) : State :=
  { s with
    trackers := fun p => s.trackers p + pages.count p
    log := fun p => if p ∈ pages then .alloc :: s.log p else s.log p }

/-- The last reference of a page is gone. -/
def freed (s : State) (ppn : Nat) : State :=
  { s.setCount ppn 0 with log := update s.log ppn (.free :: s.log ppn) }

/-- `from_retained` succeeds. -/
def retained (s : State) (ppn : Nat) : State :=
  { s.setCount ppn (s.counts ppn + 1) with
    trackers := update s.trackers ppn (s.trackers ppn + 1) }

/-- `frame_dealloc` of a page without references, on a CPU or before it is known. -/
def deallocPage (s : State) (ppn : Nat) : Option Nat → Option (State × Call)
  | some cpu =>
    match s.caches[cpu]? with
    | none => none
    | some pages =>
      if (ppn :: pages).length > FRAME_CACHE_CAPACITY then
        some ({ s with caches := s.caches.set cpu ((ppn :: pages).drop FRAME_CACHE_BATCH) },
          .drain ((ppn :: pages).take FRAME_CACHE_BATCH))
      else some ({ s with caches := s.caches.set cpu (ppn :: pages) }, .returned)
  | none =>
    match s.allocator.recycle ppn with
    | some allocator => some ({ s with allocator }, .returned)
    | none => some (s.panics .notAllocated, .dealloc ppn)

/-- The first lock section of `alloc_frame_ppn`. -/
def allocPage (s : State) : Option Nat → Option (State × Call)
  | some cpu =>
    match s.caches[cpu]? with
    | none => none
    | some [] => some (s, .refill cpu)
    | some (ppn :: pages) => some ({ s with caches := s.caches.set cpu pages }, .claim ppn)
  | none =>
    match s.allocator.alloc with
    | some (ppn, allocator) => some ({ s with allocator }, .claim ppn)
    | none => some (s, .returned)

/-- The next atomic step of a call; `cpu` is the answer of `try_current_id` where it is asked. -/
def callStep (s : State) (cpu : Option Nat) : Call → Option (State × Call)
  | .alloc => s.allocPage cpu
  | .refill c =>
    match s.allocator.refill FRAME_CACHE_BATCH [] with
    | ([], allocator) => some ({ s with allocator }, .returned)
    | (ppn :: rest, allocator) => some ({ s with allocator }, .claimRefill c ppn rest)
  | .claim ppn =>
    match s.claimFree ppn with
    | .error why => some (s.panics why, .claim ppn)
    | .ok s' => some (s'.give [ppn], .returned)
  | .claimRefill c ppn rest =>
    match s.claimFree ppn with
    | .error why => some (s.panics why, .claimRefill c ppn rest)
    | .ok s' =>
      if rest = [] then some (s'.give [ppn], .returned) else some (s', .publish c ppn rest)
  | .publish c ppn rest =>
    match s.caches[c]? with
    | none => none
    | some pages => some ({ s with caches := s.caches.set c (rest ++ pages) }.give [ppn], .returned)
  | .claimRun (ppn :: todo) done =>
    match s.claimFree ppn with
    | .error why => some (s.panics why, .claimRun (ppn :: todo) done)
    | .ok s' => some (s', .claimRun todo (ppn :: done))
  | .claimRun [] done => some (s.give done, .returned)
  | .release ppn =>
    if ¬ s.HasSlot ppn then some (s.panics .outsideMetadata, .release ppn)
    else if s.counts ppn = 0 then some (s.panics .doubleFree, .release ppn)
    else some (s, .releaseCas ppn (s.counts ppn))
  | .releaseCas ppn count =>
    if s.counts ppn = count then
      if count = 1 then some (s.freed ppn, .dealloc ppn)
      else some (s.setCount ppn (count - 1), .returned)
    else some (s, .release ppn)
  | .dealloc ppn => s.deallocPage ppn cpu
  | .drain pages =>
    match s.allocator.recycleAll pages with
    | some allocator => some ({ s with allocator }, .returned)
    | none => some (s.panics .notAllocated, .drain pages)
  | .retain ppn =>
    if ¬ s.HasSlot ppn then some (s, .returned)
    else if s.counts ppn = 0 then some (s, .returned)
    else if s.counts ppn + 1 = 2 ^ 32 then some (s.panics .overflow, .retain ppn)
    else some (s, .retainCas ppn (s.counts ppn))
  | .retainCas ppn count =>
    if s.counts ppn = count then some (s.retained ppn, .returned) else some (s, .retain ppn)
  | .returned => none

end State

inductive Event where
  | frameAlloc
  /-- `frame_alloc_more`, or `frame_alloc_contiguous_uninit` with its ascending claims. -/
  | frameAllocMore (pages : Nat) (ascending : Bool)
  | drop (ppn : Nat)
  | fromRetained (ppn : Nat)
  | step (i : Nat) (cpu : Option Nat)
  /-- A `compare_exchange_weak` of a call fails without a reason. -/
  | spurious (i : Nat)

namespace State

def addCall (s : State) (call : Call) : State := { s with calls := s.calls ++ [call] }

def running (s : State) : Event → Option State
  | .frameAlloc => some (s.addCall .alloc)
  | .frameAllocMore pages ascending =>
    match s.allocator.allocMore pages with
    | none => some s
    | some (ppns, allocator) =>
      some ({ s with allocator }.addCall (.claimRun (if ascending then ppns.reverse else ppns) []))
  | .drop ppn =>
    if s.trackers ppn = 0 then none
    else some ({ s with trackers := update s.trackers ppn (s.trackers ppn - 1) }.addCall
      (.release ppn))
  | .fromRetained ppn => some (s.addCall (.retain ppn))
  | .step i cpu =>
    match s.calls[i]? with
    | none => none
    | some call =>
      (s.callStep cpu call).map fun r => { r.1 with calls := s.calls.set i r.2 }
  | .spurious i =>
    match s.calls[i]? with
    | some (.releaseCas ppn _) => some { s with calls := s.calls.set i (.release ppn) }
    | some (.retainCas ppn _) => some { s with calls := s.calls.set i (.retain ppn) }
    | _ => none

/-- Nothing runs after a panic. -/
def event (s : State) (e : Event) : Option State :=
  if s.panic = none then s.running e else none

end State

def system : System State Event where
  init s := ∃ start stop cpus, start ≤ stop ∧ s = State.boot start stop cpus
  step := State.event

/-! ## The account of a page -/

namespace State

/-- One for a page with a reference. -/
def owned (s : State) (p : Nat) : Nat := if s.counts p = 0 then 0 else 1

/-- One for a page whose last mark is an allocation. -/
def out (s : State) (p : Nat) : Nat := if (s.log p).head? = some .alloc then 1 else 0

lemma owned_le_one (s : State) (p : Nat) : s.owned p ≤ 1 := by
  unfold owned
  split <;> decide

section

variable (s : State) (ppn : Nat)

lemma freed_counts_self : (s.freed ppn).counts ppn = 0 :=
  update_self ..

lemma freed_log_self : (s.freed ppn).log ppn = .free :: s.log ppn :=
  update_self ..

lemma retained_counts_self :
    (s.retained ppn).counts ppn = s.counts ppn + 1 :=
  update_self ..

lemma retained_trackers_self :
    (s.retained ppn).trackers ppn = s.trackers ppn + 1 :=
  update_self ..

end

lemma owned_pos {s : State} {p : Nat} : 0 < s.owned p ↔ 0 < s.counts p := by
  unfold owned
  split <;> omega

end State

lemma count_singleton_of_ne {p ppn : Nat} (hne : p ≠ ppn) : [ppn].count p = 0 :=
  count_eq_zero_of_not_mem (by simpa using hne)

/-- **The account of a page** when the calls have `transit` copies of it in transit, hold `refs`
references and have `claimed` it that often. -/
structure Account (s : State) (p transit refs claimed : Nat) : Prop where
  partition : s.allocator.recycled.count p + s.caches.flatten.count p + transit + s.owned p =
    s.allocator.handed p
  references : s.counts p = s.trackers p + refs
  history : s.out p + claimed = s.owned p
  alternates : (s.log p).IsChain (· ≠ ·)

namespace Account

variable {s s' : State} {p ppn t t' r c : Nat} {pages : List Nat}

open State

section

variable (h : Account s p t r c)
include h

/-- The account looks at one page only, and at its free places together. -/
lemma of_balance (hcounts : s'.counts p = s.counts p)
    (htrackers : s'.trackers p = s.trackers p) (hlog : s'.log p = s.log p)
    (hfree : s'.allocator.recycled.count p + s'.caches.flatten.count p + t' +
      s.allocator.handed p = s.allocator.recycled.count p + s.caches.flatten.count p + t +
      s'.allocator.handed p) : Account s' p t' r c := by
  have howned : s'.owned p = s.owned p := by rw [owned, owned, hcounts]
  have hout : s'.out p = s.out p := by rw [out, out, hlog]
  have hpart := h.partition
  refine ⟨by omega, ?_, ?_, ?_⟩
  · rw [hcounts, htrackers, h.references]
  · rw [hout, howned, h.history]
  · rw [hlog]
    exact h.alternates

lemma of_page (hallocator : s'.allocator = s.allocator)
    (hcaches : s'.caches = s.caches) (hcounts : s'.counts p = s.counts p)
    (htrackers : s'.trackers p = s.trackers p) (hlog : s'.log p = s.log p) :
    Account s' p t r c :=
  h.of_balance hcounts htrackers hlog (by rw [hallocator, hcaches])

lemma free_of_transit (ht : 0 < t) :
    s.counts p = 0 ∧ s.allocator.HandedOut p := by
  have hpart := h.partition
  have hle := s.allocator.handed_le_one p
  have hcounts := owned_pos (s := s) (p := p)
  exact ⟨by omega, StackFrameAllocator.handed_pos.mp (by omega)⟩

/-- A page that a call has a reference to is owned and below the cursor. -/
lemma owned_of_refs (hr : 0 < r) :
    0 < s.counts p ∧ s.allocator.HandedOut p := by
  have hcounts : 0 < s.counts p := by
    have href := h.references
    omega
  have hpart := h.partition
  have howned := owned_pos.mpr hcounts
  exact ⟨hcounts, StackFrameAllocator.handed_pos.mp (by omega)⟩

end

lemma claim (h : Account s p (t + [ppn].count p) r c) (hzero : s.counts ppn = 0) :
    Account (s.setCount ppn 1) p t (r + [ppn].count p) (c + [ppn].count p) := by
  rcases eq_or_ne p ppn with rfl | hne
  · have hself : (s.setCount p 1).counts p = 1 := update_self ..
    have howned : (s.setCount p 1).owned p = 1 := by simp [owned, hself]
    have hout : (s.setCount p 1).out p = s.out p := rfl
    have hone : [p].count p = 1 := count_singleton_self
    have hfree : s.owned p = 0 := if_pos hzero
    obtain ⟨hpart, href, hhist, halt⟩ := h
    refine ⟨?_, ?_, ?_, halt⟩
    · show s.allocator.recycled.count p + s.caches.flatten.count p + t + _ = s.allocator.handed p
      omega
    · rw [hself, hone]
      show 1 = s.trackers p + _
      omega
    · omega
  · rw [count_singleton_of_ne hne] at h ⊢
    exact h.of_page rfl rfl (update_of_ne hne ..) rfl rfl

lemma give (h : Account s p t (r + pages.count p) (c + pages.count p)) :
    Account (s.give pages) p t r c := by
  obtain ⟨hpart, href, hhist, halt⟩ := h
  have hle := s.owned_le_one p
  have hrefs : s.counts p = s.trackers p + pages.count p + r := by omega
  by_cases hm : p ∈ pages
  · have hpos := count_pos_iff.mpr hm
    have hlog : (s.give pages).log p = .alloc :: s.log p := if_pos hm
    -- the page was not out before
    have hnew : s.out p = 0 := by omega
    have hout : (s.give pages).out p = 1 := by simp [out, hlog]
    refine ⟨hpart, hrefs, ?_, ?_⟩
    · rw [hout]
      show 1 + c = s.owned p
      omega
    · rw [hlog, isChain_cons]
      refine ⟨fun m hmark heq => ?_, halt⟩
      rw [out, hmark, ← heq, if_pos rfl] at hnew
      exact absurd hnew Nat.one_ne_zero
  · have hzero := count_eq_zero_of_not_mem hm
    have hlog : (s.give pages).log p = s.log p := if_neg hm
    have hout : (s.give pages).out p = s.out p := by rw [out, out, hlog]
    refine ⟨hpart, hrefs, ?_, hlog ▸ halt⟩
    rw [hout]
    show s.out p + c = s.owned p
    omega

/-- A reference that is not the last goes away. -/
lemma releaseOne (h : Account s p t (r + [ppn].count p) c) (hmany : 1 < s.counts ppn) :
    Account (s.setCount ppn (s.counts ppn - 1)) p t r c := by
  rcases eq_or_ne p ppn with rfl | hne
  · have hself : (s.setCount p (s.counts p - 1)).counts p = s.counts p - 1 :=
      update_self ..
    have howned : (s.setCount p (s.counts p - 1)).owned p = s.owned p := by
      rw [owned, owned, hself, if_neg (by omega), if_neg (by omega)]
    have hone : [p].count p = 1 := count_singleton_self
    obtain ⟨hpart, href, hhist, halt⟩ := h
    refine ⟨howned ▸ hpart, ?_, howned ▸ hhist, halt⟩
    rw [hself]
    show s.counts p - 1 = s.trackers p + r
    omega
  · rw [count_singleton_of_ne hne] at h
    exact h.of_page rfl rfl (update_of_ne hne ..) rfl rfl

/-- The last reference goes away: the page is in transit again. -/
lemma releaseLast (h : Account s p t (r + [ppn].count p) c) (hcr : c ≤ r)
    (hlast : s.counts ppn = 1) : Account (s.freed ppn) p (t + [ppn].count p) r c := by
  rcases eq_or_ne p ppn with rfl | hne
  · have hone : [p].count p = 1 := count_singleton_self
    obtain ⟨hpart, href, hhist, halt⟩ := h
    have howned : s.owned p = 1 := by rw [owned, hlast, if_neg Nat.one_ne_zero]
    -- no other call has a reference, so none has claimed the page
    have hout : s.out p = 1 := by omega
    have hhead : (s.log p).head? = some .alloc := by
      by_contra hno
      rw [out, if_neg hno] at hout
      exact absurd hout Nat.zero_ne_one
    have howned' : (s.freed p).owned p = 0 := by rw [owned, freed_counts_self, if_pos rfl]
    have hout' : (s.freed p).out p = 0 := by
      rw [out, freed_log_self, head?_cons, if_neg (by decide)]
    refine ⟨?_, ?_, ?_, ?_⟩
    · rw [howned']
      show s.allocator.recycled.count p + s.caches.flatten.count p + _ + 0 = s.allocator.handed p
      omega
    · rw [freed_counts_self]
      show 0 = s.trackers p + r
      omega
    · omega
    · rw [freed_log_self, isChain_cons]
      refine ⟨fun m hmark heq => ?_, halt⟩
      rw [hhead, Option.mem_some_iff] at hmark
      exact absurd (hmark.trans heq.symm) (by decide)
  · rw [count_singleton_of_ne hne] at h ⊢
    exact h.of_page rfl rfl (update_of_ne hne ..) rfl (update_of_ne hne ..)

lemma retain (h : Account s p t r c) (howned : 0 < s.counts ppn) :
    Account (s.retained ppn) p t r c := by
  rcases eq_or_ne p ppn with rfl | hne
  swap
  · exact h.of_page rfl rfl (update_of_ne hne ..) (update_of_ne hne ..) rfl
  obtain ⟨hpart, href, hhist, halt⟩ := h
  have hone : s.owned p = 1 := by rw [owned, if_neg howned.ne']
  have hone' : (s.retained p).owned p = 1 := by
    rw [owned, retained_counts_self, if_neg (Nat.succ_ne_zero _)]
  refine ⟨?_, ?_, ?_, halt⟩
  · rw [hone', ← hone]
    exact hpart
  · rw [retained_counts_self, retained_trackers_self]
    omega
  · rw [hone', ← hone]
    exact hhist

end Account

/-! ## One step of a call -/

/-- The panic that a run can reach. -/
def Safe (s : State) : Prop := s.panic = none ∨ s.panic = some .overflow

/-- The state as one call sees it: the other calls have `T` in transit, hold `R` and have
claimed `C`. -/
structure Sound (T R C : Nat → Nat) (s : State) (call : Call) : Prop where
  ordered : s.allocator.Ordered
  page : ∀ p, Account s p (T p + call.transit.count p) (R p + call.refs.count p)
    (C p + call.claimed.count p)
  loaded : call.Loaded
  safe : Safe s

namespace Sound

variable {T R C : Nat → Nat} {s s' : State} {call call' : Call} {cpu : Option Nat} {ppn : Nat}

/-- A step that only moves free pages. -/
lemma of_free (h : Sound T R C s call) (hordered : s'.allocator.Ordered)
    (hcounts : s'.counts = s.counts) (htrackers : s'.trackers = s.trackers)
    (hlog : s'.log = s.log) (hpanic : s'.panic = s.panic) (hrefs : call'.refs = call.refs)
    (hclaimed : call'.claimed = call.claimed) (hloaded : call'.Loaded)
    (hfree : ∀ p, s'.allocator.recycled.count p + s'.caches.flatten.count p +
      call'.transit.count p + s.allocator.handed p = s.allocator.recycled.count p +
      s.caches.flatten.count p + call.transit.count p + s'.allocator.handed p) :
    Sound T R C s' call' := by
  refine ⟨hordered, fun p => ?_, hloaded, ?_⟩
  · rw [hrefs, hclaimed]
    apply (h.page p).of_balance (congrFun hcounts p) (congrFun htrackers p) (congrFun hlog p)
    have hp := hfree p
    omega
  · rw [Safe, hpanic]
    exact h.safe

/-- A step that changes nothing but the place in the call. -/
lemma of_same (h : Sound T R C s call) (htransit : call'.transit = call.transit)
    (hrefs : call'.refs = call.refs) (hclaimed : call'.claimed = call.claimed)
    (hloaded : call'.Loaded) : Sound T R C s call' := by
  apply h.of_free h.ordered rfl rfl rfl rfl hrefs hclaimed hloaded
  intro p
  rw [htransit]

variable {pages : List Nat}

/-- Pages from the global allocator go to the transit of the call. -/
lemma take {a : StackFrameAllocator} (h : Sound T R C s call) (htake : s.allocator.Takes pages a)
    (htransit : call.transit = []) (htransit' : ∀ p, call'.transit.count p = pages.count p)
    (hrefs : call'.refs = call.refs) (hclaimed : call'.claimed = call.claimed)
    (hloaded : call'.Loaded) : Sound T R C { s with allocator := a } call' := by
  refine h.of_free htake.ordered rfl rfl rfl rfl hrefs hclaimed hloaded fun p => ?_
  have hp := htake.balance p
  rw [htransit, htransit', count_nil]
  show a.recycled.count p + s.caches.flatten.count p + _ + _ = _ + a.handed p
  omega

open Call

lemma allocPage (h : Sound T R C s .alloc) (hs : s.allocPage cpu = some (s', call')) :
    Sound T R C s' call' := by
  cases cpu with
  | some c =>
    simp only [State.allocPage] at hs
    split at hs
    · cases hs
    · cases hs
      exact h.of_same rfl rfl rfl trivial
    rename_i pages hc
    cases hs
    refine h.of_free h.ordered rfl rfl rfl rfl rfl rfl trivial fun p => ?_
    have hcount := count_flatten_set p pages hc
    simp only [transit, count_cons, count_nil] at hcount ⊢
    omega
  | none =>
    simp only [State.allocPage] at hs
    split at hs
    next ppn a ha =>
      cases hs
      exact h.take (StackFrameAllocator.takes_alloc h.ordered ha) rfl (fun _ => rfl) rfl rfl trivial
    · cases hs
      exact h.of_same rfl rfl rfl trivial

lemma handedOut (h : Sound T R C s call) {p : Nat} (hp : p ∈ call.transit) :
    s.allocator.HandedOut p :=
  ((h.page p).free_of_transit (Nat.add_pos_right _ (count_pos_iff.mpr hp))).2

lemma deallocPage (h : Sound T R C s (.dealloc ppn))
    (hs : s.deallocPage ppn cpu = some (s', call')) : Sound T R C s' call' := by
  cases cpu with
  | some c =>
    simp only [State.deallocPage] at hs
    split at hs
    · cases hs
    rename_i pages hc
    split at hs
    -- the upper half of a full cache leaves it
    · cases hs
      refine h.of_free h.ordered rfl rfl rfl rfl rfl rfl trivial fun p => ?_
      have hcount := count_flatten_set p ((ppn :: pages).drop FRAME_CACHE_BATCH) hc
      have hsplit := congrArg (List.count p) (take_append_drop FRAME_CACHE_BATCH (ppn :: pages))
      simp only [count_append, count_cons] at hsplit
      simp only [transit, count_cons, count_nil]
      omega
    · cases hs
      refine h.of_free h.ordered rfl rfl rfl rfl rfl rfl trivial fun p => ?_
      have hcount := count_flatten_set p (ppn :: pages) hc
      simp only [transit, count_cons, count_nil] at hcount ⊢
      omega
  | none =>
    have hout := h.handedOut (p := ppn) mem_cons_self
    have hrecycle : s.allocator.recycle ppn =
        some { s.allocator with recycled := ppn :: s.allocator.recycled } :=
      if_neg (not_or.mpr ⟨not_lt.mpr hout.1, not_le.mpr hout.2⟩)
    simp only [State.deallocPage, hrecycle] at hs
    cases hs
    refine h.of_free ⟨h.ordered.1, h.ordered.2⟩ rfl rfl rfl rfl rfl rfl trivial fun p => ?_
    simp only [transit, count_cons, count_nil, StackFrameAllocator.handed]
    omega

lemma drain (h : Sound T R C s (.drain pages))
    (hs : s.callStep cpu (.drain pages) = some (s', call')) : Sound T R C s' call' := by
  have hout : ∀ p ∈ pages, s.allocator.HandedOut p := fun p hp => h.handedOut hp
  rw [State.callStep, StackFrameAllocator.recycleAll_of_handedOut hout] at hs
  cases hs
  refine h.of_free ⟨h.ordered.1, h.ordered.2⟩ rfl rfl rfl rfl rfl rfl trivial fun p => ?_
  simp only [transit, count_append, count_reverse, count_nil, StackFrameAllocator.handed]
  omega

section

variable (h : Sound T R C s call) (hp : ppn ∈ call.transit)
include h hp

/-- **Claims do not panic**: the page was in transit. -/
theorem claimFree_eq :
    s.claimFree ppn = .ok (s.setCount ppn 1) := by
  have hpage := (h.page ppn).free_of_transit (Nat.add_pos_right _ (count_pos_iff.mpr hp))
  have hslot : s.HasSlot ppn := ⟨hpage.2.1, hpage.2.2.trans_le h.ordered.le_stop⟩
  rw [State.claimFree, if_neg (not_not.mpr hslot), if_pos hpage.1]

lemma claim
    (htransit : ∀ p, call.transit.count p = call'.transit.count p + [ppn].count p)
    (hrefs : ∀ p, call'.refs.count p = call.refs.count p + [ppn].count p)
    (hclaimed : ∀ p, call'.claimed.count p = call.claimed.count p + [ppn].count p)
    (hloaded : call'.Loaded) : Sound T R C (s.setCount ppn 1) call' := by
  have hzero := ((h.page ppn).free_of_transit (Nat.add_pos_right _ (count_pos_iff.mpr hp))).1
  refine ⟨h.ordered, fun p => ?_, hloaded, h.safe⟩
  rw [hrefs, hclaimed, ← Nat.add_assoc, ← Nat.add_assoc]
  apply Account.claim _ hzero
  rw [Nat.add_assoc, ← htransit]
  exact h.page p

end

lemma give (h : Sound T R C s call) (htransit : call'.transit = call.transit)
    (hrefs : ∀ p, call.refs.count p = call'.refs.count p + pages.count p)
    (hclaimed : ∀ p, call.claimed.count p = call'.claimed.count p + pages.count p)
    (hloaded : call'.Loaded) : Sound T R C (s.give pages) call' := by
  refine ⟨h.ordered, fun p => ?_, hloaded, h.safe⟩
  apply Account.give
  rw [htransit, Nat.add_assoc, Nat.add_assoc, ← hrefs, ← hclaimed]
  exact h.page p

lemma release (h : Sound T R C s (.release ppn))
    (hs : s.callStep cpu (.release ppn) = some (s', call')) : Sound T R C s' call' := by
  have hpage := (h.page ppn).owned_of_refs
    (Nat.add_pos_right _ (count_pos_iff.mpr mem_cons_self))
  have hslot : s.HasSlot ppn := ⟨hpage.2.1, hpage.2.2.trans_le h.ordered.le_stop⟩
  rw [State.callStep, if_neg (not_not.mpr hslot), if_neg hpage.1.ne'] at hs
  cases hs
  exact h.of_same rfl rfl rfl hpage.1

lemma releaseCas {count : Nat} (h : Sound T R C s (.releaseCas ppn count)) (hCR : ∀ p, C p ≤ R p)
    (hs : s.callStep cpu (.releaseCas ppn count) = some (s', call')) : Sound T R C s' call' := by
  rw [State.callStep] at hs
  split at hs
  next hcount =>
    subst hcount
    split at hs
    next hlast =>
      cases hs
      exact ⟨h.ordered, fun p => (h.page p).releaseLast (hCR p) hlast, trivial, h.safe⟩
    next hne =>
      cases hs
      have hmany : 1 < s.counts ppn := lt_of_le_of_ne h.loaded (Ne.symm hne)
      exact ⟨h.ordered, fun p => (h.page p).releaseOne hmany, trivial, h.safe⟩
  · cases hs
    exact h.of_same rfl rfl rfl trivial

lemma retain (h : Sound T R C s (.retain ppn))
    (hs : s.callStep cpu (.retain ppn) = some (s', call')) : Sound T R C s' call' := by
  rw [State.callStep] at hs
  split at hs
  · cases hs
    exact h.of_same rfl rfl rfl trivial
  split at hs
  · cases hs
    exact h.of_same rfl rfl rfl trivial
  rename_i hne
  split at hs
  · cases hs
    exact ⟨h.ordered, fun p => (h.page p).of_page rfl rfl rfl rfl rfl, trivial, .inr rfl⟩
  · cases hs
    exact h.of_same rfl rfl rfl (Nat.pos_of_ne_zero hne)

/-- **One step of a call** keeps the account of every page. -/
theorem callStep (h : Sound T R C s call) (hCR : ∀ p, C p ≤ R p)
    (hs : s.callStep cpu call = some (s', call')) : Sound T R C s' call' := by
  cases call with
  | alloc => exact h.allocPage hs
  | refill c =>
    rw [State.callStep] at hs
    split at hs
    next a ha =>
      cases hs
      obtain ⟨new, hnew, htake⟩ := StackFrameAllocator.takes_refill h.ordered ha
      obtain rfl : new = [] := by simpa using hnew.symm
      exact h.take htake rfl (fun _ => rfl) rfl rfl trivial
    next ppn rest a ha =>
      cases hs
      obtain ⟨new, hnew, htake⟩ := StackFrameAllocator.takes_refill h.ordered ha
      obtain rfl : new = ppn :: rest := by simpa using hnew.symm
      exact h.take htake rfl (fun _ => rfl) rfl rfl trivial
  | claim ppn =>
    have hp : ppn ∈ (Call.claim ppn).transit := mem_cons_self
    rw [State.callStep, h.claimFree_eq hp] at hs
    cases hs
    have hclaim : Sound T R C (s.setCount ppn 1) (.claimRun [] [ppn]) :=
      h.claim hp (fun p => (Nat.zero_add _).symm) (fun p => (Nat.zero_add _).symm)
        (fun p => (Nat.zero_add _).symm) trivial
    exact hclaim.give rfl (fun p => (Nat.zero_add _).symm) (fun p => (Nat.zero_add _).symm) trivial
  | claimRefill c ppn rest =>
    have hp : ppn ∈ (claimRefill c ppn rest).transit := mem_cons_self
    rw [State.callStep, h.claimFree_eq hp] at hs
    have hclaim : Sound T R C (s.setCount ppn 1) (.publish c ppn rest) :=
      h.claim hp (fun p => by simp [transit, count_cons])
        (fun p => (Nat.zero_add _).symm) (fun p => (Nat.zero_add _).symm) trivial
    simp only at hs
    split at hs
    next hrest =>
      cases hs
      exact hclaim.give (by rw [hrest]; rfl) (fun p => (Nat.zero_add _).symm)
        (fun p => (Nat.zero_add _).symm) trivial
    · cases hs
      exact hclaim
  | publish c ppn rest =>
    rw [State.callStep] at hs
    split at hs
    · cases hs
    rename_i pages hc
    cases hs
    have hmove : Sound T R C { s with caches := s.caches.set c (rest ++ pages) }
        (.publish c ppn []) := by
      refine h.of_free h.ordered rfl rfl rfl rfl rfl rfl trivial fun p => ?_
      have hcount := count_flatten_set p (rest ++ pages) hc
      simp only [transit, count_append, count_nil] at hcount ⊢
      omega
    exact hmove.give rfl (fun p => (Nat.zero_add _).symm) (fun p => (Nat.zero_add _).symm) trivial
  | claimRun todo done =>
    cases todo with
    | nil =>
      cases hs
      exact h.give rfl (fun p => (Nat.zero_add _).symm) (fun p => (Nat.zero_add _).symm) trivial
    | cons ppn todo =>
      have hp : ppn ∈ (claimRun (ppn :: todo) done).transit := mem_cons_self
      rw [State.callStep, h.claimFree_eq hp] at hs
      cases hs
      apply h.claim hp <;> simp [transit, refs, claimed, Call.Loaded, count_cons]
  | release ppn => exact h.release hs
  | releaseCas ppn count => exact h.releaseCas hCR hs
  | dealloc ppn => exact h.deallocPage hs
  | drain pages => exact h.drain hs
  | retain ppn => exact h.retain hs
  | retainCas ppn count =>
    rw [State.callStep] at hs
    split at hs
    next hcount =>
      cases hs
      exact ⟨h.ordered, fun p => (h.page p).retain (hcount ▸ h.loaded), trivial, h.safe⟩
    · cases hs
      exact h.of_same rfl rfl rfl trivial
  | returned => cases hs

end Sound

/-! ## Whole runs -/

namespace State

def transit (s : State) (p : Nat) : Nat := (s.calls.flatMap Call.transit).count p

def refs (s : State) (p : Nat) : Nat := (s.calls.flatMap Call.refs).count p

def claimed (s : State) (p : Nat) : Nat := (s.calls.flatMap Call.claimed).count p

end State

structure Inv (s : State) : Prop where
  ordered : s.allocator.Ordered
  page : ∀ p, Account s p (s.transit p) (s.refs p) (s.claimed p)
  loaded : ∀ call ∈ s.calls, call.Loaded
  safe : Safe s

lemma count_flatMap_claimed_le (calls : List Call) (p : Nat) :
    (calls.flatMap Call.claimed).count p ≤ (calls.flatMap Call.refs).count p := by
  induction calls with
  | nil => exact le_refl _
  | cons call calls ih =>
    simp only [flatMap_cons, count_append]
    exact Nat.add_le_add (call.count_claimed_le p) ih

namespace Inv

variable {s s' : State} {call call' : Call} {i : Nat}

lemma addCall (h : Inv s) (hcall : Sound s.transit s.refs s.claimed s' call)
    (hcalls : s'.calls = s.calls) : Inv (s'.addCall call) := by
  refine ⟨hcall.ordered, fun p => ?_, fun c hc => ?_, hcall.safe⟩
  · simp only [State.transit, State.refs, State.claimed, State.addCall, hcalls,
      count_flatMap_append]
    exact (hcall.page p).of_page rfl rfl rfl rfl rfl
  · rw [State.addCall, hcalls] at hc
    rcases mem_append.mp hc with hc | hc
    · exact h.loaded c hc
    · exact mem_singleton.mp hc ▸ hcall.loaded

/-- The state as a running call sees it. -/
lemma focus (h : Inv s) (hi : s.calls[i]? = some call) :
    ∃ T R C, Sound T R C s call ∧ (∀ p, C p ≤ R p) ∧
      ∀ s' call', Sound T R C s' call' → Inv { s' with calls := s.calls.set i call' } := by
  have hrest (f : Call → List Nat) (p : Nat) (call' : Call) :
      ((s.calls.set i call').flatMap f).count p =
        (s.calls.flatMap f).count p - (f call).count p + (f call').count p := by
    have hset := count_flatMap_set f p call' hi
    have hle := count_le_flatMap f p hi
    omega
  have hself (f : Call → List Nat) (p : Nat) :
      (s.calls.flatMap f).count p - (f call).count p + (f call).count p =
        (s.calls.flatMap f).count p :=
    Nat.sub_add_cancel (count_le_flatMap f p hi)
  refine ⟨fun p => s.transit p - call.transit.count p, fun p => s.refs p - call.refs.count p,
    fun p => s.claimed p - call.claimed.count p, ⟨h.ordered, fun p => ?_, ?_, h.safe⟩, ?_, ?_⟩
  · simp only [State.transit, State.refs, State.claimed, hself]
    exact h.page p
  · exact h.loaded call (mem_of_getElem? hi)
  · -- the claims of the other calls are among their references
    intro p
    have hothers := count_flatMap_claimed_le (s.calls.set i .returned) p
    rwa [hrest, hrest] at hothers
  · intro s' call' hcall
    refine ⟨hcall.ordered, fun p => ?_, fun c hc => ?_, hcall.safe⟩
    · simp only [State.transit, State.refs, State.claimed, hrest]
      exact (hcall.page p).of_page rfl rfl rfl rfl rfl
    · rcases mem_or_eq_of_mem_set hc with hc | rfl
      · exact h.loaded c hc
      · exact hcall.loaded

lemma boot (start stop cpus : Nat) (hle : start ≤ stop) : Inv (.boot start stop cpus) := by
  refine ⟨⟨le_refl _, hle⟩, fun p => ?_, nofun, .inl rfl⟩
  have hnone : StackFrameAllocator.handed (.init start stop) p = 0 :=
    if_neg fun hp => not_lt.mpr hp.1 hp.2
  refine ⟨?_, rfl, rfl, .nil⟩
  show List.count p [] + (List.replicate cpus ([] : List Nat)).flatten.count p + 0 + 0 = _
  rw [State.boot, hnone]
  simp

/-- Contiguous allocations take their pages in either order. -/
lemma frameAllocMore {pages : Nat} {ppns : List Nat} {a : StackFrameAllocator} (h : Inv s)
    (ha : s.allocator.allocMore pages = some (ppns, a)) (ascending : Bool) :
    Inv ({ s with allocator := a }.addCall
      (.claimRun (if ascending then ppns.reverse else ppns) [])) := by
  refine h.addCall ?_ rfl
  have hidle : Sound s.transit s.refs s.claimed s .returned :=
    { h with loaded := trivial }
  refine hidle.take (StackFrameAllocator.takes_allocMore h.ordered ha) rfl (fun p => ?_) rfl rfl
    trivial
  cases ascending
  · rfl
  · exact count_reverse

/-- A dropped tracker becomes the reference of the call that releases it. -/
lemma drop {ppn : Nat} (h : Inv s) (hlive : s.trackers ppn ≠ 0) :
    Inv ({ s with trackers := update s.trackers ppn (s.trackers ppn - 1) }.addCall
      (.release ppn)) := by
  refine h.addCall ⟨h.ordered, fun p => ?_, trivial, h.safe⟩ rfl
  obtain ⟨hpart, href, hhist, halt⟩ := h.page p
  refine ⟨hpart, ?_, hhist, halt⟩
  show s.counts p = update s.trackers ppn (s.trackers ppn - 1) p +
    (s.refs p + [ppn].count p)
  rcases eq_or_ne p ppn with rfl | hne
  · rw [update_self, count_singleton_self]
    omega
  · rw [update_of_ne hne, count_singleton_of_ne hne]
    exact href

theorem event {e : Event} (h : Inv s) (hs : s.event e = some s') : Inv s' := by
  obtain ⟨-, hs⟩ := Option.ite_none_right_eq_some.mp hs
  have hidle : Sound s.transit s.refs s.claimed s .returned :=
    { h with loaded := trivial }
  cases e with
  | frameAlloc | fromRetained =>
    cases hs
    exact h.addCall (hidle.of_same rfl rfl rfl trivial) rfl
  | frameAllocMore pages ascending =>
    simp only [State.running] at hs
    split at hs
    · cases hs
      exact h
    next ppns a ha =>
      cases hs
      exact h.frameAllocMore ha ascending
  | drop ppn =>
    obtain ⟨hlive, rfl⟩ := of_refusal hs
    exact h.drop hlive
  | step i cpu =>
    simp only [State.running] at hs
    split at hs
    · cases hs
    next call hi =>
      obtain ⟨⟨s₁, call'⟩, hstep, rfl⟩ := Option.map_eq_some_iff.mp hs
      obtain ⟨T, R, C, hsound, hCR, hback⟩ := h.focus hi
      exact hback s₁ call' (hsound.callStep hCR hstep)
  | spurious i =>
    simp only [State.running] at hs
    split at hs
    next ppn count hi =>
      cases hs
      obtain ⟨T, R, C, hsound, -, hback⟩ := h.focus hi
      exact hback s _ (hsound.of_same rfl rfl rfl trivial)
    next ppn count hi =>
      cases hs
      obtain ⟨T, R, C, hsound, -, hback⟩ := h.focus hi
      exact hback s _ (hsound.of_same rfl rfl rfl trivial)
    · cases hs

lemma reachable (h : system.Reachable System.anyStep s) : Inv s := by
  apply h.invariant
  · rintro s ⟨start, stop, cpus, hle, rfl⟩
    exact boot start stop cpus hle
  · exact fun s e s' hinv _ hs => hinv.event hs

end Inv

/-! ## Places -/

inductive Place where
  | recycled
  | cached (cpu : Nat)
  | inTransit (call : Nat)
  | owned

/-- How many copies of the page the place holds. -/
def State.copies (s : State) (p : Nat) : Place → Nat
  | .recycled => s.allocator.recycled.count p
  | .cached cpu => copiesAt id s.caches p cpu
  | .inTransit i => copiesAt Call.transit s.calls p i
  | .owned => if s.counts p > 0 then 1 else 0

def State.InOnePlace (s : State) (p : Nat) : Prop :=
  ∃ place, s.copies p place = 1 ∧ ∀ other, other ≠ place → s.copies p other = 0

namespace State

variable {s : State} {p : Nat}

def total (s : State) (p : Nat) : Nat :=
  s.allocator.recycled.count p + s.caches.flatten.count p + s.transit p + s.owned p

lemma copies_owned_eq (s : State) (p : Nat) : s.copies p .owned = s.owned p := by
  simp only [copies, owned]
  split_ifs <;> omega

/-- Two different places share the copies. -/
lemma copies_add_le_total {x y : Place} (hne : x ≠ y) :
    s.copies p x + s.copies p y ≤ s.total p := by
  have hcached : ∀ cpu, s.copies p (.cached cpu) ≤ s.caches.flatten.count p := by
    simpa [copies] using copiesAt_le id s.caches p
  have htransit : ∀ i, s.copies p (.inTransit i) ≤ s.transit p := copiesAt_le Call.transit s.calls p
  have howned := s.copies_owned_eq p
  have hrecycled : s.copies p .recycled = s.allocator.recycled.count p := rfl
  unfold total
  cases x with
  | recycled =>
    cases y with
    | recycled => exact absurd rfl hne
    | cached d => have := hcached d; omega
    | inTransit j => have := htransit j; omega
    | owned => omega
  | cached c =>
    have hc := hcached c
    cases y with
    | recycled | owned => omega
    | cached d =>
      have hcd : s.copies p (.cached c) + s.copies p (.cached d) ≤ s.caches.flatten.count p := by
        simpa [copies] using copiesAt_add_le id s.caches p fun h : c = d => hne (h ▸ rfl)
      omega
    | inTransit j => have := htransit j; omega
  | inTransit i =>
    have hi := htransit i
    cases y with
    | recycled | owned => omega
    | cached d => have := hcached d; omega
    | inTransit j =>
      have hij : s.copies p (.inTransit i) + s.copies p (.inTransit j) ≤ s.transit p :=
        copiesAt_add_le Call.transit s.calls p fun h => hne (h ▸ rfl)
      omega
  | owned =>
    cases y with
    | recycled => omega
    | cached d => have := hcached d; omega
    | inTransit j => have := htransit j; omega
    | owned => exact absurd rfl hne

lemma exists_copies_pos (h : 0 < s.total p) : ∃ place, 0 < s.copies p place := by
  by_cases hr : 0 < s.allocator.recycled.count p
  · exact ⟨.recycled, hr⟩
  by_cases hc : 0 < s.caches.flatten.count p
  · obtain ⟨cpu, hpos⟩ := exists_copiesAt_pos id s.caches p (by simpa using hc)
    exact ⟨.cached cpu, hpos⟩
  by_cases ht : 0 < s.transit p
  · obtain ⟨i, hpos⟩ := exists_copiesAt_pos Call.transit s.calls p ht
    exact ⟨.inTransit i, hpos⟩
  · refine ⟨.owned, ?_⟩
    rw [copies_owned_eq]
    unfold total at h
    omega

lemma inOnePlace_of_total (h : s.total p = 1) : s.InOnePlace p := by
  obtain ⟨place, hpos⟩ := exists_copies_pos (h ▸ Nat.one_pos)
  have hothers (other : Place) (hne : other ≠ place) := copies_add_le_total (s := s) (p := p) hne
  refine ⟨place, ?_, fun other hne => ?_⟩
  · -- two different places exist, so the copies of this one are bounded by the total
    have hle : s.copies p place ≤ 1 := by
      rcases eq_or_ne place .recycled with rfl | hne
      · exact h ▸ Nat.le_of_add_left_le (hothers .owned nofun)
      · exact h ▸ Nat.le_of_add_left_le (hothers .recycled hne.symm)
    omega
  · have := hothers other hne
    omega

end State

/-- **Frame partition**: in every run each page below the cursor is in exactly one place, its
allocations and its frees alternate, and the only panic is the overflow of a count. -/
theorem frame_partition (s : State) (h : system.Reachable System.anyStep s) :
    (∀ p, s.allocator.HandedOut p → s.InOnePlace p) ∧ (∀ p, (s.log p).IsChain (· ≠ ·)) ∧
      (s.panic = none ∨ s.panic = some .overflow) := by
  have hinv := Inv.reachable h
  refine ⟨fun p hp => ?_, fun p => (hinv.page p).alternates, hinv.safe⟩
  apply State.inOnePlace_of_total
  have hpos := StackFrameAllocator.handed_pos.mpr hp
  have hle := s.allocator.handed_le_one p
  have hpart := (hinv.page p).partition
  unfold State.total
  omega

/-- Two CPUs allocate from four pages, a page is retained and dropped twice, and allocated
again. -/
def twoCpuTrace : List Event :=
  [.frameAlloc, .step 0 (some 0), .step 0 (some 0), .frameAlloc, .step 1 (some 1), .step 0 none,
    .step 0 none, .step 1 (some 1), .fromRetained 13, .step 2 none, .spurious 2, .step 2 none,
    .step 2 none, .drop 13, .step 3 none, .step 3 none, .drop 13, .step 4 none, .step 4 none,
    .step 4 (some 1), .frameAlloc, .step 5 (some 1), .step 5 none]

theorem frame_partition_twoCpus :
    ∃ s, system.runWhile System.anyStep (.boot 10 14 2) twoCpuTrace = some s ∧
      s.log 13 = [.alloc, .free, .alloc] ∧ s.InOnePlace 10 ∧ s.InOnePlace 13 := by
  have hrun : (system.runWhile System.anyStep (.boot 10 14 2) twoCpuTrace).map
      (fun s => (s.log 13, s.allocator)) =
      some ([.alloc, .free, .alloc], ⟨10, 14, 14, []⟩) := by decide
  obtain ⟨s, hreach, hs, hvalue⟩ := System.exists_reachable hrun ⟨10, 14, 2, by decide, rfl⟩
  obtain ⟨hlog, hallocator⟩ := Prod.mk.inj hvalue
  have hpart := (frame_partition s hreach).1
  have hout (p : Nat) (hp : 10 ≤ p ∧ p < 14) : s.allocator.HandedOut p := by
    rw [hallocator]
    exact hp
  exact ⟨s, hs, hlog, hpart 10 (hout 10 (by decide)), hpart 13 (hout 13 (by decide))⟩

end Whusp.Mm.FrameAllocator
