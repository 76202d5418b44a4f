import Mathlib.Data.List.TakeWhile
import Whusp.Fs.Vfs.PageCache
import Whusp.Lib.Overlay
import Whusp.Lib.Transition

/-!
# Content epochs of the page cache

Any number of threads read a file through its page cache, load pages, fault on mappings of the
file and change its content under mutation guards.  A step is one section under the lock of the
cache or one call of the backend, so that a load may straddle any number of mutations.

`ByteFile.byte` is 0 past the size, so that "the bytes of the page" includes the zeros that fill
the tail of its last page.

A fault that finds no cached page publishes what it reads itself.  It reads no more than its
mapping covers, and records the size that the file had when it was mapped; `StepOk` names the
faults for which this is the page that the file has now.  The other faults leave a page in the
current generation with bytes that the backend never delivered.
-/

namespace Whusp.Fs.Vfs.Epoch

open Function List Option

open Whusp.Lib (Byte ByteFile System)

def VFS_READ_CACHE_READAHEAD_PAGES : Nat := 6

/-- What a mapping of the file recorded when it was made. -/
structure Mapping where
  shared : Bool
  firstPage : Nat
  len : Nat
  fileSize : Nat

namespace Mapping

/-- The page of the file behind page `n` of the mapping. -/
def pageIndex (m : Mapping) (n : Nat) : Nat := m.firstPage + n

/-- How much a fault on page `n` of the mapping reads. -/
def readLen (m : Mapping) (n : Nat) : Nat :=
  min (min (m.len - n * PAGE_SIZE) PAGE_SIZE)
    (min (m.fileSize - m.pageIndex n * PAGE_SIZE) PAGE_SIZE)

end Mapping

/-- Where a thread is in a cached read or in a fault. -/
inductive Phase where
  | idle
  /-- `read_regular_cached_at` between two pages; the size is known after the first miss. -/
  | reading (generation : Nat) (fileSize : Option Nat)
  | reserved (generation fileSize pageIndex pages : Nat)
  | loaded (generation fileSize pageIndex pages : Nat) (bytes : List Byte) (stamp : Option Nat)
  | faulting (m : Mapping) (n : Nat) (key : PageCacheKey) (observed : Nat)
  | faultLoaded (m : Mapping) (n : Nat) (key : PageCacheKey) (observed : Nat) (bytes : List Byte)
      (stamp : Option Nat)
  | mapped (key : PageCacheKey)

/-- A page that was found in the cache, or published by a fault, with the content of the file at
that time. -/
inductive Hit where
  | read (generation position : Nat) (bytes : List Byte) (loadedIn : Option Nat) (file : ByteFile)
  | mmap (generation position : Nat) (data : Nat → Byte) (loadedIn : Option Nat) (file : ByteFile)

structure State where
  file : ByteFile
  cache : PageCache
  /-- The owners of the live mutation guards; a nested guard is listed once more. -/
  guards : List Nat
  threads : Nat → Phase
  mappings : List Mapping
  hits : List Hit
  panicked : Bool

inductive Action where
  | beginMutation (i : Nat)
  | endMutation (i : Nat)
  /-- The owner of a guard changes the content. -/
  | write (i : Nat) (file : ByteFile)
  /-- The generation at the start of a cached read. -/
  | capture (i : Nat)
  | stat (i : Nat)
  | readHit (i pageIndex pageOffset len : Nat)
  | reserve (i pageIndex : Nat)
  | load (i : Nat)
  /-- The last section of a load; frames may be missing, pages may be evicted. -/
  | publish (i pageOffset : Nat) (frames : Nat → Bool) (evict : PageCacheKey → Bool)
      (room : PageCacheKey → Bool)
  | finishRead (i : Nat)
  | mmap (shared : Bool) (firstPage len : Nat)
  | fault (i mapping n : Nat)
  | mmapHit (i : Nat)
  | faultLoad (i : Nat)
  | faultPublish (i : Nat) (evict : PageCacheKey → Bool)
  | unmap (i : Nat) (evict : PageCacheKey → Bool)

/-- The pages that a load publishes: complete ones, in order, for which there is a frame. -/
def pagesToCache (generation fileSize pageIndex pages : Nat) (bytes : List Byte)
    (frames : Nat → Bool) (stamp : Option Nat) : List (PageCacheKey × PageCachePage) :=
  (((List.range pages).takeWhile fun delta =>
      let batchOffset := delta * PAGE_SIZE
      let pageValidLen := min PAGE_SIZE (fileSize - (pageIndex * PAGE_SIZE + batchOffset))
      decide (batchOffset < bytes.length) &&
        decide (min (bytes.length - batchOffset) pageValidLen = pageValidLen)).filter frames).map
    fun delta => (⟨generation, pageIndex + delta⟩,
      .new (fun i => bytes.getD (delta * PAGE_SIZE + i) 0) fileSize stamp)

def insertPages (c : PageCache) (pages : List (PageCacheKey × PageCachePage))
    (evict room : PageCacheKey → Bool) : PageCache :=
  pages.foldl (fun c e => c.insertReadCachePage e.1 e.2 evict (room e.1)) c

namespace State

def setThread (s : State) (i : Nat) (phase : Phase) : State :=
  { s with threads := update s.threads i phase }

/-- The end of a load: its pages are released; the assertion may fail. -/
def release (s : State) (i generation pageIndex pages : Nat) (next : Phase) : State :=
  match s.cache.releaseReadCacheLoad ⟨generation, pageIndex⟩ pages i with
  | none => { s with panicked := true }
  | some cache => { s with cache := cache }.setThread i next

def publish (s : State) (i generation fileSize pageIndex pages : Nat) (bytes : List Byte)
    (stamp : Option Nat) (pageOffset : Nat) (frames : Nat → Bool)
    (evict room : PageCacheKey → Bool) : State :=
  if bytes.length ≤ pageOffset then
    s.release i generation pageIndex pages (.reading generation (some fileSize))
  else if s.cache.currentStableGeneration = some generation then
    { s with
      cache := insertPages s.cache
        (pagesToCache generation fileSize pageIndex pages bytes frames stamp) evict room }.release
      i generation pageIndex pages (.reading generation (some fileSize))
  else s.release i generation pageIndex pages .idle

/-- What a fault got out of the cache: the page counts as a hit of a clean mapping. -/
def resolved (s : State) (i : Nat) (m : Mapping) (key : PageCacheKey)
    (r : PageCachePage × PageCache) : State :=
  { s with
    cache := r.2
    hits := if m.shared then s.hits
      else .mmap key.generation key.fileOffset r.1.data r.1.loadedIn s.file :: s.hits }.setThread
    i (.mapped key)

/-- The page that a fault publishes: what it read, zeros after it, and the size that the mapping
recorded. -/
def faultPage (m : Mapping) (bytes : List Byte) (stamp : Option Nat) : PageCachePage :=
  .new (fun i => bytes.getD i 0) m.fileSize stamp

end State

def step (s : State) : Action → Option State
  | .beginMutation i => some { s with cache := s.cache.beginMutation, guards := i :: s.guards }
  | .endMutation i =>
    if i ∈ s.guards then
      some { s with cache := s.cache.endMutation, guards := s.guards.erase i }
    else none
  | .write i file => if i ∈ s.guards then some { s with file := file } else none
  | .capture i =>
    match s.threads i, s.cache.currentStableGeneration with
    | .idle, some generation => some (s.setThread i (.reading generation none))
    | _, _ => none
  | .stat i =>
    match s.threads i with
    | .reading generation none => some (s.setThread i (.reading generation (some s.file.size)))
    | _ => none
  | .readHit i pageIndex pageOffset len =>
    match s.threads i with
    | .reading generation _ =>
      (s.cache.copyReadCachePageData ⟨generation, pageIndex⟩ pageOffset len).map fun bytes =>
        { s with
          hits := .read generation (pageIndex * PAGE_SIZE + pageOffset) bytes
            ((s.cache.pages ⟨generation, pageIndex⟩).bind (·.loadedIn)) s.file :: s.hits }
    | _ => none
  | .reserve i pageIndex =>
    match s.threads i with
    | .reading generation (some fileSize) =>
      if pageIndex * PAGE_SIZE < fileSize then
        let maxPages := min ((fileSize - pageIndex * PAGE_SIZE + PAGE_SIZE - 1) / PAGE_SIZE)
          VFS_READ_CACHE_READAHEAD_PAGES
        match s.cache.reserveReadCacheLoad ⟨generation, pageIndex⟩ maxPages i with
        | (.owner pages, cache) =>
          some ({ s with cache := cache }.setThread i
            (.reserved generation fileSize pageIndex pages))
        | (.staleGeneration, _) => some (s.setThread i .idle)
        | (.cached, _) | (.wait _, _) => some s
      else none
    | _ => none
  | .load i =>
    match s.threads i with
    | .reserved generation fileSize pageIndex pages =>
      let readLimit := min (pages * PAGE_SIZE) (fileSize - pageIndex * PAGE_SIZE)
      some (s.setThread i (.loaded generation fileSize pageIndex pages
        (s.file.read (pageIndex * PAGE_SIZE) readLimit) s.cache.currentStableGeneration))
    | _ => none
  | .publish i pageOffset frames evict room =>
    match s.threads i with
    | .loaded generation fileSize pageIndex pages bytes stamp =>
      some (s.publish i generation fileSize pageIndex pages bytes stamp pageOffset
        frames evict room)
    | _ => none
  | .finishRead i =>
    match s.threads i with
    | .reading _ _ => some (s.setThread i .idle)
    | _ => none
  | .mmap shared firstPage len =>
    some { s with mappings := ⟨shared, firstPage, len, s.file.size⟩ :: s.mappings }
  | .fault i mapping n =>
    match s.threads i, s.mappings[mapping]? with
    | .idle, some m =>
      if n * PAGE_SIZE < m.len ∧ m.pageIndex n * PAGE_SIZE < m.fileSize then
        (s.cache.mmapKeyFromFileOffset (m.pageIndex n) m.shared).map fun r =>
          s.setThread i (.faulting m n r.1 r.2)
      else none
    | _, _ => none
  | .mmapHit i =>
    match s.threads i with
    | .faulting m _ key observed =>
      (s.cache.getAndIncRefForMmap key m.shared observed).map (s.resolved i m key)
    | _ => none
  | .faultLoad i =>
    match s.threads i with
    | .faulting m n key observed =>
      some (s.setThread i (.faultLoaded m n key observed
        (s.file.read (m.pageIndex n * PAGE_SIZE) (m.readLen n)) s.cache.currentStableGeneration))
    | _ => none
  | .faultPublish i evict =>
    match s.threads i with
    | .faultLoaded m _ key observed bytes stamp =>
      match s.cache.insertLoadedPageAndIncRefForMmap key (State.faultPage m bytes stamp) m.shared
          observed evict with
      | none => some (s.setThread i .idle)
      | some r => some (s.resolved i m key r)
    | _ => none
  | .unmap i evict =>
    match s.threads i with
    | .mapped key => some ({ s with cache := s.cache.decRef key evict }.setThread i .idle)
    | _ => none

/-- Files of any content, nothing cached, no thread at work. -/
def epochSystem : System State Action where
  init s := s.cache = .new ∧ s.guards = [] ∧ (∀ i, s.threads i = .idle) ∧ s.mappings = [] ∧
    s.hits = [] ∧ s.panicked = false
  step := step

/-- A private fault reads the whole page that the file has now: the mapping covers it, and the
size it recorded is still right for this page. -/
def FaultReadsPage (file : ByteFile) : Phase → Prop
  | .faulting m n _ _ =>
    m.shared = false →
      min PAGE_SIZE (m.fileSize - m.pageIndex n * PAGE_SIZE) =
        min PAGE_SIZE (file.size - m.pageIndex n * PAGE_SIZE) ∧
      min PAGE_SIZE (file.size - m.pageIndex n * PAGE_SIZE) ≤ m.len - n * PAGE_SIZE
  | _ => True

def StepOk (s : State) : Action → Prop
  | .faultLoad i => FaultReadsPage s.file (s.threads i)
  | _ => True

instance (file : ByteFile) : DecidablePred (FaultReadsPage file) := fun phase => by
  cases phase <;> (unfold FaultReadsPage; infer_instance)

instance : DecidableRel StepOk := fun s a => by
  cases a <;> (unfold StepOk; infer_instance)

/-! ## What is claimed of a state -/

/-- The bytes of a hit are those of the file in the epoch, and were loaded in it. -/
def Hit.Ok : Hit → Prop
  | .read generation position bytes loadedIn file =>
    (bytes ≠ [] → loadedIn = some generation) ∧
      ∀ i, i < bytes.length → position + i < file.size ∧ bytes.getD i 0 = file.byte (position + i)
  | .mmap generation position data loadedIn file =>
    loadedIn = some generation ∧ ∀ i, i < PAGE_SIZE → data i = file.byte (position + i)

structure Safe (s : State) : Prop where
  odd_iff : s.cache.generation % 2 = 1 ↔ s.guards ≠ []
  hits : ∀ h ∈ s.hits, h.Ok
  running : s.panicked = false

/-! ## The invariant -/

def StableAt (s : State) (g : Nat) : Prop := s.guards = [] ∧ s.cache.generation = g

/-- The page is the one that the file has, and no byte past the end of the file is valid. -/
structure PageOk (file : ByteFile) (key : PageCacheKey) (page : PageCachePage) : Prop where
  data : ∀ i, i < PAGE_SIZE → page.data i = file.byte (key.fileOffset + i)
  size : min (page.fileSizeAtLoad - key.fileOffset) PAGE_SIZE ≤ file.size - key.fileOffset

open PageCacheKey

/-- Thread `i` owns the load of `pages` pages from `pageIndex` on. -/
def Owns (c : PageCache) (i generation pageIndex pages : Nat) : Prop :=
  ∀ delta, delta < pages →
    c.loading (forward ⟨generation, pageIndex⟩ delta) = some i

/-- What a thread knows: facts about a generation hold as long as it is the present one. -/
def ThreadOk (s : State) (i : Nat) : Phase → Prop
  | .idle => True
  | .mapped _ => True
  | .reading g fileSize =>
    g ≤ s.cache.generation ∧ (StableAt s g → ∀ n, fileSize = some n → n = s.file.size)
  | .reserved g fileSize pageIndex pages =>
    g ≤ s.cache.generation ∧ (StableAt s g → fileSize = s.file.size) ∧
      Owns s.cache i g pageIndex pages
  | .loaded g fileSize pageIndex pages bytes stamp =>
    g ≤ s.cache.generation ∧
      (StableAt s g → fileSize = s.file.size ∧ stamp = some g ∧
        bytes = s.file.read (pageIndex * PAGE_SIZE)
          (min (pages * PAGE_SIZE) (s.file.size - pageIndex * PAGE_SIZE))) ∧
      Owns s.cache i g pageIndex pages
  | .faulting m n key observed =>
    observed ≤ s.cache.generation ∧
      key = ⟨if m.shared then SHARED_MMAP_GENERATION else observed, m.pageIndex n⟩
  | .faultLoaded m n key observed bytes stamp =>
    observed ≤ s.cache.generation ∧
      key = ⟨if m.shared then SHARED_MMAP_GENERATION else observed, m.pageIndex n⟩ ∧
      (m.shared = false → StableAt s observed →
        stamp = some observed ∧ PageOk s.file key (State.faultPage m bytes stamp))

/-- What is known of a cached page that is not one of the shared mappings'. -/
def CachedOk (s : State) (key : PageCacheKey) (page : PageCachePage) : Prop :=
  key.generation ≠ SHARED_MMAP_GENERATION →
    key.generation ≤ s.cache.generation ∧ page.loadedIn = some key.generation ∧
      (StableAt s key.generation → PageOk s.file key page)

structure Inv (s : State) : Prop where
  parity : s.cache.generation % 2 = if s.guards = [] then 0 else 1
  count : s.cache.activeMutations = s.guards.length
  pages : ∀ key page, s.cache.pages key = some page → CachedOk s key page
  threads : ∀ i, ThreadOk s i (s.threads i)
  hits : ∀ h ∈ s.hits, h.Ok
  running : s.panicked = false

/-- What every step respects: the generation grows, and a generation that is still the present
one still has its content. -/
structure Evolves (s t : State) : Prop where
  generation_le : s.cache.generation ≤ t.cache.generation
  stable : ∀ g, g ≤ s.cache.generation → StableAt t g → StableAt s g ∧ t.file = s.file

section Evolution

variable {s t : State} {i : Nat}

lemma Evolves.of_same (hfile : t.file = s.file) (hguards : t.guards = s.guards)
    (hgen : t.cache.generation = s.cache.generation) : Evolves s t where
  generation_le := hgen.ge
  stable _ _ h := ⟨⟨hguards ▸ h.1, hgen ▸ h.2⟩, hfile⟩

/-- While a guard is alive no generation is the present one. -/
lemma Evolves.of_guarded (hgen : s.cache.generation ≤ t.cache.generation)
    (hguards : t.guards ≠ []) : Evolves s t where
  generation_le := hgen
  stable _ _ h := absurd h.1 hguards

variable {key : PageCacheKey} {page : PageCachePage} {g : Nat} {phase : Phase}

lemma PageOk.of_refCount {file : ByteFile} (h : PageOk file key page) (n : Nat) :
    PageOk file key { page with refCount := n } :=
  ⟨h.data, h.size⟩

lemma CachedOk.mono (h : CachedOk s key page) (he : Evolves s t) : CachedOk t key page := by
  intro hkey
  obtain ⟨hle, hloaded, hok⟩ := h hkey
  refine ⟨hle.trans he.generation_le, hloaded, fun hstable => ?_⟩
  obtain ⟨hs, hfile⟩ := he.stable _ hle hstable
  rw [hfile]
  exact hok hs

lemma CachedOk.of_refCount (h : CachedOk s key page) (n : Nat) :
    CachedOk s key { page with refCount := n } := by
  intro hkey
  obtain ⟨hle, hloaded, hok⟩ := h hkey
  exact ⟨hle, hloaded, fun hstable => (hok hstable).of_refCount n⟩

lemma Owns.mono {pageIndex pages : Nat} (h : Owns s.cache i g pageIndex pages)
    (hown : ∀ key, s.cache.loading key = some i → t.cache.loading key = some i) :
    Owns t.cache i g pageIndex pages :=
  fun delta hdelta => hown _ (h delta hdelta)

/-- A thread that keeps its loads keeps what it knows. -/
lemma ThreadOk.mono (h : ThreadOk s i phase) (he : Evolves s t)
    (hown : ∀ key, s.cache.loading key = some i → t.cache.loading key = some i) :
    ThreadOk t i phase := by
  cases phase with
  | idle | mapped => trivial
  | reading g fileSize =>
    obtain ⟨hle, hsize⟩ := h
    refine ⟨hle.trans he.generation_le, fun hstable => ?_⟩
    obtain ⟨hs, hfile⟩ := he.stable g hle hstable
    rw [hfile]
    exact hsize hs
  | reserved g fileSize pageIndex pages =>
    obtain ⟨hle, hsize, howns⟩ := h
    refine ⟨hle.trans he.generation_le, fun hstable => ?_, howns.mono hown⟩
    obtain ⟨hs, hfile⟩ := he.stable g hle hstable
    rw [hfile]
    exact hsize hs
  | loaded g fileSize pageIndex pages bytes stamp =>
    obtain ⟨hle, hbytes, howns⟩ := h
    refine ⟨hle.trans he.generation_le, fun hstable => ?_, howns.mono hown⟩
    obtain ⟨hs, hfile⟩ := he.stable g hle hstable
    rw [hfile]
    exact hbytes hs
  | faulting m n key observed => exact ⟨h.1.trans he.generation_le, h.2⟩
  | faultLoaded m n key observed bytes stamp =>
    obtain ⟨hle, hkey, hpage⟩ := h
    refine ⟨hle.trans he.generation_le, hkey, fun hprivate hstable => ?_⟩
    obtain ⟨hs, hfile⟩ := he.stable observed hle hstable
    rw [hfile]
    exact hpage hprivate hs

section

variable (h : Inv s)
include h

/-- The cache's view of stability is the ghost list of guards. -/
lemma Inv.stableAt : s.cache.currentStableGeneration = some g ↔ StableAt s g := by
  rw [PageCache.currentStableGeneration_eq_some, h.count, length_eq_zero_iff]
  rfl

lemma Inv.stableAt_of_current (hcurrent : s.cache.isCurrentKey key = true) :
    StableAt s key.generation := by
  have := PageCache.isCurrentKey_iff.mp hcurrent
  rwa [h.count, length_eq_zero_iff] at this

/-- The present generation is even, so it is not the one of the shared keys. -/
lemma Inv.ne_shared (hg : StableAt s g) : g ≠ SHARED_MMAP_GENERATION := by
  rintro rfl
  have hparity := h.parity
  rw [if_pos hg.1, hg.2] at hparity
  revert hparity
  decide

/-- **One step of one thread** that leaves content and generation as they are. -/
theorem Inv.of_thread (hfile : t.file = s.file) (hguards : t.guards = s.guards)
    (hgen : t.cache.generation = s.cache.generation)
    (hactive : t.cache.activeMutations = s.cache.activeMutations)
    (hthreads : t.threads = update s.threads i phase)
    (hpages : ∀ key page, t.cache.pages key = some page → CachedOk t key page)
    (hown : ∀ j key, j ≠ i → s.cache.loading key = some j → t.cache.loading key = some j)
    (hphase : ThreadOk t i phase) (hhits : ∀ x ∈ t.hits, x.Ok) (hrunning : t.panicked = false) :
    Inv t where
  parity := by
    rw [hgen, hguards]
    exact h.parity
  count := by
    rw [hactive, hguards]
    exact h.count
  pages := hpages
  threads j := by
    rw [hthreads]
    rcases eq_or_ne j i with rfl | hne
    · rw [update_self]
      exact hphase
    · rw [update_of_ne hne]
      exact (h.threads j).mono (.of_same hfile hguards hgen) (hown j · hne)
  hits := hhits
  running := hrunning

/-- A step in which the threads take no part. -/
lemma Inv.evolve (he : Evolves s t) (hthreads : t.threads = s.threads)
    (hloading : t.cache.loading = s.cache.loading)
    (hpages : ∀ key page, t.cache.pages key = some page → s.cache.pages key = some page)
    (hparity : t.cache.generation % 2 = if t.guards = [] then 0 else 1)
    (hcount : t.cache.activeMutations = t.guards.length) (hhits : ∀ x ∈ t.hits, x.Ok)
    (hrunning : t.panicked = false) : Inv t where
  parity := hparity
  count := hcount
  pages key page hpage := (h.pages key page (hpages key page hpage)).mono he
  threads j := hthreads ▸ (h.threads j).mono he fun _ => hloading ▸ id
  hits := hhits
  running := hrunning

/-- A step that touches nothing but the phase of a thread. -/
lemma Inv.setThread (hphase : ThreadOk s i phase) : Inv (s.setThread i phase) := by
  have he : Evolves s (s.setThread i phase) := .of_same rfl rfl rfl
  refine h.of_thread (i := i) rfl rfl rfl rfl rfl ?_ ?_ ?_ ?_ ?_
  · exact fun key page hpage => (h.pages key page hpage).mono he
  · exact fun j key _ hj => hj
  · exact hphase.mono he fun key hkey => hkey
  · exact h.hits
  · exact h.running

end

end Evolution

/-! ## Mutations -/

section Mutations

variable {s t : State} {i : Nat}

lemma Inv.beginMutation (h : Inv s) (i : Nat) :
    Inv { s with cache := s.cache.beginMutation, guards := i :: s.guards } := by
  have hcount := h.count
  have hparity := h.parity
  unfold PageCache.beginMutation
  split
  · -- the first guard: the generation becomes odd
    rename_i hzero
    have hnil : s.guards = [] := length_eq_zero_iff.mp (hcount ▸ hzero)
    rw [if_pos hnil] at hparity
    have he : Evolves s { s with
        cache := { s.cache with
          generation := s.cache.generation + 1
          activeMutations := 1
          pages := s.cache.dropEvictable }
        guards := i :: s.guards } :=
      .of_guarded (Nat.le_succ _) (cons_ne_nil _ _)
    refine h.evolve he rfl rfl (fun _ _ => PageCache.dropEvictable_pages) ?_ (by simp [hnil])
      h.hits h.running
    show (s.cache.generation + 1) % 2 = 1
    omega
  next hpos =>
    have hne : s.guards ≠ [] := fun hnil => hpos (by rw [hcount, hnil]; rfl)
    rw [if_neg hne] at hparity
    have he : Evolves s { s with
        cache := { s.cache with activeMutations := s.cache.activeMutations + 1 }
        guards := i :: s.guards } :=
      .of_guarded le_rfl (cons_ne_nil _ _)
    refine h.evolve he rfl rfl (fun _ _ => id) ?_ ?_ h.hits h.running
    · rwa [if_neg (cons_ne_nil _ _)]
    · rw [hcount, length_cons]

lemma Inv.endMutation (h : Inv s) (hi : i ∈ s.guards) :
    Inv { s with cache := s.cache.endMutation, guards := s.guards.erase i } := by
  have hcount := h.count
  have hparity := h.parity
  have hlen := length_erase_of_mem hi
  have hpos := length_pos_of_mem hi
  rw [if_neg (ne_nil_of_mem hi)] at hparity
  unfold PageCache.endMutation
  split
  · -- the last guard: a new stable generation, which nobody has seen
    rename_i hone
    have hnil : s.guards.erase i = [] := by
      apply length_eq_zero_iff.mp
      rw [hlen, ← hcount, hone]
    have he : Evolves s { s with
        cache := { s.cache with generation := s.cache.generation + 1, activeMutations := 0 }
        guards := s.guards.erase i } := by
      refine ⟨Nat.le_succ _, fun g hg hstable => ?_⟩
      have : s.cache.generation + 1 = g := hstable.2
      omega
    refine h.evolve he rfl rfl (fun _ _ => id) ?_ (by simp [hnil]) h.hits h.running
    rw [if_pos hnil]
    show (s.cache.generation + 1) % 2 = 0
    omega
  · have hne : s.guards.erase i ≠ [] := by
      intro hnil
      rw [hnil, length_nil] at hlen
      omega
    have he : Evolves s { s with
        cache := { s.cache with activeMutations := s.cache.activeMutations - 1 }
        guards := s.guards.erase i } := .of_guarded le_rfl hne
    refine h.evolve he rfl rfl (fun _ _ => id) ?_ ?_ h.hits h.running
    · rwa [if_neg hne]
    · rw [hlen, hcount]

lemma Inv.write (h : Inv s) (hi : i ∈ s.guards) (file : ByteFile) :
    Inv { s with file := file } := by
  have he : Evolves s { s with file := file } := .of_guarded le_rfl (ne_nil_of_mem hi)
  exact h.evolve he rfl rfl (fun _ _ => id) h.parity h.count h.hits h.running

end Mutations

/-! ## Cached reads -/

section Reads

variable {s : State} {i : Nat}
variable {bytes : List Byte} {g pageIndex pages : Nat} {stamp : Option Nat}

/-- **A hit of `read`** returns bytes of the file in the present epoch. -/
theorem Inv.readHit (h : Inv s) {pageOffset len : Nat}
    (hhit : s.cache.copyReadCachePageData ⟨g, pageIndex⟩ pageOffset len = some bytes) :
    Inv { s with
      hits := .read g (pageIndex * PAGE_SIZE + pageOffset) bytes
        ((s.cache.pages ⟨g, pageIndex⟩).bind (·.loadedIn)) s.file :: s.hits } := by
  obtain ⟨page, hpage, hcurrent, -, hlen, hbytes⟩ :=
    PageCache.copyReadCachePageData_eq_some hhit
  have hstable := h.stableAt_of_current hcurrent
  obtain ⟨-, hloaded, hok⟩ := h.pages _ _ hpage (h.ne_shared hstable)
  obtain ⟨hdata, hsize⟩ := hok hstable
  have he : Evolves s { s with
      hits := .read g (pageIndex * PAGE_SIZE + pageOffset) bytes
        ((s.cache.pages ⟨g, pageIndex⟩).bind (·.loadedIn)) s.file :: s.hits } :=
    .of_same rfl rfl rfl
  refine h.evolve he rfl rfl (fun _ _ => id) h.parity h.count ?_ h.running
  intro x hx
  rcases mem_cons.mp hx with rfl | hx
  · refine ⟨fun _ => ?_, fun j hj => ?_⟩
    · rw [hpage]
      exact hloaded
    · simp only [fileOffset] at hlen hsize hdata
      rw [hbytes j hj, hdata _ (by omega), add_assoc]
      exact ⟨by omega, rfl⟩
  · exact h.hits x hx

/-- The pages of a load that a single call of the backend filled are the file's. -/
lemma pageOk_of_load {file : ByteFile}
    {frames : Nat → Bool}
    (hbytes : bytes = file.read (pageIndex * PAGE_SIZE)
      (min (pages * PAGE_SIZE) (file.size - pageIndex * PAGE_SIZE)))
    {e : PageCacheKey × PageCachePage}
    (he : e ∈ pagesToCache g file.size pageIndex pages bytes frames stamp) :
    e.1.generation = g ∧ e.2.loadedIn = stamp ∧ PageOk file e.1 e.2 := by
  obtain ⟨delta, hmem, rfl⟩ := mem_map.mp he
  have htake := (mem_filter.mp hmem).1
  have hcomplete := mem_takeWhile_imp htake
  simp only [Bool.and_eq_true, decide_eq_true_eq] at hcomplete
  have hlen := file.length_read (pageIndex * PAGE_SIZE)
    (min (pages * PAGE_SIZE) (file.size - pageIndex * PAGE_SIZE))
  rw [← hbytes] at hlen
  have hoffset : (pageIndex + delta) * PAGE_SIZE = pageIndex * PAGE_SIZE + delta * PAGE_SIZE :=
    add_mul _ _ _
  refine ⟨rfl, rfl, ⟨fun j hj => ?_, ?_⟩⟩
  · simp only [PageCachePage.new, fileOffset]
    rw [hoffset]
    by_cases hin : delta * PAGE_SIZE + j < bytes.length
    · rw [hbytes, file.getD_read _ (by omega), add_assoc]
    · -- past what was read the page is past the end of the file
      rw [getD_eq_default _ _ (not_lt.mp hin), file.tail _ (by omega)]
  · simp only [PageCachePage.new, fileOffset]
    omega

lemma insertPages_frame (c : PageCache) (l : List (PageCacheKey × PageCachePage))
    (evict room : PageCacheKey → Bool) : (insertPages c l evict room).loading = c.loading ∧
      (insertPages c l evict room).generation = c.generation ∧
      (insertPages c l evict room).activeMutations = c.activeMutations := by
  induction l generalizing c with
  | nil => exact ⟨rfl, rfl, rfl⟩
  | cons e l ih =>
    obtain ⟨h1, h2, h3⟩ := ih (c.insertReadCachePage e.1 e.2 evict (room e.1))
    obtain ⟨g1, g2, g3⟩ := PageCache.insertReadCachePage_frame e.2 evict (room e.1)
    exact ⟨h1.trans g1, h2.trans g2, h3.trans g3⟩

lemma insertPages_pages {c : PageCache} {l : List (PageCacheKey × PageCachePage)}
    {evict room : PageCacheKey → Bool} {key : PageCacheKey} {page : PageCachePage}
    (h : (insertPages c l evict room).pages key = some page) :
    c.pages key = some page ∨ (key, page) ∈ l := by
  induction l generalizing c with
  | nil => exact .inl h
  | cons e l ih =>
    rcases ih h with hold | hnew
    · rcases PageCache.insertReadCachePage_pages hold with hold | ⟨rfl, -, rfl⟩
      · exact .inl hold
      · simp
    · exact .inr (mem_cons_of_mem _ hnew)

/-- The last section of a load, after pages may have been inserted: the assertion holds, and the
loads of other threads stay. -/
lemma Inv.release (h : Inv s) {cache : PageCache} {next : Phase}
    (hloading : cache.loading = s.cache.loading) (hgen : cache.generation = s.cache.generation)
    (hactive : cache.activeMutations = s.cache.activeMutations)
    (hpages : ∀ key page, cache.pages key = some page → CachedOk s key page)
    (howns : Owns s.cache i g pageIndex pages)
    (hnext : ∀ t : State, t.file = s.file → t.guards = s.guards →
      t.cache.generation = s.cache.generation → ThreadOk t i next) :
    Inv ({ s with cache := cache }.release i g pageIndex pages next) := by
  unfold State.release
  rw [PageCache.releaseReadCacheLoad_of_owner (by rw [hloading]; exact howns)]
  refine h.of_thread (i := i) rfl rfl hgen hactive rfl ?_ ?_ ?_ ?_ ?_
  · intro key page hpage
    exact (hpages key page hpage).mono (.of_same rfl rfl hgen)
  · intro j key hne hj
    -- a page of another thread's load is not one of this load's
    show (if PageCache.inLoad ⟨g, pageIndex⟩ pages key then none else cache.loading key) = some j
    rw [if_neg, hloading]
    · exact hj
    intro hin
    obtain ⟨delta, hdelta, rfl⟩ := PageCache.inLoad_iff.mp hin
    rw [howns delta hdelta] at hj
    exact hne (some.inj hj).symm
  · exact hnext _ rfl rfl hgen
  · exact h.hits
  · exact h.running

lemma Inv.publish (h : Inv s) {fileSize : Nat}
    (hthread : s.threads i = .loaded g fileSize pageIndex pages bytes stamp) (pageOffset : Nat)
    (frames : Nat → Bool) (evict room : PageCacheKey → Bool) :
    Inv (s.publish i g fileSize pageIndex pages bytes stamp pageOffset frames evict room) := by
  have hphase := h.threads i
  rw [hthread] at hphase
  obtain ⟨hle, hload, howns⟩ := hphase
  have hreading : ∀ t : State, t.file = s.file → t.guards = s.guards →
      t.cache.generation = s.cache.generation →
      ThreadOk t i (.reading g (some fileSize)) := by
    intro t hfile hguards hgen
    refine ⟨hgen ▸ hle, fun hstable n hn => ?_⟩
    rw [hfile, ← some.inj hn]
    exact (hload ⟨hguards ▸ hstable.1, hgen ▸ hstable.2⟩).1
  unfold State.publish
  split
  · exact h.release rfl rfl rfl h.pages howns hreading
  split
  swap
  · exact h.release rfl rfl rfl h.pages howns fun _ _ _ _ => trivial
  -- the generation has not moved since the read began, so the load is of this epoch
  rename_i hstable
  have hs := h.stableAt.mp hstable
  obtain ⟨rfl, rfl, hbytes⟩ := hload hs
  obtain ⟨hl, hgen, hactive⟩ := insertPages_frame s.cache
    (pagesToCache g s.file.size pageIndex pages bytes frames (some g)) evict room
  refine h.release hl hgen hactive ?_ howns hreading
  intro key page hpage
  rcases insertPages_pages hpage with hold | hnew
  · exact h.pages key page hold
  · obtain ⟨hkey, hloaded, hok⟩ := pageOk_of_load hbytes hnew
    intro _
    refine ⟨hkey ▸ hle, by rw [hloaded, hkey], fun _ => hok⟩

end Reads

/-! ## Faults -/

section Faults

variable {s : State} {i : Nat}
variable {key : PageCacheKey} {m : Mapping} {observed n : Nat} {r : PageCachePage × PageCache}
  {stamp : Option Nat}

/-- A page that a clean mapping gets is the file's page in the present epoch. -/
lemma Inv.resolved (h : Inv s) (husable : s.cache.isUsableMmapKey key m.shared observed = true)
    (hpage : CachedOk s key r.1)
    (hloading : r.2.loading = s.cache.loading) (hgen : r.2.generation = s.cache.generation)
    (hactive : r.2.activeMutations = s.cache.activeMutations)
    (hpages : ∀ k q, r.2.pages k = some q →
      (∃ n, k = key ∧ q = { r.1 with refCount := n }) ∨ s.cache.pages k = some q) :
    Inv (s.resolved i m key r) := by
  have he : Evolves s (s.resolved i m key r) := .of_same rfl rfl hgen
  refine h.of_thread (i := i) rfl rfl hgen hactive rfl ?_ ?_ ?_ ?_ ?_
  · intro k q hq
    rcases hpages k q hq with ⟨n, rfl, rfl⟩ | hold
    · exact (hpage.of_refCount n).mono he
    · exact (h.pages k q hold).mono he
  · intro j k _ hj
    show r.2.loading k = some j
    rw [hloading]
    exact hj
  · trivial
  · intro x hx
    simp only [State.resolved, State.setThread] at hx
    split at hx
    · exact h.hits x hx
    rename_i hprivate
    rcases mem_cons.mp hx with rfl | hx
    swap
    · exact h.hits x hx
    rw [Bool.not_eq_true] at hprivate
    rw [hprivate] at husable
    obtain ⟨hzero, hcur, -⟩ := PageCache.isUsableMmapKey_private husable
    have hstable : StableAt s key.generation :=
      ⟨length_eq_zero_iff.mp (h.count ▸ hzero), hcur⟩
    obtain ⟨-, hloaded, hok⟩ := hpage (h.ne_shared hstable)
    exact ⟨hloaded, (hok hstable).data⟩
  · exact h.running

/-- A fault that meets the condition reads the page that the file has. -/
lemma pageOk_of_fault {file : ByteFile} {g : Nat}
    (hsize : min PAGE_SIZE (m.fileSize - m.pageIndex n * PAGE_SIZE) =
      min PAGE_SIZE (file.size - m.pageIndex n * PAGE_SIZE))
    (hlen : min PAGE_SIZE (file.size - m.pageIndex n * PAGE_SIZE) ≤ m.len - n * PAGE_SIZE) :
    PageOk file ⟨g, m.pageIndex n⟩
      (State.faultPage m (file.read (m.pageIndex n * PAGE_SIZE) (m.readLen n)) stamp) := by
  have hread := file.length_read (m.pageIndex n * PAGE_SIZE) (m.readLen n)
  have hreadLen : m.readLen n = min PAGE_SIZE (file.size - m.pageIndex n * PAGE_SIZE) := by
    unfold Mapping.readLen
    omega
  refine ⟨fun j hj => ?_, ?_⟩
  · simp only [State.faultPage, PageCachePage.new, fileOffset]
    by_cases hin : j < min (m.readLen n) (file.size - m.pageIndex n * PAGE_SIZE)
    · rw [file.getD_read _ hin]
    · rw [getD_eq_default _ _ (by omega), file.tail _ (by omega)]
  · simp only [State.faultPage, PageCachePage.new, fileOffset]
    omega

lemma Inv.faultLoad (h : Inv s) (hthread : s.threads i = .faulting m n key observed)
    (hok : StepOk s (.faultLoad i)) : Inv (s.setThread i (.faultLoaded m n key observed
      (s.file.read (m.pageIndex n * PAGE_SIZE) (m.readLen n))
      s.cache.currentStableGeneration)) := by
  have hphase := h.threads i
  rw [hthread] at hphase
  obtain ⟨hle, rfl⟩ := hphase
  simp only [StepOk, FaultReadsPage, hthread] at hok
  apply h.setThread
  refine ⟨hle, rfl, fun hprivate hstable => ⟨h.stableAt.mpr hstable, ?_⟩⟩
  obtain ⟨hsize, hlen⟩ := hok hprivate
  exact pageOk_of_fault hsize hlen

lemma Inv.faultPublish (h : Inv s)
    {bytes : List Byte} {evict : PageCacheKey → Bool}
    (hthread : s.threads i = .faultLoaded m n key observed bytes stamp)
    (hinsert : s.cache.insertLoadedPageAndIncRefForMmap key (State.faultPage m bytes stamp) m.shared
      observed evict = some r) :
    Inv (s.resolved i m key r) := by
  have hphase := h.threads i
  rw [hthread] at hphase
  obtain ⟨-, hkey, hload⟩ := hphase
  obtain ⟨page, cache⟩ := r
  obtain ⟨husable, hpage, hloading, hgen, hactive, hpages⟩ := PageCache.insertLoaded_spec hinsert
  refine h.resolved husable ?_ hloading hgen hactive hpages
  rcases hpage with hold | rfl
  · exact h.pages key page hold
  intro hshared
  cases hm : m.shared with
  | true =>
    rw [hm] at husable
    exact absurd (PageCache.isUsableMmapKey_shared husable) hshared
  | false =>
    rw [hm] at husable
    obtain ⟨hzero, hcur, hobs⟩ := PageCache.isUsableMmapKey_private husable
    have hstable : StableAt s observed :=
      ⟨length_eq_zero_iff.mp (h.count ▸ hzero), hcur.trans hobs⟩
    obtain ⟨rfl, hok⟩ := hload hm hstable
    exact ⟨hcur.ge, by rw [hobs]; rfl, fun _ => hok⟩

end Faults

/-! ## Runs -/

section Runs

variable {s s' : State}

lemma inv_init (h : epochSystem.init s) : Inv s := by
  obtain ⟨hcache, hguards, hthreads, -, hhits, hrunning⟩ := h
  constructor
  · rw [hcache, if_pos hguards]
    rfl
  · rw [hcache, hguards]
    rfl
  · intro key page hpage
    rw [hcache] at hpage
    cases hpage
  · intro i
    rw [hthreads]
    trivial
  · intro x hx
    rw [hhits] at hx
    exact absurd hx not_mem_nil
  · exact hrunning

variable {fileSize g i pageIndex pages : Nat}

section

variable (h : Inv s)
include h

/-- A reservation keeps the loads of the other threads, for it takes free keys only. -/
lemma Inv.reserve {maxPages : Nat} {cache : PageCache}
    (hthread : s.threads i = .reading g (some fileSize))
    (hreserve : s.cache.reserveReadCacheLoad ⟨g, pageIndex⟩ maxPages i = (.owner pages, cache)) :
    Inv ({ s with cache := cache }.setThread i (.reserved g fileSize pageIndex pages)) := by
  have hphase := h.threads i
  rw [hthread] at hphase
  obtain ⟨hle, hsize⟩ := hphase
  obtain ⟨-, hfree, rfl⟩ := PageCache.reserveReadCacheLoad_owner hreserve
  refine h.of_thread (i := i) rfl rfl rfl rfl rfl ?_ ?_ ?_ h.hits h.running
  · exact fun key page hpage => (h.pages key page hpage).mono (.of_same rfl rfl rfl)
  · intro j key _ hj
    show (if PageCache.inLoad ⟨g, pageIndex⟩ pages key then some i else s.cache.loading key)
      = some j
    rw [if_neg]
    · exact hj
    intro hin
    obtain ⟨delta, hdelta, rfl⟩ := PageCache.inLoad_iff.mp hin
    simp [hfree delta hdelta] at hj
  · refine ⟨hle, fun hstable => hsize hstable fileSize rfl, fun delta hdelta => ?_⟩
    exact if_pos (PageCache.inLoad_iff.mpr ⟨delta, hdelta, rfl⟩)

lemma Inv.load (hthread : s.threads i = .reserved g fileSize pageIndex pages) :
    Inv (s.setThread i (.loaded g fileSize pageIndex pages (s.file.read (pageIndex * PAGE_SIZE)
        (min (pages * PAGE_SIZE) (fileSize - pageIndex * PAGE_SIZE)))
      s.cache.currentStableGeneration)) := by
  have hphase := h.threads i
  rw [hthread] at hphase
  obtain ⟨hle, hsize, howns⟩ := hphase
  apply h.setThread
  refine ⟨hle, fun hstable => ?_, howns⟩
  rw [hsize hstable]
  exact ⟨rfl, h.stableAt.mpr hstable, rfl⟩

lemma Inv.unmap (i : Nat) (key : PageCacheKey) (evict : PageCacheKey → Bool) :
    Inv ({ s with cache := s.cache.decRef key evict }.setThread i .idle) := by
  obtain ⟨hloading, hgen, hactive⟩ := s.cache.decRef_frame key evict
  refine h.of_thread (i := i) rfl rfl hgen hactive rfl ?_ ?_ trivial h.hits h.running
  · intro k q hq
    obtain ⟨page, n, hpage, rfl⟩ := PageCache.decRef_pages hq
    exact ((h.pages k page hpage).of_refCount n).mono (.of_same rfl rfl hgen)
  · intro j k _ hj
    show (s.cache.decRef key evict).loading k = some j
    rw [hloading]
    exact hj

theorem Inv.step {a : Action} (hok : StepOk s a) (hstep : step s a = some s') :
    Inv s' := by
  cases a with
  | beginMutation i =>
    cases hstep
    exact h.beginMutation i
  | endMutation i =>
    obtain ⟨hi, rfl⟩ := of_guard hstep
    exact h.endMutation hi
  | write i file =>
    obtain ⟨hi, rfl⟩ := of_guard hstep
    exact h.write hi file
  | capture i =>
    simp only [Epoch.step] at hstep
    split at hstep
    next _ hstable =>
      cases hstep
      have hs := h.stableAt.mp hstable
      exact h.setThread ⟨hs.2.ge, fun _ n hn => nomatch hn⟩
    · cases hstep
  | stat i =>
    simp only [Epoch.step] at hstep
    split at hstep
    next hthread =>
      cases hstep
      have hphase := h.threads i
      rw [hthread] at hphase
      exact h.setThread ⟨hphase.1, fun _ n hn => (some.inj hn).symm⟩
    · cases hstep
  | readHit i pageIndex pageOffset len =>
    simp only [Epoch.step] at hstep
    split at hstep
    · obtain ⟨bytes, hhit, rfl⟩ := map_eq_some_iff.mp hstep
      exact h.readHit hhit
    · cases hstep
  | reserve i pageIndex =>
    simp only [Epoch.step] at hstep
    split at hstep
    swap
    · cases hstep
    rename_i hthread
    obtain ⟨-, hstep⟩ := ite_none_right_eq_some.mp hstep
    split at hstep
    next hreserve =>
      cases hstep
      exact h.reserve hthread hreserve
    · cases hstep
      exact h.setThread trivial
    · cases hstep
      exact h
    · cases hstep
      exact h
  | load i =>
    simp only [Epoch.step] at hstep
    split at hstep
    next hthread =>
      cases hstep
      exact h.load hthread
    · cases hstep
  | publish i pageOffset frames evict room =>
    simp only [Epoch.step] at hstep
    split at hstep
    next hthread =>
      cases hstep
      exact h.publish hthread pageOffset frames evict room
    · cases hstep
  | finishRead i =>
    simp only [Epoch.step] at hstep
    split at hstep
    · cases hstep
      exact h.setThread trivial
    · cases hstep
  | mmap shared firstPage len =>
    cases hstep
    have he : Evolves s { s with mappings :=
        ⟨shared, firstPage, len, s.file.size⟩ :: s.mappings } :=
      .of_same rfl rfl rfl
    exact h.evolve he rfl rfl (fun _ _ => id) h.parity h.count h.hits h.running
  | fault i mapping n =>
    simp only [Epoch.step] at hstep
    split at hstep
    · obtain ⟨-, hstep⟩ := ite_none_right_eq_some.mp hstep
      obtain ⟨r, hkey, rfl⟩ := map_eq_some_iff.mp hstep
      obtain ⟨generation, hstable, rfl⟩ := map_eq_some_iff.mp hkey
      exact h.setThread ⟨(h.stableAt.mp hstable).2.ge, rfl⟩
    · cases hstep
  | mmapHit i =>
    simp only [Epoch.step] at hstep
    split at hstep
    · obtain ⟨⟨page, cache⟩, hget, rfl⟩ := map_eq_some_iff.mp hstep
      obtain ⟨husable, hpage, hloading, hgen, hactive, hpages⟩ := PageCache.getAndIncRef_spec hget
      exact h.resolved husable (h.pages _ _ hpage) hloading hgen hactive hpages
    · cases hstep
  | faultLoad i =>
    simp only [Epoch.step] at hstep
    split at hstep
    next hthread =>
      cases hstep
      exact h.faultLoad hthread hok
    · cases hstep
  | faultPublish i evict =>
    simp only [Epoch.step] at hstep
    split at hstep
    swap
    · cases hstep
    rename_i hthread
    split at hstep
    · cases hstep
      exact h.setThread trivial
    next hinsert =>
      cases hstep
      exact h.faultPublish hthread hinsert
  | unmap i evict =>
    simp only [Epoch.step] at hstep
    split at hstep
    · cases hstep
      exact h.unmap i _ evict
    · cases hstep

lemma Inv.safe : Safe s := by
  refine { h with odd_iff := ?_ }
  rw [h.parity]
  simp

end

/-- **Epochs over whole runs**: in every state reached by steps that meet `StepOk` the generation
is odd exactly while a guard is alive, every hit returned bytes that the file has in the epoch
of the hit and that were loaded in it, and no load lost its reservation. -/
theorem page_cache_epochs (h : epochSystem.Reachable StepOk s) : Safe s := by
  have hinv : Inv s := by
    apply h.invariant
    · exact fun s hs => inv_init hs
    · exact fun s a s' hs hok hstep => hs.step hok hstep
  exact hinv.safe

end Runs

/-! ## Runs on fixed files -/

/-- A file, nothing cached, no thread at work. -/
def boot (file : ByteFile) : State :=
  ⟨file, .new, [], fun _ => .idle, [], [], false⟩

/-- A miss, a load and a hit of one page. -/
def loadTrace : List Action :=
  [.capture 0, .stat 0, .reserve 0 0, .load 0,
    .publish 0 0 (fun _ => true) (fun _ => false) (fun _ => true), .readHit 0 0 0 1]

/-- What a hit returned to `read`, where, and the size that the file had. -/
def Hit.summary : Hit → Nat × List Byte × Nat
  | .read _ position bytes _ file => (position, bytes, file.size)
  | .mmap _ position _ _ file => (position, [], file.size)

lemma boot_init (file : ByteFile) : epochSystem.init (boot file) :=
  ⟨rfl, rfl, fun _ => rfl, rfl, rfl, rfl⟩

/-- A file of one byte is loaded and the byte comes back from the cache. -/
theorem page_cache_epochs_one_byte :
    ∃ s, epochSystem.Reachable StepOk s ∧ Safe s ∧ s.hits.map Hit.summary = [(0, [7], 1)] := by
  have hrun : (epochSystem.runWhile StepOk (boot (ByteFile.empty.write 0 [7])) loadTrace).map
      (fun s => s.hits.map Hit.summary) = some [(0, [7], 1)] := by decide
  obtain ⟨s, hreach, -, hhits⟩ := System.exists_reachable hrun (boot_init _)
  exact ⟨s, hreach, page_cache_epochs hreach, hhits⟩

/-- A file of two pages is mapped and cut to one page.  A fault on the second page finds no page
(nor does the probe of thread 1, which ends at the size), reads nothing, and publishes a page
of zeros with the old size; a read past the end of the file then hits it. -/
def truncateTrace : List Action :=
  [.mmap false 0 (2 * PAGE_SIZE), .beginMutation 0, .write 0 (ByteFile.empty.setLen PAGE_SIZE),
    .endMutation 0, .fault 0 0 1, .capture 1, .stat 1, .finishRead 1, .faultLoad 0,
    .faultPublish 0 (fun _ => false), .capture 1, .readHit 1 1 0 1]

theorem fault_past_end_is_read_back :
    ∃ s, epochSystem.runWhile System.anyStep (boot (ByteFile.empty.setLen (2 * PAGE_SIZE)))
        truncateTrace = some s ∧
      s.hits.map Hit.summary = [(PAGE_SIZE, [0], PAGE_SIZE), (PAGE_SIZE, [], PAGE_SIZE)] ∧
      ¬ Safe s := by
  have hrun : (epochSystem.runWhile System.anyStep (boot (ByteFile.empty.setLen (2 * PAGE_SIZE)))
      truncateTrace).map (fun s => s.hits.map Hit.summary) =
        some [(PAGE_SIZE, [0], PAGE_SIZE), (PAGE_SIZE, [], PAGE_SIZE)] := by decide
  obtain ⟨s, hs, hhits⟩ := map_eq_some_iff.mp hrun
  refine ⟨s, hs, hhits, fun hsafe => ?_⟩
  obtain ⟨hit, rest, hsplit, hhit, -⟩ := map_eq_cons_iff.mp hhits
  have hok := hsafe.hits hit (hsplit ▸ mem_cons_self)
  cases hit with
  | mmap => cases hhit
  | read g position bytes loadedIn file =>
    -- the byte lies at the end of the file
    simp only [Hit.summary, Prod.mk.injEq] at hhit
    obtain ⟨rfl, rfl, hsize⟩ := hhit
    have hlt := (hok.2 0 (by decide)).1
    omega

end Whusp.Fs.Vfs.Epoch
