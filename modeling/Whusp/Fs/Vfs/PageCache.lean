import Mathlib.Data.List.GetD
import Whusp.Config
import Whusp.Lib.Codec

/-!
# The page cache of one file

Cached file pages are keyed by the generation of the file's content and the page index.  A
mutation guard makes the generation unstable; the generation moves when the first guard is
taken and when the last one is dropped, so that a page of an older generation can no longer be
found.  Shared mappings use one key for all generations.

The pages of other files, the LRU order and the waiting on gates are left out: eviction may take
any clean page without references, as the label of the step says.
-/

namespace Whusp.Fs.Vfs

open Function Option
open Whusp.Lib (Byte)

def USIZE_RANGE : Nat := 2 ^ 64

/-- The generation of the keys of shared mappings, `usize::MAX`. -/
def SHARED_MMAP_GENERATION : Nat := USIZE_RANGE - 1

structure PageCacheKey where
  generation : Nat
  pageIndex : Nat
  deriving DecidableEq

namespace PageCacheKey

def fileOffset (key : PageCacheKey) : Nat := key.pageIndex * PAGE_SIZE

def forward (key : PageCacheKey) (n : Nat) : PageCacheKey :=
  { key with pageIndex := key.pageIndex + n }

end PageCacheKey

structure PageCachePage where
  data : Nat → Byte
  fileSizeAtLoad : Nat
  refCount : Nat
  dirty : Bool
  /-- Not in the source: the stable generation in which the backend was read, if any. -/
  loadedIn : Option Nat

namespace PageCachePage

def new (data : Nat → Byte) (fileSizeAtLoad : Nat) (loadedIn : Option Nat) : PageCachePage :=
  ⟨data, fileSizeAtLoad, 0, false, loadedIn⟩

def evictable (page : PageCachePage) : Bool := page.refCount == 0 && !page.dirty

end PageCachePage

/-- The pages, pending loads and generation of one file. -/
structure PageCache where
  pages : PageCacheKey → Option PageCachePage
  loading : PageCacheKey → Option Nat
  generation : Nat
  activeMutations : Nat

inductive ReadCacheLoadReservation where
  | cached
  | wait (gate : Nat)
  | owner (pages : Nat)
  | staleGeneration

namespace PageCache

def new : PageCache := ⟨fun _ => none, fun _ => none, 0, 0⟩

/-! ## Generations -/

def currentStableGeneration (c : PageCache) : Option Nat :=
  if c.activeMutations ≠ 0 then none else some c.generation

def isCurrentKey (c : PageCache) (key : PageCacheKey) : Bool :=
  c.currentStableGeneration == some key.generation

def isUsableMmapKey (c : PageCache) (key : PageCacheKey) (shared : Bool)
    (observedGeneration : Nat) : Bool :=
  if c.currentStableGeneration ≠ some observedGeneration then false
  else if shared then key.generation == SHARED_MMAP_GENERATION
  else key.generation == observedGeneration

def mmapKeyFromFileOffset (c : PageCache) (pageIndex : Nat) (shared : Bool) :
    Option (PageCacheKey × Nat) :=
  c.currentStableGeneration.map fun generation =>
    (⟨if shared then SHARED_MMAP_GENERATION else generation, pageIndex⟩, generation)

/-- Pages that nothing pins go when the first mutation begins; the others keep their key. -/
def dropEvictable (c : PageCache) : PageCacheKey → Option PageCachePage :=
  fun key => (c.pages key).filter fun page => !page.evictable

/-- `begin_mutation`.  The kernel stops when the generation does not fit into a word; here it
goes on. -/
def beginMutation (c : PageCache) : PageCache :=
  if c.activeMutations = 0 then
    { c with
      generation := c.generation + 1
      activeMutations := 1
      pages := c.dropEvictable }
  else { c with activeMutations := c.activeMutations + 1 }

/-- `end_mutation`, called when a guard is dropped: at least one is alive. -/
def endMutation (c : PageCache) : PageCache :=
  if c.activeMutations = 1 then
    { c with generation := c.generation + 1, activeMutations := 0 }
  else { c with activeMutations := c.activeMutations - 1 }

/-! ## Loads -/

/-- The loop that extends a reservation over the pages after the first: how many of the next
`fuel` pages are neither cached nor being loaded. -/
def freeSuffix (c : PageCache) (firstKey : PageCacheKey) : Nat → Nat → Nat
  | 0, pages => pages
  | fuel + 1, pages =>
    let key := firstKey.forward pages
    if (c.pages key).isSome || (c.loading key).isSome then pages
    else freeSuffix c firstKey fuel (pages + 1)

def inLoad (firstKey : PageCacheKey) (pages : Nat) (key : PageCacheKey) : Bool :=
  key.generation == firstKey.generation &&
    (decide (firstKey.pageIndex ≤ key.pageIndex) &&
      decide (key.pageIndex < firstKey.pageIndex + pages))

def reserveReadCacheLoad (c : PageCache) (firstKey : PageCacheKey) (maxPages gate : Nat) :
    ReadCacheLoadReservation × PageCache :=
  if maxPages = 0 || !c.isCurrentKey firstKey then (.staleGeneration, c)
  else if (c.pages firstKey).isSome then (.cached, c)
  else
    match c.loading firstKey with
    | some existing => (.wait existing, c)
    | none =>
      let pages := c.freeSuffix firstKey (maxPages - 1) 1
      (.owner pages, { c with
        loading := fun key => if inLoad firstKey pages key then some gate else c.loading key })

/-- `none` where the owner of a page has changed. -/
def releaseReadCacheLoad (c : PageCache) (firstKey : PageCacheKey) (pages gate : Nat) :
    Option PageCache :=
  if (List.range pages).all fun delta => c.loading (firstKey.forward delta) == some gate then
    some { c with loading := fun key => if inLoad firstKey pages key then none else c.loading key }
  else none

/-! ## Pages -/

/-- The bytes put into a destination of length `len`. -/
def copyReadCachePageData (c : PageCache) (key : PageCacheKey) (pageOffset len : Nat) :
    Option (List Byte) :=
  if !c.isCurrentKey key then none
  else
    match c.pages key with
    | none => none
    | some page =>
      if page.dirty || PAGE_SIZE ≤ pageOffset then none
      else
        let pageValidLen := min (page.fileSizeAtLoad - key.fileOffset) PAGE_SIZE
        if pageValidLen ≤ pageOffset then some []
        else
          let len := min (min len (pageValidLen - pageOffset)) (PAGE_SIZE - pageOffset)
          some ((List.range len).map fun i => page.data (pageOffset + i))

/-- What `trim_clean_unpinned_to_global_len` leaves: it may evict any page that nothing pins. -/
def trim (c : PageCache) (evict : PageCacheKey → Bool) : PageCache :=
  { c with
    pages := fun key => (c.pages key).filter fun page => !(page.evictable && evict key) }

/-- `room` says whether the trimmed cache is below its limit. -/
def insertReadCachePage (c : PageCache) (key : PageCacheKey) (page : PageCachePage)
    (evict : PageCacheKey → Bool) (room : Bool) : PageCache :=
  if !c.isCurrentKey key then c
  else if (c.pages key).isSome then c
  else
    let c := c.trim evict
    if room then { c with pages := update c.pages key (some page) } else c

def getAndIncRefForMmap (c : PageCache) (key : PageCacheKey) (shared : Bool)
    (observedGeneration : Nat) : Option (PageCachePage × PageCache) :=
  if !c.isUsableMmapKey key shared observedGeneration then none
  else
    (c.pages key).map fun page =>
      (page, { c with
        pages := update c.pages key (some { page with refCount := page.refCount + 1 }) })

def insertLoadedPageAndIncRefForMmap (c : PageCache) (key : PageCacheKey) (page : PageCachePage)
    (shared : Bool) (observedGeneration : Nat) (evict : PageCacheKey → Bool) :
    Option (PageCachePage × PageCache) :=
  if !c.isUsableMmapKey key shared observedGeneration then none
  else
    match c.pages key with
    | some page =>
      some (page, { c with
        pages := update c.pages key (some { page with refCount := page.refCount + 1 }) })
    | none =>
      let c := c.trim evict
      some (page, { c with
        pages := update c.pages key (some { page with refCount := 1 }) })

/-- The count saturates, and an unpinned clean page of another generation goes. -/
def decRef (c : PageCache) (key : PageCacheKey) (evict : PageCacheKey → Bool) : PageCache :=
  match c.pages key with
  | none => c.trim evict
  | some page =>
    let page := { page with refCount := page.refCount - 1 }
    let c := { c with
      pages := update c.pages key
        (if page.evictable && key.generation != c.generation then none else some page) }
    c.trim evict

/-! ## What the sections do -/

variable {c c' : PageCache} {key firstKey : PageCacheKey}

lemma currentStableGeneration_eq_some {g : Nat} :
    c.currentStableGeneration = some g ↔ c.activeMutations = 0 ∧ c.generation = g := by
  unfold currentStableGeneration
  simp

lemma isCurrentKey_iff :
    c.isCurrentKey key = true ↔ c.activeMutations = 0 ∧ c.generation = key.generation := by
  unfold isCurrentKey
  rw [beq_iff_eq, currentStableGeneration_eq_some]

variable {observed pages : Nat}

/-- A key that a private mapping may use is a key of the current generation. -/
lemma isUsableMmapKey_private (h : c.isUsableMmapKey key false observed = true) :
    c.activeMutations = 0 ∧ c.generation = key.generation ∧ key.generation = observed := by
  unfold isUsableMmapKey at h
  split at h
  · cases h
  rename_i hstable
  obtain ⟨hactive, hgen⟩ := currentStableGeneration_eq_some.mp (not_not.mp hstable)
  have hkey : key.generation = observed := by simpa using h
  exact ⟨hactive, hgen.trans hkey.symm, hkey⟩

lemma isUsableMmapKey_shared (h : c.isUsableMmapKey key true observed = true) :
    key.generation = SHARED_MMAP_GENERATION := by
  unfold isUsableMmapKey at h
  split at h
  · cases h
  · simpa using h

lemma inLoad_iff : inLoad firstKey pages key = true ↔
    ∃ delta, delta < pages ∧ key = firstKey.forward delta := by
  unfold inLoad
  simp only [Bool.and_eq_true, beq_iff_eq, decide_eq_true_eq]
  constructor
  · rintro ⟨hgen, hle, hlt⟩
    refine ⟨key.pageIndex - firstKey.pageIndex, by omega, ?_⟩
    cases key
    simp only [PageCacheKey.forward, PageCacheKey.mk.injEq] at *
    exact ⟨hgen, by omega⟩
  · rintro ⟨delta, hlt, rfl⟩
    exact ⟨rfl, Nat.le_add_right _ _, Nat.add_lt_add_left hlt _⟩

/-- The pages that a reservation extends over are neither cached nor being loaded. -/
lemma freeSuffix_free {fuel delta : Nat} (hlow : pages ≤ delta)
    (hdelta : delta < c.freeSuffix firstKey fuel pages) :
    c.pages (firstKey.forward delta) = none ∧ c.loading (firstKey.forward delta) = none := by
  induction fuel generalizing pages with
  | zero => exact absurd hdelta (not_lt.mpr hlow)
  | succ fuel ih =>
    simp only [freeSuffix] at hdelta
    split at hdelta
    · exact absurd hdelta (not_lt.mpr hlow)
    rename_i hfree
    rcases eq_or_lt_of_le hlow with rfl | hlt
    · simpa using hfree
    · exact ih hlt hdelta

variable {gate : Nat} {k : PageCacheKey} {p : PageCachePage} {shared : Bool}

/-- A reservation that succeeds takes keys of the current generation that no load owns. -/
theorem reserveReadCacheLoad_owner {maxPages : Nat}
    (h : c.reserveReadCacheLoad firstKey maxPages gate = (.owner pages, c')) :
    c.isCurrentKey firstKey = true ∧
      (∀ delta, delta < pages → c.loading (firstKey.forward delta) = none) ∧ c' = { c with
        loading := fun key => if inLoad firstKey pages key then some gate else c.loading key } := by
  unfold reserveReadCacheLoad at h
  split at h
  · cases h
  rename_i hcurrent
  split at h
  · cases h
  split at h
  · cases h
  rename_i hfirst
  obtain ⟨hpages, rfl⟩ := Prod.mk.inj h
  obtain rfl := ReadCacheLoadReservation.owner.inj hpages
  refine ⟨by simp at hcurrent; exact hcurrent.2, ?_, rfl⟩
  intro delta hdelta
  rcases eq_zero_or_pos delta with rfl | hpos
  · exact hfirst
  · exact (freeSuffix_free hpos hdelta).2

theorem releaseReadCacheLoad_of_owner
    (h : ∀ delta, delta < pages → c.loading (firstKey.forward delta) = some gate) :
    c.releaseReadCacheLoad firstKey pages gate = some { c with
      loading := fun key => if inLoad firstKey pages key then none else c.loading key } := by
  unfold releaseReadCacheLoad
  rw [if_pos]
  apply List.all_eq_true.mpr
  intro delta hdelta
  rw [beq_iff_eq]
  exact h delta (List.mem_range.mp hdelta)

/-- **A hit of `read`**: a page of the current generation, read up to the size recorded with
it. -/
theorem copyReadCachePageData_eq_some {pageOffset len : Nat} {bytes : List Byte}
    (h : c.copyReadCachePageData key pageOffset len = some bytes) :
    ∃ page, c.pages key = some page ∧ c.isCurrentKey key = true ∧ page.dirty = false ∧
      bytes.length = min len (min (page.fileSizeAtLoad - key.fileOffset) PAGE_SIZE - pageOffset) ∧
      ∀ i, i < bytes.length → bytes.getD i 0 = page.data (pageOffset + i) := by
  unfold copyReadCachePageData at h
  split at h
  · cases h
  rename_i hcurrent
  split at h
  · cases h
  rename_i page hpage
  split at h
  · cases h
  rename_i hclean
  simp only [Bool.or_eq_true, decide_eq_true_eq, not_or, Bool.not_eq_true] at hclean
  refine ⟨page, hpage, by simpa using hcurrent, hclean.1, ?_⟩
  simp only [] at h
  split at h
  · cases h
    refine ⟨?_, fun i hi => absurd hi (Nat.not_lt_zero i)⟩
    rw [List.length_nil]
    omega
  · cases h
    refine ⟨?_, fun i hi => ?_⟩
    · rw [List.length_map, List.length_range]
      omega
    · rw [List.getD_eq_getElem _ _ hi]
      simp

variable {evict : PageCacheKey → Bool} {page : PageCachePage}

/-- The cache after pages have been evicted: pages only go, and keep what they hold. -/
lemma trim_pages (h : (c.trim evict).pages key = some page) : c.pages key = some page :=
  (filter_eq_some_iff.mp h).1

lemma dropEvictable_pages (h : c.dropEvictable key = some page) : c.pages key = some page :=
  (filter_eq_some_iff.mp h).1

/-- A page after one entry of the table is set. -/
lemma page_of_update {pages : PageCacheKey → Option PageCachePage} {new q : PageCachePage}
    (h : update pages key (some new) k = some q) : (k = key ∧ q = new) ∨ pages k = some q := by
  rcases eq_or_ne k key with rfl | hne
  · rw [update_self] at h
    exact .inl ⟨rfl, (some.inj h).symm⟩
  · rw [update_of_ne hne] at h
    exact .inr h

/-- A page after `insert_read_cache_page` was there before or is the one inserted. -/
theorem insertReadCachePage_pages {room : Bool}
    (h : (c.insertReadCachePage key p evict room).pages k = some page) :
    c.pages k = some page ∨ k = key ∧ c.isCurrentKey key = true ∧ page = p := by
  unfold insertReadCachePage at h
  split at h
  · exact .inl h
  rename_i hcurrent
  split at h
  · exact .inl h
  rcases room with _ | _
  · exact .inl (trim_pages h)
  rcases page_of_update h with ⟨hk, hpage⟩ | hold
  · exact .inr ⟨hk, by simpa using hcurrent, hpage⟩
  · exact .inl (trim_pages hold)

lemma insertReadCachePage_frame (p : PageCachePage) (evict : PageCacheKey → Bool) (room : Bool) :
    (c.insertReadCachePage key p evict room).loading = c.loading ∧
      (c.insertReadCachePage key p evict room).generation = c.generation ∧
      (c.insertReadCachePage key p evict room).activeMutations = c.activeMutations := by
  unfold insertReadCachePage
  split
  · simp
  · split
    · simp
    · cases room <;> exact ⟨rfl, rfl, rfl⟩

/-- What a resolved fault leaves: pages that were there, up to their count, and perhaps the page
that was loaded; the page that it returns is one of them. -/
theorem insertLoaded_spec
    (h : c.insertLoadedPageAndIncRefForMmap key p shared observed evict = some (page, c')) :
    c.isUsableMmapKey key shared observed = true ∧ (c.pages key = some page ∨ page = p) ∧
      c'.loading = c.loading ∧ c'.generation = c.generation ∧
      c'.activeMutations = c.activeMutations ∧ ∀ k q, c'.pages k = some q →
        (∃ n, k = key ∧ q = { page with refCount := n }) ∨ c.pages k = some q := by
  unfold insertLoadedPageAndIncRefForMmap at h
  split at h
  · cases h
  rename_i husable
  refine ⟨by simpa using husable, ?_⟩
  split at h
  next hold =>
    cases h
    refine ⟨.inl hold, rfl, rfl, rfl, fun k q hq => ?_⟩
    exact (page_of_update hq).imp_left fun hnew => ⟨_, hnew⟩
  · cases h
    refine ⟨.inr rfl, rfl, rfl, rfl, fun k q hq => ?_⟩
    exact (page_of_update hq).imp (fun hnew => ⟨_, hnew⟩) trim_pages

theorem getAndIncRef_spec (h : c.getAndIncRefForMmap key shared observed = some (page, c')) :
    c.isUsableMmapKey key shared observed = true ∧ c.pages key = some page ∧
      c'.loading = c.loading ∧ c'.generation = c.generation ∧
      c'.activeMutations = c.activeMutations ∧ ∀ k q, c'.pages k = some q →
        (∃ n, k = key ∧ q = { page with refCount := n }) ∨ c.pages k = some q := by
  unfold getAndIncRefForMmap at h
  split at h
  · cases h
  rename_i husable
  obtain ⟨old, hold, ⟨⟩⟩ := map_eq_some_iff.mp h
  refine ⟨by simpa using husable, hold, rfl, rfl, rfl, fun k q hq => ?_⟩
  exact (page_of_update hq).imp_left fun hnew => ⟨_, hnew⟩

/-- Pages after a reference is dropped were there before, up to their count. -/
theorem decRef_pages {q : PageCachePage} (h : (c.decRef key evict).pages k = some q) :
    ∃ page n, c.pages k = some page ∧ q = { page with refCount := n } := by
  unfold decRef at h
  split at h
  · exact ⟨q, q.refCount, trim_pages h, rfl⟩
  rename_i page hpage
  have hq := trim_pages h
  replace hq : update c.pages key
    (if PageCachePage.evictable { page with refCount := page.refCount - 1 } &&
        key.generation != c.generation then none
      else some { page with refCount := page.refCount - 1 }) k = some q := hq
  rcases eq_or_ne k key with rfl | hne
  · rw [update_self] at hq
    split at hq
    · cases hq
    · exact ⟨page, _, hpage, (some.inj hq).symm⟩
  · rw [update_of_ne hne] at hq
    exact ⟨q, q.refCount, hq, rfl⟩

lemma decRef_frame (key : PageCacheKey) (evict : PageCacheKey → Bool) :
    (c.decRef key evict).loading = c.loading ∧ (c.decRef key evict).generation = c.generation ∧
      (c.decRef key evict).activeMutations = c.activeMutations := by
  unfold decRef
  split <;> exact ⟨rfl, rfl, rfl⟩

end PageCache

end Whusp.Fs.Vfs
