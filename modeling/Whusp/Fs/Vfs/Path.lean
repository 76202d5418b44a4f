import Whusp.Fs.InodeState

/-!
# Resolving a path

`resolve_path_inner` of `fs/vfs/path.rs`, over any tree of directories, symlinks and mounts.  It
first walks without a list of components, without the visible path where no mount depends on it,
and gives up at a symlink to follow.  The walk with a component vector ends, and the first walk
finds what it finds.
-/

namespace Whusp.Fs.Vfs.Path

def EXT4_NAME_MAX : Nat := 255
def SYMLINK_TARGET_MAX : Nat := 4096
def MAX_SYMLINK_FOLLOWS : Nat := 40
def PRIMARY_MOUNT_ID : BitVec 64 := 0

abbrev Bytes := List UInt8

def SLASH : UInt8 := 0x2f
def DOTDOT : Bytes := [0x2e, 0x2e]

/-- The errors other than `Loop`. -/
inductive LookupError where
  | NotFound | NotDir | NameTooLong | InvalidInput | Io

inductive FsError where
  | Loop
  | of (e : LookupError)

/-- `none` is the path of a cursor without `tracks_path`. -/
structure VfsCursor where
  node : VfsNodeId
  kind : FsNodeKind
  path : Option Bytes

/-- `into_parent` cuts the path back to that of `parent`. -/
structure VfsChildLookup where
  (cursor parent : VfsCursor)

inductive LookupMode where
  | FollowFinal | NoFollowFinal | MountTarget

def LookupMode.followFinalSymlink : LookupMode → Bool
  | .NoFollowFinal => false
  | _ => true

def LookupMode.followFinalMount : LookupMode → Bool
  | .MountTarget => false
  | _ => true

/-- The context of a call, with what the mounts of its namespace and the file systems answer. -/
structure PathContext where
  (root cwd : VfsNodeId)
  (rootPath cwdPath : Bytes)
  hasDynamicMounts : Bool
  (dynamicRoot dynamicParent : VfsNodeId → Bytes → Option VfsNodeId)
  staticChild : VfsNodeId → Bytes → Option VfsNodeId
  staticParent : VfsNodeId → Option VfsNodeId
  isMountRoot : VfsNodeId → Bool
  lookupCachedChild : VfsNodeId → Bytes → Except LookupError (Option (VfsNodeId × FsNodeKind))
  readlink : VfsNodeId → Except LookupError Bytes
  validUtf8 : Bytes → Bool
  /-- What `materialize_path` makes of the argument; it always succeeds. -/
  visiblePath : Bytes → Bytes

/-- `truncate_visible_path_parent` does the same to a path with a slash. -/
def parentVisiblePath (path : Bytes) : Bytes :=
  match (path.splitOn SLASH).dropLast with
  | [] | [[]] => [SLASH]
  | parents => List.intercalate [SLASH] parents

def pushVisiblePathComponent (component path : Bytes) : Bytes :=
  if path = [SLASH] then path ++ component else path ++ SLASH :: component

def pathComponents (path : Bytes) : List Bytes :=
  (path.splitOn SLASH).filter fun c => c ≠ [] && c ≠ [0x2e]

variable (ctx : PathContext) (mode : LookupMode)

def mountedRootFor (node : VfsNodeId) (path : Bytes) : Option VfsNodeId :=
  if ctx.hasDynamicMounts then ctx.dynamicRoot node path else none

def mountedRootParent (node : VfsNodeId) (path : Bytes) : Option VfsNodeId :=
  (ctx.staticParent node).or (if ctx.hasDynamicMounts then ctx.dynamicParent node path else none)

def startCursor (path : Bytes) (trackPath : Bool) : VfsCursor :=
  let (node, base) :=
    if path.head? = some SLASH then (ctx.root, ctx.rootPath) else (ctx.cwd, ctx.cwdPath)
  ⟨node, .directory, if trackPath then some base else none⟩

def rootForTracking (trackPath : Bool) : VfsCursor := startCursor ctx [SLASH] trackPath

def materializePath (cursor : VfsCursor) (path : Bytes) : VfsCursor :=
  { cursor with path := some (cursor.path.getD (ctx.visiblePath path)) }

def followMountedRoot (cursor : VfsCursor) : VfsCursor :=
  match cursor.kind, cursor.path with
  | .directory, some path =>
    { cursor with node := (mountedRootFor ctx cursor.node path).getD cursor.node }
  | _, _ => cursor

/-- The node and the kind that `lookup_child_raw` finds. -/
def lookupNode (node : VfsNodeId) (kind : FsNodeKind) (component : Bytes) :
    Except LookupError (VfsNodeId × FsNodeKind) :=
  if kind matches .directory then
    if component.length > EXT4_NAME_MAX then .error .NameTooLong
    else match if component = DOTDOT then none else ctx.staticChild node component with
    | some node => .ok (node, .directory)
    | none => match ctx.lookupCachedChild node component with
      | .error e => .error e
      | .ok none => .error .NotFound
      | .ok (some found) => .ok found
  else .error .NotDir

def lookupChildRaw (cursor : VfsCursor) (component : Bytes) : Except LookupError VfsChildLookup :=
  let path := cursor.path.map <|
    if component = DOTDOT then parentVisiblePath else pushVisiblePathComponent component
  (lookupNode ctx cursor.node cursor.kind component).map fun (node, kind) =>
    ⟨⟨node, kind, path⟩, cursor⟩

def lookupParent (cursor : VfsCursor) : Except LookupError VfsCursor :=
  let root := rootForTracking ctx cursor.path.isSome
  if ctx.isMountRoot cursor.node then
    if cursor.node.mountId = PRIMARY_MOUNT_ID then .ok root
    else match mountedRootParent ctx cursor.node (cursor.path.getD []) with
    | some parent => .ok ⟨parent, .directory, cursor.path.map parentVisiblePath⟩
    | none => .ok root
  else (lookupChildRaw ctx cursor DOTDOT).map (·.cursor)

def lookupParentInContext (cursor : VfsCursor) : Except LookupError VfsCursor :=
  if cursor.node = ctx.root then .ok cursor else lookupParent ctx cursor

def readSymlinkTarget (node : VfsNodeId) : Except LookupError Bytes :=
  match ctx.readlink node with
  | .error e => .error e
  | .ok target =>
    if target.length > SYMLINK_TARGET_MAX then .error .NameTooLong
    else if ctx.validUtf8 target then .ok target else .error .InvalidInput

def mountedIf (b : Bool) (cursor : VfsCursor) : VfsCursor :=
  if b then followMountedRoot ctx cursor else cursor

/-- A component of either walk: the symlink to follow, or the next cursor. -/
def lookupComponent (cursor : VfsCursor) (component : Bytes) (isFinal : Bool) :
    Except LookupError (VfsChildLookup ⊕ VfsCursor) :=
  let mounted := mountedIf ctx (mode.followFinalMount || !isFinal)
  if component = DOTDOT then (lookupParentInContext ctx cursor).map (.inr ∘ mounted)
  else (lookupChildRaw ctx cursor component).map fun child =>
    if (child.cursor.kind matches .symlink) && (!isFinal || mode.followFinalSymlink) then .inl child
    else .inr (mounted child.cursor)

def streamingLoop : VfsCursor → List Bytes → Except LookupError (Option VfsCursor)
  | cursor, [] => .ok (some cursor)
  | cursor, component :: rest =>
    match lookupComponent ctx mode cursor component rest.isEmpty with
    | .error e => .error e
    | .ok (.inl _) => .ok none
    | .ok (.inr cursor) => streamingLoop cursor rest

def resolvePathStreamingNoSymlink (path : Bytes) : Except LookupError (Option VfsCursor) :=
  (streamingLoop ctx mode (startCursor ctx path ctx.hasDynamicMounts) (pathComponents path)).map <|
    Option.map fun cursor => materializePath ctx
      (mountedIf ctx (mode.followFinalMount && (pathComponents path).isEmpty) cursor) path

/-- The loop of `resolve_path_with_component_vec`, with the components from `index` on. -/
structure State where
  cursor : VfsCursor
  components : List Bytes
  symlinkFollows : Nat

def enter (cursor : VfsCursor) (components : List Bytes) (symlinkFollows : Nat) : State :=
  ⟨mountedIf ctx (mode.followFinalMount && components.isEmpty) cursor, components, symlinkFollows⟩

def start (path : Bytes) : State :=
  enter ctx mode (startCursor ctx path true) (pathComponents path) 0

def step (s : State) (component : Bytes) (rest : List Bytes) : Except FsError State :=
  match lookupComponent ctx mode s.cursor component rest.isEmpty with
  | .error e => .error (.of e)
  | .ok (.inr cursor) => .ok ⟨cursor, rest, s.symlinkFollows⟩
  | .ok (.inl child) =>
    if s.symlinkFollows = MAX_SYMLINK_FOLLOWS then .error .Loop
    else match readSymlinkTarget ctx child.cursor.node with
    | .error e => .error (.of e)
    | .ok target =>
      .ok (enter ctx mode
        (if target.head? = some SLASH then rootForTracking ctx true else child.parent)
        (pathComponents target ++ rest) (s.symlinkFollows + 1))

/-- At most `n` rounds of the loop: the last state and the result. -/
def loop (n : Nat) (s : State) : Option (State × Except FsError VfsCursor) :=
  match s.components, n with
  | [], _ => some (s, .ok s.cursor)
  | _ :: _, 0 => none
  | component :: rest, n + 1 =>
    match step ctx mode s component rest with
    | .error e => some (s, .error e)
    | .ok s => loop n s

def resolvePathWithComponentVec (n : Nat) (path : Bytes) : Option (Except FsError VfsCursor) :=
  (loop ctx mode n (start ctx mode path)).map (·.2)

def resolvePathInner (n : Nat) (path : Bytes) : Option (Except FsError VfsCursor) :=
  if path = [] then some (.error (.of .NotFound))
  else match resolvePathStreamingNoSymlink ctx mode path with
  | .error e => some (.error (.of e))
  | .ok (some cursor) => some (.ok cursor)
  | .ok none => resolvePathWithComponentVec ctx mode n path

/-! ## Termination -/

/-- The rounds that are left, with every symlink still to be followed at its longest. -/
def rounds (s : State) : Nat :=
  s.components.length + (MAX_SYMLINK_FOLLOWS - s.symlinkFollows) * (SYMLINK_TARGET_MAX + 1)

/-- One more symlink than allowed is to be followed. -/
def Overrun (s : State) : Prop :=
  s.symlinkFollows = MAX_SYMLINK_FOLLOWS ∧ ∃ component rest child,
    s.components = component :: rest ∧
      lookupComponent ctx mode s.cursor component rest.isEmpty = .ok (.inl child)

lemma length_pathComponents (path : Bytes) : (pathComponents path).length ≤ path.length + 1 := by
  refine Nat.le_trans (List.length_filter_le _ _) ?_
  unfold List.splitOn
  induction path with
  | nil => simp
  | cons b path ih =>
    rw [List.splitOnP_cons_eq_if_modifyHead]
    split
    · simpa using ih
    · simpa using Nat.le_succ_of_le ih

variable {ctx mode} {s s' : State} {component : Bytes} {rest : List Bytes} {n : Nat}

lemma length_readSymlinkTarget {node : VfsNodeId} {target : Bytes}
    (h : readSymlinkTarget ctx node = .ok target) : target.length ≤ SYMLINK_TARGET_MAX := by
  unfold readSymlinkTarget at h
  grind

lemma rounds_step (hs : s.components = component :: rest)
    (hle : s.symlinkFollows ≤ MAX_SYMLINK_FOLLOWS) (h : step ctx mode s component rest = .ok s') :
    s'.symlinkFollows ≤ MAX_SYMLINK_FOLLOWS ∧ rounds s' < rounds s := by
  unfold step at h
  split at h
  · cases h
  · cases h
    exact ⟨hle, by simp [rounds, hs]⟩
  next =>
    split_ifs at h with hmax
    split at h
    · cases h
    next target htarget =>
      cases h
      have hlen := length_pathComponents target
      have htarget := length_readSymlinkTarget htarget
      simp only [rounds, enter, hs, MAX_SYMLINK_FOLLOWS, SYMLINK_TARGET_MAX, List.length_append,
        List.length_cons] at *
      omega

lemma step_eq_loop_iff (hs : s.components = component :: rest) :
    step ctx mode s component rest = .error .Loop ↔ Overrun ctx mode s := by
  unfold step Overrun
  grind

lemma loop_ends (hn : rounds s ≤ n) (hle : s.symlinkFollows ≤ MAX_SYMLINK_FOLLOWS) :
    ∃ last result, loop ctx mode n s = some (last, result) ∧
      last.symlinkFollows ≤ MAX_SYMLINK_FOLLOWS ∧
      (result = .error .Loop ↔ Overrun ctx mode last) := by
  induction n generalizing s with
  | zero =>
    have hs : s.components = [] := by
      rw [← List.length_eq_zero_iff]
      unfold rounds at hn
      omega
    exact ⟨s, .ok s.cursor, by simp [loop, hs], hle, by simp [Overrun, hs]⟩
  | succ n ih =>
    unfold loop
    split
    next hs => exact ⟨s, .ok s.cursor, rfl, hle, by simp [Overrun, hs]⟩
    next hn => cases hn
    next component rest _ hs hn' =>
      cases hn'
      split
      next e he => exact ⟨s, .error e, rfl, hle, by simp [← step_eq_loop_iff hs, he]⟩
      next s' hstep =>
        obtain ⟨hle', hlt⟩ := rounds_step hs hle hstep
        exact ih (by omega) hle'

/-- **Resolving a path ends**: after this many components, with 40 symlinks followed at most,
and with `Loop` exactly where one more would have to be followed. -/
theorem path_resolution_ends (path : Bytes) :
    let n := (pathComponents path).length + MAX_SYMLINK_FOLLOWS * (SYMLINK_TARGET_MAX + 1)
    ∃ last result, loop ctx mode n (start ctx mode path) = some (last, result) ∧
      last.symlinkFollows ≤ MAX_SYMLINK_FOLLOWS ∧
      ∃ result', resolvePathInner ctx mode n path = some result' ∧
        (result' = .error .Loop ↔ path ≠ [] ∧
          resolvePathStreamingNoSymlink ctx mode path = .ok none ∧ Overrun ctx mode last) := by
  intro n
  obtain ⟨last, result, hloop, hle, hiff⟩ :=
    @loop_ends ctx mode (start ctx mode path) n (Nat.le_refl _) (Nat.zero_le _)
  refine ⟨last, result, hloop, hle, ?_⟩
  by_cases hpath : path = []
  · exact ⟨.error (.of .NotFound), if_pos hpath, by simp [hpath]⟩
  · rw [resolvePathInner, if_neg hpath, resolvePathWithComponentVec, hloop]
    split
    next e he => exact ⟨.error (.of e), rfl, by simp [he]⟩
    next cursor he => exact ⟨.ok cursor, rfl, by simp [he]⟩
    next he => exact ⟨result, rfl, by simp [he, hpath, hiff]⟩

/-! ## The walk without a component vector -/

def VfsCursor.target (cursor : VfsCursor) : VfsNodeId × FsNodeKind := (cursor.node, cursor.kind)

/-- The cursor of a walk that keeps no path. -/
def VfsCursor.forget (cursor : VfsCursor) : VfsCursor := { cursor with path := none }

def VfsChildLookup.forget (child : VfsChildLookup) : VfsChildLookup :=
  ⟨child.cursor.forget, child.parent.forget⟩

section NoDynamicMounts

variable (h : ctx.hasDynamicMounts = false) (cursor : VfsCursor)
include h

lemma mountedIf_eq_self (b : Bool) : mountedIf ctx b cursor = cursor := by
  simp only [mountedIf, followMountedRoot, mountedRootFor, h]
  split
  · split <;> rfl
  · rfl

omit h in
lemma lookupChildRaw_forget (component : Bytes) : lookupChildRaw ctx cursor.forget component =
    (lookupChildRaw ctx cursor component).map VfsChildLookup.forget := by
  unfold lookupChildRaw
  dsimp only [VfsCursor.forget]
  cases lookupNode ctx cursor.node cursor.kind component <;> rfl

lemma lookupParentInContext_forget : lookupParentInContext ctx cursor.forget =
    (lookupParentInContext ctx cursor).map VfsCursor.forget := by
  have hstatic (node path) : mountedRootParent ctx node path = ctx.staticParent node := by
    simp [mountedRootParent, h]
  unfold lookupParentInContext lookupParent
  rw [lookupChildRaw_forget, hstatic, hstatic]
  by_cases hctx : cursor.node = ctx.root
  · simp [VfsCursor.forget, hctx, Except.map]
  by_cases hroot : ctx.isMountRoot cursor.node = true
  · by_cases hzero : cursor.node.mountId = PRIMARY_MOUNT_ID
    · simp [VfsCursor.forget, hctx, hroot, hzero, Except.map, rootForTracking, startCursor]
    · cases hp : ctx.staticParent cursor.node <;>
        simp [VfsCursor.forget, hctx, hroot, hzero, hp, Except.map, rootForTracking, startCursor]
  · cases lookupChildRaw ctx cursor DOTDOT <;>
      simp [VfsCursor.forget, hctx, hroot, Except.map, VfsChildLookup.forget]

lemma lookupComponent_forget (component : Bytes) (isFinal : Bool) :
    lookupComponent ctx mode cursor.forget component isFinal =
      (lookupComponent ctx mode cursor component isFinal).map
        (Sum.map VfsChildLookup.forget VfsCursor.forget) := by
  unfold lookupComponent
  rw [lookupParentInContext_forget h, lookupChildRaw_forget,
    funext fun c => mountedIf_eq_self h c (mode.followFinalMount || !isFinal)]
  split_ifs
  · cases lookupParentInContext ctx cursor <;> rfl
  · cases lookupChildRaw ctx cursor component with
    | error e => rfl
    | ok child =>
      dsimp only [Except.map, VfsChildLookup.forget, VfsCursor.forget]
      split_ifs <;> rfl

lemma streamingLoop_forget (components : List Bytes) :
    streamingLoop ctx mode cursor.forget components =
      (streamingLoop ctx mode cursor components).map (Option.map VfsCursor.forget) := by
  induction components generalizing cursor with
  | nil => rfl
  | cons component rest ih =>
    unfold streamingLoop
    rw [lookupComponent_forget h]
    rcases lookupComponent ctx mode cursor component rest.isEmpty with e | child | next
    · rfl
    · rfl
    · exact ih next

end NoDynamicMounts

/-- Without components, the start is also the end. -/
lemma streamingLoop_start (path : Bytes) :
    streamingLoop ctx mode (start ctx mode path).cursor (pathComponents path) =
      (streamingLoop ctx mode (startCursor ctx path true) (pathComponents path)).map
        (Option.map (mountedIf ctx (mode.followFinalMount && (pathComponents path).isEmpty))) := by
  unfold start enter
  cases pathComponents path with
  | nil => rfl
  | cons component rest =>
    have hid : mountedIf ctx false = id := rfl
    simp only [List.isEmpty_cons, Bool.and_false, hid, id_eq]
    rcases streamingLoop ctx mode (startCursor ctx path true) (component :: rest) with e | _ | c <;>
      rfl

/-- The first walk is the second one, perhaps without its path. -/
lemma target_streaming (path : Bytes) :
    (resolvePathStreamingNoSymlink ctx mode path).map (Option.map VfsCursor.target) =
      (streamingLoop ctx mode (start ctx mode path).cursor (pathComponents path)).map
        (Option.map VfsCursor.target) := by
  have hforget : startCursor ctx path false = (startCursor ctx path true).forget := rfl
  rw [streamingLoop_start, resolvePathStreamingNoSymlink]
  cases hd : ctx.hasDynamicMounts with
  | true =>
    rcases streamingLoop ctx mode (startCursor ctx path true) (pathComponents path)
      with e | _ | c <;> rfl
  | false =>
    have hid (b : Bool) : mountedIf ctx b = id := funext fun c => mountedIf_eq_self hd c b
    rw [hforget, streamingLoop_forget hd, hid]
    rcases streamingLoop ctx mode (startCursor ctx path true) (pathComponents path)
      with e | _ | c <;> rfl

/-- Without a symlink to follow, the two walks take the same steps. -/
lemma loop_of_streamingLoop (hn : s.components.length ≤ n) (out : Except LookupError VfsCursor)
    (hout : streamingLoop ctx mode s.cursor s.components = out.map some) :
    (loop ctx mode n s).map (·.2) = some (out.mapError .of) := by
  obtain ⟨cursor, components, follows⟩ := s
  induction components generalizing cursor n with
  | nil =>
    cases out with
    | error e => cases hout
    | ok c =>
      cases hout
      simp [loop, Except.mapError]
  | cons component rest ih =>
    obtain ⟨n, rfl⟩ : ∃ m, n = m + 1 := ⟨n - 1, by simp at hn; omega⟩
    simp only [streamingLoop] at hout
    simp only [loop, step]
    rcases hfound : lookupComponent ctx mode cursor component rest.isEmpty with e | child | next
    all_goals rw [hfound] at hout
    · cases out <;> cases hout
      rfl
    · cases out <;> cases hout
    · exact ih _ (Nat.le_of_succ_le_succ hn) hout

/-- **The walk without a component vector agrees with the walk with one**: but for an empty path,
the resolver ends with the node and the kind, or the error, that the component vector alone
finds. -/
theorem resolvers_agree (path : Bytes) (k : Nat) :
    let n := (pathComponents path).length + k
    (resolvePathInner ctx mode n path).map (Except.map VfsCursor.target) =
      (if path = [] then some (.error (.of .NotFound))
        else resolvePathWithComponentVec ctx mode n path).map (Except.map VfsCursor.target) := by
  intro n
  have htarget := @target_streaming ctx mode path
  have hloop := @loop_of_streamingLoop ctx mode (start ctx mode path) n (Nat.le_add_right _ _)
  unfold resolvePathInner
  split
  · rfl
  rw [resolvePathWithComponentVec]
  rcases hw : streamingLoop ctx mode (start ctx mode path).cursor (pathComponents path) with
    e | _ | cursor <;>
    rcases hr : resolvePathStreamingNoSymlink ctx mode path with e' | _ | cursor' <;>
    simp only [hw, hr, Except.map, Option.map, reduceCtorEq, Except.error.injEq, Except.ok.injEq,
      Option.some.injEq] at htarget
  · simp [hloop (.error e) hw, htarget, Except.mapError]
  · rfl
  · simp [hloop (.ok cursor) hw, htarget, Except.mapError, Except.map]

end Whusp.Fs.Vfs.Path
