import Whusp.Lib.Transition

/-!
# Accessed and dirty bits of user leaves

The entry of a page on RISC-V, under the functions of `mm/page_table.rs` that write it and
`remap_resident_frame` of `mm/area.rs`.
-/

namespace Whusp.Mm.AccessedDirty

open Whusp.Lib (System)

structure PTEFlags where
  (v r w x u a d cow : Bool)
  deriving DecidableEq

/-- An entry with one of the three permissions is a leaf. -/
def PTEFlags.leaf (f : PTEFlags) : Bool := f.r || f.w || f.x

def normalizedLeafFlags (f : PTEFlags) : PTEFlags :=
  if f.leaf then { f with v := true, a := true, d := f.d || f.w } else f

/-- The flags of an entry; `none` if its bits are zero. -/
abbrev Entry := Option PTEFlags

def remapFlags (entry : Entry) (flags : PTEFlags) : Entry :=
  entry.map fun _ => normalizedLeafFlags flags

/-- The write permission is taken out before the flags are normalised. -/
def remapFlagsPreservingCow (entry : Entry) (flags : PTEFlags) : PTEFlags :=
  if entry.any (·.cow) then { flags with w := false, cow := true } else flags

def remapResidentFrame (entry : Entry) (flags : PTEFlags) (hasLeafPermission : Bool) : Entry :=
  let flags := remapFlagsPreservingCow entry flags
  if !hasLeafPermission then if flags.cow then remapFlags entry flags else none
  else if entry = none then some (normalizedLeafFlags flags)
  else remapFlags entry flags

inductive Op where
  | tryMap (flags : PTEFlags)
  | remapFlags (flags : PTEFlags)
  | remapResidentFrame (flags : PTEFlags) (hasLeafPermission : Bool)
  | markCowReadonly
  | restoreWriteClearCow
  | replaceLeaf (flags : PTEFlags)
  | clearLeaf

def apply (entry : Entry) : Op → Entry
  | .tryMap flags => if entry = none then some (normalizedLeafFlags flags) else entry
  | .remapFlags flags => remapFlags entry flags
  | .remapResidentFrame flags leaf => remapResidentFrame entry flags leaf
  | .markCowReadonly => entry.map fun f =>
    if !f.v || f.cow && !f.w then f else { f with w := false, cow := true }
  | .restoreWriteClearCow => entry.map fun f =>
    if !f.v || !f.cow then f else { f with w := true, cow := false }
  | .replaceLeaf flags => entry.map fun f => if f.v then normalizedLeafFlags flags else f
  | .clearLeaf => none

def system : System Entry Op where
  init := (· = none)
  step entry op := some (apply entry op)

/-- Write access is given back to entries with both bits. -/
def StepOk (entry : Entry) : Op → Prop
  | .restoreWriteClearCow => ∀ f ∈ entry, f.a = true ∧ f.d = true
  | _ => True

/-- What the bits of a valid leaf should be. -/
def Ok (entry : Entry) : Prop :=
  ∀ f ∈ entry, f.v = true → f.leaf = true → f.a = true ∧ (f.w = true → f.d = true)

/-- `normalize_leaf_flags` sets both bits as they should be, whatever it is given. -/
lemma ok_normalized (f : PTEFlags) : Ok (some (normalizedLeafFlags f)) := by
  rintro _ ⟨⟩
  unfold normalizedLeafFlags
  split <;> simp_all

variable {entry : Entry}

lemma ok_remapFlags (f : PTEFlags) : Ok (remapFlags entry f) := by
  cases entry with
  | none => simp [remapFlags, Ok]
  | some _ => exact ok_normalized f

/-- **Step lemma**: every operation that meets the condition leaves the bits as they should be. -/
lemma Ok.apply {op : Op} (h : Ok entry) (hok : StepOk entry op) : Ok (apply entry op) := by
  cases op with
  | remapFlags f => exact ok_remapFlags f
  | tryMap | remapResidentFrame =>
    simp only [AccessedDirty.apply, remapResidentFrame]
    repeat' split
    all_goals first | exact h | exact ok_normalized _ | exact ok_remapFlags _ | simp [Ok]
  | markCowReadonly | restoreWriteClearCow =>
    rintro _ hf
    obtain ⟨f, rfl, rfl⟩ := Option.map_eq_some_iff.mp hf
    have hold := h f rfl
    split <;> grind [PTEFlags.leaf, StepOk]
  | replaceLeaf flags =>
    rintro _ hf
    obtain ⟨f, rfl, rfl⟩ := Option.map_eq_some_iff.mp hf
    split
    · exact ok_normalized flags _ rfl
    · exact h f rfl
  | clearLeaf => simp [AccessedDirty.apply, Ok]

/-- **Accessed and dirty bits**: after every sequence of operations in which write access is given
back to entries with both bits only, a valid leaf is accessed, and a writable one is dirty. -/
theorem leaf_accessed_dirty (h : system.Reachable StepOk entry) : Ok entry := by
  refine h.invariant ?_ ?_
  · rintro _ ⟨⟩
    simp [Ok]
  · rintro _ _ _ hinv hok ⟨⟩
    exact hinv.apply hok

/-- A readable page, or a writable one. -/
def userPage (w : Bool) : PTEFlags := ⟨true, true, w, false, true, false, false, false⟩

/-- A page that fork has marked gets its write access back from the fault of its last owner. -/
theorem leaf_accessed_dirty_cow :
    Ok (some ⟨true, true, true, false, true, true, true, false⟩) := by
  have hmapped : system.Reachable StepOk
      (some ⟨true, true, true, false, true, true, true, false⟩) :=
    .step (a := .tryMap (userPage true)) (.init rfl) trivial rfl
  have hmarked : system.Reachable StepOk
      (some ⟨true, true, false, false, true, true, true, true⟩) :=
    .step (a := .markCowReadonly) hmapped trivial rfl
  have hok : StepOk (some ⟨true, true, false, false, true, true, true, true⟩)
      .restoreWriteClearCow := by
    rintro f ⟨⟩
    exact ⟨rfl, rfl⟩
  exact leaf_accessed_dirty (.step (a := .restoreWriteClearCow) hmarked hok rfl)

/-- **A writable leaf without its dirty bit**: fork marks the page, `mprotect` keeps the mark but
not the bit, and a fault of the last owner gives write access back. -/
theorem writable_leaf_not_dirty :
    system.runWhile System.anyStep none [.tryMap (userPage true), .markCowReadonly,
      .remapResidentFrame (userPage false) true, .remapResidentFrame (userPage true) true,
      .restoreWriteClearCow] =
      some (some ⟨true, true, true, false, true, true, false, false⟩) := by
  decide

end Whusp.Mm.AccessedDirty
