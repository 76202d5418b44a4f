import Whusp.Mm.MemorySet

/-!
# The initial user stack of exec

`plan_user_stack` and `write_user_stack` of `task/exec.rs`: the argument and environment strings
from the top of the stack down, 16 bytes for `AT_RANDOM`, then the table of `argc`, `argv`, `envp`
and the auxiliary vector.  The plan is checked against the lower end of the stack at every step.
-/

namespace Whusp.Task

open Whusp.Lib (Byte)
open Whusp.Lib.Codec (encodeLE)
open Whusp.Mm (checkedAdd USER_STACK_SIZE)
open Whusp.Syscall (USIZE_RANGE)

inductive ExecErrno where
  | ENOEXEC
  | E2BIG
  | ENOMEM
  | ESRCH
  | EAGAIN
  | EFAULT
  deriving DecidableEq

def AT_NULL : Nat := 0
def AT_PHDR : Nat := 3
def AT_PHENT : Nat := 4
def AT_PHNUM : Nat := 5
def AT_PAGESZ : Nat := 6
def AT_BASE : Nat := 7
def AT_FLAGS : Nat := 8
def AT_ENTRY : Nat := 9
def AT_UID : Nat := 11
def AT_EUID : Nat := 12
def AT_GID : Nat := 13
def AT_EGID : Nat := 14
def AT_HWCAP : Nat := 16
def AT_CLKTCK : Nat := 17
def AT_SECURE : Nat := 23
def AT_RANDOM : Nat := 25
def AT_SYSINFO_EHDR : Nat := 33

/-- `size_of::<usize>()`. -/
def WORD : Nat := 8

structure ExecStackInfo where
  atEntry : Nat
  phdr : Nat
  phent : Nat
  phnum : Nat
  interpBase : Nat
  uid : Nat
  euid : Nat
  gid : Nat
  egid : Nat
  /-- `elf_hwcap()`, which asks the processor on LoongArch. -/
  hwcap : Nat
  sysinfoEhdr : Nat

structure ExecStackLayout where
  stackTop : Nat
  userSp : Nat
  argvBase : Nat
  envpBase : Nat
  auxvBase : Nat
  randomAddr : Nat
  argPtrs : List Nat
  envPtrs : List Nat
  auxv : List (Nat × Nat)

/-! ## Checked arithmetic -/

def alignDown (value align : Nat) : Nat := value / align * align

def alignUp (value align : Nat) : Nat := (value + (align - 1)) / align * align

def stackLow (stackTop : Nat) : Except ExecErrno Nat :=
  if USER_STACK_SIZE ≤ stackTop then .ok (stackTop - USER_STACK_SIZE) else .error .E2BIG

def checkedStackSub (sp amount low : Nat) : Except ExecErrno Nat :=
  if sp < amount then .error .E2BIG
  else if sp - amount < low then .error .E2BIG
  else .ok (sp - amount)

def checkedStackAlignDown (sp align low : Nat) : Except ExecErrno Nat :=
  if alignDown sp align < low then .error .E2BIG else .ok (alignDown sp align)

def checkedMul (a b : Nat) : Option Nat := if a * b < USIZE_RANGE then some (a * b) else none

/-- The chain of checked operations of `checked_table_size`. -/
def tableSize? (argCount envCount auxvCount : Nat) : Option Nat := do
  let value ← checkedAdd 1 (← checkedAdd argCount 1)
  let value ← checkedAdd value (← checkedAdd envCount 1)
  let words ← checkedAdd value (← checkedMul (← checkedAdd auxvCount 1) 2)
  checkedMul words WORD

def checkedTableSize (argCount envCount auxvCount : Nat) : Except ExecErrno Nat :=
  match tableSize? argCount envCount auxvCount with
  | some size => .ok size
  | none => .error .E2BIG

/-! ## The plan -/

/-- The address of the string, and the stack pointer below it. -/
def planUserString (userSp low : Nat) (string : List Byte) : Except ExecErrno (Nat × Nat) :=
  match checkedAdd string.length 1 with
  | none => .error .E2BIG
  | some stringLen => do
    let addr ← checkedStackSub userSp stringLen low
    let userSp ← checkedStackAlignDown addr WORD low
    return (addr, userSp)

def planUserStrings (userSp low : Nat) : List (List Byte) → Except ExecErrno (List Nat × Nat)
  | [] => .ok ([], userSp)
  | string :: strings => do
    let (addr, userSp) ← planUserString userSp low string
    let (ptrs, userSp) ← planUserStrings userSp low strings
    return (addr :: ptrs, userSp)

def auxv (info : ExecStackInfo) (randomAddr : Nat) : List (Nat × Nat) :=
  [(AT_PHDR, info.phdr), (AT_PHENT, info.phent), (AT_PHNUM, info.phnum), (AT_PAGESZ, PAGE_SIZE),
    (AT_ENTRY, info.atEntry), (AT_BASE, info.interpBase), (AT_FLAGS, 0), (AT_UID, info.uid),
    (AT_EUID, info.euid), (AT_GID, info.gid), (AT_EGID, info.egid), (AT_HWCAP, info.hwcap),
    (AT_CLKTCK, 100), (AT_SECURE, 0), (AT_RANDOM, randomAddr)] ++
  if info.sysinfoEhdr ≠ 0 then [(AT_SYSINFO_EHDR, info.sysinfoEhdr)] else []

/-- The second half of `plan_user_stack`, below the strings. -/
def planTable (stackTop low stringSp : Nat) (argPtrs envPtrs : List Nat) (info : ExecStackInfo) :
    Except ExecErrno ExecStackLayout := do
  let randomAddr ← checkedStackSub stringSp 16 low
  let auxv := auxv info randomAddr
  let tableSize ← checkedTableSize argPtrs.length envPtrs.length auxv.length
  let tableTop ← checkedStackAlignDown randomAddr 16 low
  let tableBottom ← checkedStackSub tableTop tableSize low
  let userSp ← checkedStackAlignDown tableBottom 16 low
  let argvBase := userSp + WORD
  let envpBase := argvBase + (argPtrs.length + 1) * WORD
  let auxvBase := envpBase + (envPtrs.length + 1) * WORD
  return ⟨stackTop, userSp, argvBase, envpBase, auxvBase, randomAddr, argPtrs, envPtrs, auxv⟩

def planUserStack (stackTop : Nat) (args envs : List (List Byte)) (info : ExecStackInfo) :
    Except ExecErrno ExecStackLayout := do
  let low ← stackLow stackTop
  let (envPtrs, stringSp) ← planUserStrings stackTop low envs
  let (argPtrs, stringSp) ← planUserStrings stringSp low args
  planTable stackTop low stringSp argPtrs envPtrs info

/-! ## The image of the stack -/

/-- The words of the table at `base`, one after the other. -/
def wordWrites (base : Nat) : List Nat → List (Nat × List Byte)
  | [] => []
  | value :: values => (base, encodeLE WORD value) :: wordWrites (base + WORD) values

def stringWrites (ptrs : List Nat) (strings : List (List Byte)) : List (Nat × List Byte) :=
  (ptrs.zip strings).map fun (addr, string) => (addr, string ++ [0])

/-- The calls of `write_stack_bytes` that `write_user_stack` makes. -/
def stackWrites (layout : ExecStackLayout) (args envs : List (List Byte)) :
    List (Nat × List Byte) :=
  stringWrites layout.envPtrs envs ++ stringWrites layout.argPtrs args ++
    [(layout.randomAddr, List.replicate 16 0)] ++
    wordWrites layout.userSp [layout.argPtrs.length] ++
    wordWrites layout.argvBase (layout.argPtrs ++ [0]) ++
    wordWrites layout.envpBase (layout.envPtrs ++ [0]) ++
    wordWrites layout.auxvBase
      ((layout.auxv.flatMap fun (key, value) => [key, value]) ++ [AT_NULL, 0])

/-- `stack_offset` and the slice after it. -/
def writeStackBytes (layout : ExecStackLayout) (buffer : List Byte) :
    Nat × List Byte → Except ExecErrno (List Byte)
  | (addr, bytes) =>
    if layout.userSp ≤ addr ∧ addr + bytes.length ≤ layout.stackTop then
      .ok (buffer.take (addr - layout.userSp) ++ bytes ++
        buffer.drop (addr - layout.userSp + bytes.length))
    else .error .EFAULT

/-- `write_user_stack`, with the answer of `copy_to_user`. -/
def writeUserStack (layout : ExecStackLayout) (args envs : List (List Byte)) (copied : Bool) :
    Except ExecErrno (List Byte) := do
  let stack ← (stackWrites layout args envs).foldlM (writeStackBytes layout)
    (List.replicate (layout.stackTop - layout.userSp) 0)
  if copied then return stack else throw .EFAULT

/-! ## What fits -/

def stringsNeed (strings : List (List Byte)) : Nat :=
  (strings.map fun string => alignUp (string.length + 1) WORD).sum

def tableNeed (argCount envCount auxvCount : Nat) : Nat :=
  (1 + (argCount + 1) + (envCount + 1) + (auxvCount + 1) * 2) * WORD

def auxvCount (info : ExecStackInfo) : Nat := if info.sysinfoEhdr ≠ 0 then 16 else 15

def stackNeed (args envs : List (List Byte)) (info : ExecStackInfo) : Nat :=
  alignUp (stringsNeed envs + stringsNeed args + 16) 16 +
    alignUp (tableNeed args.length envs.length (auxvCount info)) 16

lemma length_auxv (info : ExecStackInfo) (randomAddr : Nat) :
    (auxv info randomAddr).length = auxvCount info := by
  unfold auxv auxvCount
  split <;> rfl

lemma tableSize?_eq_some_iff {argCount envCount auxvCount size : Nat} :
    tableSize? argCount envCount auxvCount = some size ↔
      tableNeed argCount envCount auxvCount < USIZE_RANGE ∧
        tableNeed argCount envCount auxvCount = size := by
  unfold tableNeed
  simp only [tableSize?, checkedAdd, checkedMul, Option.bind_eq_bind, Option.bind_eq_some_iff,
    Option.ite_none_right_eq_some, Option.some.injEq]
  constructor
  · simp
  · intro hsize
    have hle := hsize.1
    unfold WORD USIZE_RANGE at hle
    refine ⟨_, ⟨?_, rfl⟩, _, ⟨?_, rfl⟩, _, ⟨?_, rfl⟩, _, ⟨?_, rfl⟩, _, ⟨?_, rfl⟩, _, ⟨?_, rfl⟩, _,
      ⟨?_, rfl⟩, hsize⟩ <;> unfold USIZE_RANGE <;> omega

/-- The table size overflows only where its value does. -/
lemma checkedTableSize_eq (argCount envCount auxvCount : Nat) :
    checkedTableSize argCount envCount auxvCount =
      if tableNeed argCount envCount auxvCount < USIZE_RANGE then
        .ok (tableNeed argCount envCount auxvCount) else .error .E2BIG := by
  unfold checkedTableSize
  cases hsize : tableSize? argCount envCount auxvCount with
  | some size =>
    obtain ⟨hlt, rfl⟩ := tableSize?_eq_some_iff.mp hsize
    rw [if_pos hlt]
  | none =>
    rw [if_neg]
    intro hlt
    simp [tableSize?_eq_some_iff.mpr ⟨hlt, rfl⟩] at hsize

/-! ### Strings -/

lemma checkedStackSub_eq (sp amount low : Nat) : checkedStackSub sp amount low =
      if low + amount ≤ sp then .ok (sp - amount) else .error .E2BIG := by
  unfold checkedStackSub
  split_ifs <;> first | rfl | omega

variable {userSp n sp low stackTop : Nat}

/-- A string takes its length and its final zero byte, rounded up to words. -/
lemma planUserString_eq (low : Nat) (string : List Byte) (hsp : WORD ∣ userSp)
    (hlt : userSp < USIZE_RANGE) : planUserString userSp low string =
      if low + alignUp (string.length + 1) WORD ≤ userSp then
        .ok (userSp - (string.length + 1), userSp - alignUp (string.length + 1) WORD)
      else .error .E2BIG := by
  have hround : alignDown (userSp - (string.length + 1)) WORD =
      userSp - alignUp (string.length + 1) WORD := by
    unfold alignDown alignUp
    unfold WORD at *
    omega
  have hup : string.length + 1 ≤ alignUp (string.length + 1) WORD := by
    unfold alignUp WORD
    omega
  have hroom (h : string.length + 1 ≤ userSp) : alignUp (string.length + 1) WORD ≤ userSp := by
    unfold alignUp
    unfold WORD at *
    omega
  unfold planUserString
  by_cases hlen : string.length + 1 < USIZE_RANGE
  · rw [checkedAdd, if_pos hlen]
    show (checkedStackSub userSp (string.length + 1) low >>= fun addr =>
      checkedStackAlignDown addr WORD low >>= fun sp => pure (addr, sp)) = _
    rw [checkedStackSub_eq]
    by_cases hfits : low + (string.length + 1) ≤ userSp
    · rw [if_pos hfits]
      show (checkedStackAlignDown (userSp - (string.length + 1)) WORD low >>= fun sp =>
        pure (userSp - (string.length + 1), sp)) = _
      rw [checkedStackAlignDown, hround]
      split_ifs <;> first | rfl | omega
    · rw [if_neg hfits, if_neg (by omega)]
      rfl
  · -- a string that long does not fit either
    rw [checkedAdd, if_neg hlen, if_neg (by omega)]

/-- **Strings** fit exactly if their rounded sizes do. -/
theorem planUserStrings_cases (low : Nat) (strings : List (List Byte)) (hsp : WORD ∣ userSp)
    (hlt : userSp < USIZE_RANGE) (hle : low ≤ userSp) :
    (low + stringsNeed strings ≤ userSp ∧ ∃ ptrs, ptrs.length = strings.length ∧
      planUserStrings userSp low strings = .ok (ptrs, userSp - stringsNeed strings)) ∨
    (userSp < low + stringsNeed strings ∧ planUserStrings userSp low strings = .error .E2BIG) := by
  induction strings generalizing userSp with
  | nil => exact .inl ⟨hle, [], rfl, rfl⟩
  | cons string strings ih =>
    have hneed : stringsNeed (string :: strings) =
        alignUp (string.length + 1) WORD + stringsNeed strings := List.sum_cons
    have hdvd : WORD ∣ alignUp (string.length + 1) WORD := dvd_mul_left ..
    generalize hfirst : alignUp (string.length + 1) WORD = first at *
    have hplan := planUserString_eq low string hsp hlt
    rw [hfirst] at hplan
    by_cases hfits : low + first ≤ userSp
    · rw [if_pos hfits] at hplan
      have hsp' : WORD ∣ userSp - first := Nat.dvd_sub hsp hdvd
      rcases ih hsp' (by omega) (by omega) with ⟨hrest, ptrs, hlen, hok⟩ | ⟨hrest, herr⟩
      · refine .inl ⟨by omega, (userSp - (string.length + 1)) :: ptrs, by simp [hlen], ?_⟩
        rw [planUserStrings, hplan]
        show (planUserStrings (userSp - first) low strings >>= fun (ptrs, sp) =>
          pure ((userSp - (string.length + 1)) :: ptrs, sp)) = _
        rw [hok, hneed, Nat.sub_sub]
        rfl
      · refine .inr ⟨by omega, ?_⟩
        rw [planUserStrings, hplan]
        show (planUserStrings (userSp - first) low strings >>= fun (ptrs, sp) =>
          pure ((userSp - (string.length + 1)) :: ptrs, sp)) = _
        rw [herr]
        rfl
    · rw [if_neg hfits] at hplan
      refine .inr ⟨by omega, ?_⟩
      rw [planUserStrings, hplan]
      rfl

/-! ### The whole stack -/

lemma stringsNeed_dvd (strings : List (List Byte)) : WORD ∣ stringsNeed strings := by
  induction strings with
  | nil => exact dvd_zero _
  | cons string strings ih => exact Nat.dvd_add (Nat.dvd_mul_left ..) ih

/-- An aligned address minus a size, rounded down, is the address minus the size rounded up. -/
lemma alignDown_sub (hsp : 16 ∣ sp) : alignDown (sp - n) 16 = sp - alignUp n 16 := by
  unfold alignDown alignUp
  omega

lemma le_alignUp (n : Nat) : n ≤ alignUp n 16 := by
  unfold alignUp
  omega

lemma alignUp_le (hsp : 16 ∣ sp) (hn : n ≤ sp) : alignUp n 16 ≤ sp := by
  unfold alignUp
  omega

/-- Rounding down an address keeps it above an aligned lower end. -/
lemma checkedStackAlignDown_eq (hsp : 16 ∣ sp) (hn : low + n ≤ sp) (hlow : 16 ∣ low) :
    checkedStackAlignDown (sp - n) 16 low = .ok (sp - alignUp n 16) := by
  have hroom : alignUp n 16 ≤ sp - low := alignUp_le (Nat.dvd_sub hsp hlow) (by omega)
  rw [checkedStackAlignDown, alignDown_sub hsp, if_neg (by omega)]

/-- **The table** fits exactly if its rounded size does, with the strings above it. -/
theorem planTable_cases {taken : Nat} (argPtrs envPtrs : List Nat)
    (info : ExecStackInfo) (htop : 16 ∣ stackTop) (hlow : 16 ∣ low) (hlt : stackTop < USIZE_RANGE)
    (htaken : low + taken ≤ stackTop) {need : Nat} (hneed : need = alignUp (taken + 16) 16 +
      alignUp (tableNeed argPtrs.length envPtrs.length (auxvCount info)) 16) :
    (low + need ≤ stackTop ∧ ∃ layout,
      planTable stackTop low (stackTop - taken) argPtrs envPtrs info = .ok layout ∧
        layout.userSp = stackTop - need) ∨ (stackTop < low + need ∧
      planTable stackTop low (stackTop - taken) argPtrs envPtrs info = .error .E2BIG) := by
  have hstrings := le_alignUp (taken + 16)
  have htable := le_alignUp (tableNeed argPtrs.length envPtrs.length (auxvCount info))
  have hrandom := checkedStackSub_eq (stackTop - taken) 16 low
  have hsize (addr : Nat) :
      checkedTableSize argPtrs.length envPtrs.length (auxv info addr).length = _ :=
    (congrArg _ (length_auxv info addr)).trans (checkedTableSize_eq ..)
  generalize tableNeed argPtrs.length envPtrs.length (auxvCount info) = table at *
  by_cases h16 : low + 16 ≤ stackTop - taken
  case neg =>
    rw [if_neg h16] at hrandom
    exact .inr ⟨by omega, by simp [planTable, hrandom, bind, Except.bind]⟩
  rw [if_pos h16, Nat.sub_sub] at hrandom
  have halign := checkedStackAlignDown_eq htop (by omega : low + (taken + 16) ≤ stackTop) hlow
  by_cases hrange : table < USIZE_RANGE
  case neg =>
    refine .inr ⟨by omega, ?_⟩
    simp only [if_neg hrange] at hsize
    simp [planTable, hrandom, hsize, bind, Except.bind]
  simp only [if_pos hrange] at hsize
  have hdvd : 16 ∣ stackTop - alignUp (taken + 16) 16 := Nat.dvd_sub htop (Nat.dvd_mul_left ..)
  have hroom := alignUp_le htop (by omega : taken + 16 ≤ stackTop)
  generalize alignUp (taken + 16) 16 = strings at *
  have hsub := checkedStackSub_eq (stackTop - strings) table low
  by_cases hfits : low + table ≤ stackTop - strings
  case neg =>
    rw [if_neg hfits] at hsub
    exact .inr ⟨by omega, by simp [planTable, hrandom, hsize, halign, hsub, bind, Except.bind]⟩
  rw [if_pos hfits] at hsub
  have hsp := checkedStackAlignDown_eq hdvd hfits hlow
  have hroom' := alignUp_le (Nat.dvd_sub hdvd hlow) (by omega : table ≤ stackTop - strings - low)
  refine .inl ⟨by omega, ?_⟩
  simp only [planTable, hrandom, hsize, halign, hsub, hsp, bind, Except.bind, pure, Except.pure]
  subst hneed
  exact ⟨_, rfl, Nat.sub_sub ..⟩

/-- **The plan** succeeds exactly if what the stack needs fits below its top. -/
theorem planUserStack_cases (args envs : List (List Byte)) (info : ExecStackInfo)
    (htop : 16 ∣ stackTop) (hlt : stackTop < USIZE_RANGE) (hle : USER_STACK_SIZE ≤ stackTop) :
    (stackNeed args envs info ≤ USER_STACK_SIZE ∧
      ∃ layout, planUserStack stackTop args envs info = .ok layout ∧
        layout.userSp = stackTop - stackNeed args envs info) ∨
    (USER_STACK_SIZE < stackNeed args envs info ∧
      planUserStack stackTop args envs info = .error .E2BIG) := by
  have hlow16 : 16 ∣ stackTop - USER_STACK_SIZE := Nat.dvd_sub htop (by decide)
  have hword : WORD ∣ 16 := by decide
  have hadd : stackTop - USER_STACK_SIZE + USER_STACK_SIZE = stackTop := Nat.sub_add_cancel hle
  have hlow : stackLow stackTop = .ok (stackTop - USER_STACK_SIZE) := if_pos hle
  have hneed : stackNeed args envs info = alignUp (stringsNeed envs + stringsNeed args + 16) 16 +
    alignUp (tableNeed args.length envs.length (auxvCount info)) 16 := rfl
  have hstrings := le_alignUp (stringsNeed envs + stringsNeed args + 16)
  generalize stackTop - USER_STACK_SIZE = low at *
  rcases planUserStrings_cases low envs (hword.trans htop) hlt (by omega) with
    ⟨henvs, envPtrs, henvLen, henvEq⟩ | ⟨henvs, henvEq⟩
  case inr => exact .inr ⟨by omega, by simp [planUserStack, hlow, henvEq, bind, Except.bind]⟩
  have hdvd := Nat.dvd_sub (hword.trans htop) (stringsNeed_dvd envs)
  rcases planUserStrings_cases low args hdvd (by omega) (by omega) with
    ⟨hargs, argPtrs, hargLen, hargEq⟩ | ⟨hargs, hargEq⟩
  case inr =>
    exact .inr ⟨by omega, by simp [planUserStack, hlow, henvEq, hargEq, bind, Except.bind]⟩
  rw [Nat.sub_sub] at hargEq
  rw [← hargLen, ← henvLen] at hneed
  have hplan : planUserStack stackTop args envs info =
      planTable stackTop low (stackTop - (stringsNeed envs + stringsNeed args)) argPtrs envPtrs
        info := by
    simp [planUserStack, hlow, henvEq, hargEq, bind, Except.bind]
  rw [hplan]
  rcases planTable_cases argPtrs envPtrs info htop hlow16 hlt (by omega) hneed with
    ⟨hfits, hok⟩ | ⟨hfits, herr⟩
  · exact .inl ⟨by omega, hok⟩
  · exact .inr ⟨by omega, herr⟩

end Whusp.Task
