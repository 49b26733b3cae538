import Minidox.Fork.DeepCopies
import Minidox.Fork.Supervisor

/-!
# Writes that fail

`write` checks its range before it writes anything, and the counter of page ids before
each page. A write that runs out of page ids fails with the pages before that one in
place, so that what it leaves depends on the bytes which those pages had.
-/

set_option autoImplicit false

namespace Minidox.Fork

open Foundation Attempt
open Std (ExtTreeMap)

theorem forall_mapError {α First Second : Type} {result : Except First α} {claim : Prop}
    (translate : First → Second) :
    (∀ error, result.mapError translate = .error error → claim) ↔
      ∀ error, result = .error error → claim := by
  cases result with
  | ok value =>
    exact iff_of_true (not_error) not_error
  | error error => exact ⟨fun held _ _ => held _ rfl, fun held _ _ => held _ rfl⟩

namespace PageBranch

/-- Every read of one branch returns what it returns on the other. -/
def SameReads (left right : PageBranch) : Prop :=
  ∀ path offset len, left.read path offset len = right.read path offset len

/-- When the write fails, every read returns what it returned before. -/
def FailsCleanly (branch : PageBranch) (nextPage : Nat) (path : String) (offset : Nat)
    (bytes : List UInt8) : Prop :=
  Ends (write path offset bytes) (branch, nextPage) fun result after =>
    ∀ error, result = .error error → after.1.SameReads branch

/-- If the range is in order and longer than the page ids suffice for, the part that they
suffice for is already there. -/
def Spared (branch : PageBranch) (nextPage : Nat) (path : String) (offset : Nat)
    (bytes : List UInt8) : Prop :=
  offset + bytes.length < Word64.bound → covered nextPage offset < bytes.length →
    branch.read path offset (covered nextPage offset) =
      .ok (bytes.take (covered nextPage offset))

theorem read_congr {left right : PageBranch} {path : String}
    (same : left.content path = right.content path) (offset len : Nat) :
    left.read path offset len = right.read path offset len := by
  rw [read_eq, read_eq, same]

/-- A write changes reads under its path only, and a failed one none of them just when
the part that it has written was there before. -/
theorem ends_write_reads (path : String) (offset : Nat) (bytes : List UInt8)
    (branch : PageBranch) (nextPage : Nat) :
    Ends (write path offset bytes) (branch, nextPage) fun result after =>
      (∀ other, other ≠ path → ∀ start len, after.1.read other start len =
        branch.read other start len) ∧
      ((∀ error, result = .error error → ∀ start len, after.1.read path start len =
        branch.read path start len) ↔ branch.Spared nextPage path offset bytes) := by
  refine (ends_write path offset bytes branch nextPage).mono ?_
  rintro result ⟨after, next⟩ (⟨inside, rfl, written⟩ | ⟨outside, rfl, unchanged⟩)
  · refine ⟨fun other apart => read_congr ?_, ?_⟩
    · rw [written, Function.update_of_ne apart]
    by_cases lasts : bytes.length ≤ covered nextPage offset
    · rw [if_pos lasts]
      exact ⟨fun _ _ short => absurd lasts (Nat.not_le.mpr short), fun _ => not_error⟩
    · rw [if_neg lasts]
      have length : (bytes.take (covered nextPage offset)).length = covered nextPage offset := by
        rw [List.length_take]
        omega
      have part : offset + covered nextPage offset < Word64.bound := by omega
      have content : after.content path = (branch.content path).write offset
          (bytes.take (covered nextPage offset)) := by
        rw [written, Function.update_self]
      constructor
      · intro same _ _
        rw [← same _ rfl, read_eq, if_pos part, content]
        have reads := ByteMap.read_write (branch.content path) offset
          (bytes.take (covered nextPage offset))
        rw [length] at reads
        rw [reads]
      · intro spared error _
        have there := spared inside (Nat.not_le.mp lasts)
        rw [read_eq, if_pos part, Except.ok.injEq] at there
        refine read_congr ?_
        have reads := ByteMap.write_read (branch.content path) offset (covered nextPage offset)
        rw [content, ← there, reads]
  · cases unchanged
    exact ⟨fun _ _ _ _ => rfl, fun _ inside => absurd inside outside, fun _ _ _ _ _ => rfl⟩

theorem failsCleanly_iff (branch : PageBranch) (nextPage : Nat) (path : String) (offset : Nat)
    (bytes : List UInt8) :
    branch.FailsCleanly nextPage path offset bytes ↔ branch.Spared nextPage path offset bytes := by
  obtain ⟨others, spared⟩ := ends_write_reads path offset bytes branch nextPage
  rw [← spared]
  constructor
  · intro clean error failed
    exact clean error failed path
  · intro clean error failed other
    by_cases here : other = path
    · rw [here]
      exact clean error failed
    · exact others other here

end PageBranch

namespace ForkForest

def SameReads (left right : ForkForest) : Prop :=
  ∀ vm, (∀ path offset len, ((readFile vm path offset len).exec left).1 =
      ((readFile vm path offset len).exec right).1) ∧
    ∀ guestAddress len, ((readMemory vm guestAddress len).exec left).1 =
      ((readMemory vm guestAddress len).exec right).1

def FailsCleanly (forest : ForkForest) (operation : ForestM Unit) : Prop :=
  Ends operation forest fun result after =>
    ∀ error, result = .error error → after.SameReads forest

theorem result_ask (forest : ForkForest) (vm : VmId) (ask : VmState → Except Error (List UInt8)) :
    ((lookupVm vm >>= fun state => Attempt.ofExcept (ask state)).exec forest).1 =
      forest.vms[vm]?.elim (.error (.vmNotFound vm)) ask := by
  simp only [lookupVm, exec_bind, exec_get]
  cases forest.vms[vm]? with
  | none => rfl
  | some state =>
    dsimp only [orThrow]
    simp only [exec_pure, exec_ofExcept, Option.elim_some]

theorem sameReads_insert {forest : ForkForest} {vm : VmId} {state : VmState}
    (found : forest.vms[vm]? = some state) (nextPage : Nat) (new : VmState) :
    SameReads { forest with nextPage, vms := forest.vms.insert vm new } forest ↔
      new.filesystem.SameReads state.filesystem ∧ ∀ guestAddress len,
        new.memory.read "" guestAddress len = state.memory.read "" guestAddress len := by
  have files (forest : ForkForest) (other : VmId) (path : String) (offset len : Nat) :=
    result_ask forest other fun state => state.filesystem.read path offset len
  have memory (forest : ForkForest) (other : VmId) (offset len : Nat) :=
    result_ask forest other fun state => state.memory.read "" offset len
  constructor
  · intro same
    obtain ⟨sameFiles, sameMemory⟩ := same vm
    constructor
    · intro path offset len
      have read := sameFiles path offset len
      simpa only [readFile, files, found, ExtTreeMap.getElem?_insert_self,
        Option.elim_some] using read
    · intro guestAddress len
      have read := sameMemory guestAddress len
      simpa only [readMemory, memory, found, ExtTreeMap.getElem?_insert_self,
        Option.elim_some] using read
  · rintro ⟨sameFiles, sameMemory⟩ other
    simp only [readFile, readMemory, files, memory, TreeMap.getElem?_insert_ite]
    by_cases here : other = vm
    · subst here
      simp only [if_pos, found, Option.elim_some]
      exact ⟨sameFiles, sameMemory⟩
    · simp only [if_neg here, implies_true, and_self]

theorem failsCleanly_writeBranch {forest : ForkForest} {vm : VmId}
    {call : VmState → ForestM Unit} {condition : VmState → Prop}
    (present : ∀ state, forest.vms[vm]? = some state →
      (forest.FailsCleanly (call state) ↔ condition state)) :
    forest.FailsCleanly (lookupVm vm >>= call) ↔
      ∀ state, forest.vms[vm]? = some state → condition state := by
  unfold FailsCleanly lookupVm at *
  simp only [ends_bind, ends_get]
  cases found : forest.vms[vm]? with
  | none =>
    constructor
    · intro _ state there
      cases there
    · intro _ _ _ _
      exact ⟨fun _ _ _ => rfl, fun _ _ => rfl⟩
  | some state =>
    dsimp only [orThrow]
    rw [ends_pure]
    exact (present state found).trans
      ⟨fun holds _ there => Option.some.inj there ▸ holds, fun holds => holds state rfl⟩

theorem failsCleanly_writeFile (forest : ForkForest) (vm : VmId) (path : String) (offset : Nat)
    (bytes : List UInt8) :
    forest.FailsCleanly (writeFile vm path offset bytes) ↔ ∀ state, forest.vms[vm]? = some state →
      state.filesystem.Spared forest.nextPage path offset bytes := by
  refine failsCleanly_writeBranch fun state found => ?_
  rw [← PageBranch.failsCleanly_iff]
  unfold FailsCleanly writeBranch PageBranch.FailsCleanly
  simp only [ends_within, sameReads_insert found, forall_mapError, implies_true, and_true]

theorem failsCleanly_writeMemory (forest : ForkForest) (vm : VmId) (guestAddress : Nat)
    (bytes : List UInt8) :
    forest.FailsCleanly (writeMemory vm guestAddress bytes) ↔
      ∀ state, forest.vms[vm]? = some state →
        state.memory.Spared forest.nextPage "" guestAddress bytes := by
  refine failsCleanly_writeBranch fun state found => ?_
  obtain ⟨_, spared⟩ :=
    PageBranch.ends_write_reads "" guestAddress bytes state.memory forest.nextPage
  have kept : state.filesystem.SameReads state.filesystem := fun _ _ _ => rfl
  rw [← spared]
  unfold FailsCleanly writeBranch
  simp only [ends_within, sameReads_insert found, forall_mapError, kept, true_and]
  exact Iff.rfl

end ForkForest

namespace Supervisor

variable {World Store Identity : Type} [Ord Identity]

structure SameReads (left right : Supervisor World Store Identity) : Prop where
  memory : ∀ vm guestAddress len, ((readMemory vm guestAddress len).exec left).1 =
    ((readMemory vm guestAddress len).exec right).1
  branch : ∀ vm : VmId, left.vms[vm]?.map (fun state => (state.filesystemCache,
    state.filesystemBranch)) = right.vms[vm]?.map fun state => (state.filesystemCache,
      state.filesystemBranch)
  filesystems : left.filesystems = right.filesystems

def FailsCleanly (supervisor : Supervisor World Store Identity)
    (operation : SupervisorM World Store Identity Unit) : Prop :=
  Ends operation supervisor fun result after =>
    ∀ error, result = .error error → after.SameReads supervisor

theorem result_readMemory (supervisor : Supervisor World Store Identity) (vm : VmId)
    (guestAddress len : Nat) :
    ((readMemory vm guestAddress len).exec supervisor).1 =
      supervisor.vms[vm]?.elim (.error (.vmNotFound vm)) fun state =>
        state.memory.read "" guestAddress len := by
  simp only [readMemory, lookupVm, exec_bind, exec_get]
  cases supervisor.vms[vm]? with
  | none => rfl
  | some state =>
    dsimp only [orThrow]
    simp only [exec_pure, exec_ofExcept, Option.elim_some]

theorem failsCleanly_writeMemory (supervisor : Supervisor World Store Identity) (vm : VmId)
    (guestAddress : Nat) (bytes : List UInt8) :
    supervisor.FailsCleanly (writeMemory vm guestAddress bytes) ↔
      ∀ state, supervisor.vms[vm]? = some state →
        state.memory.Spared supervisor.nextPage "" guestAddress bytes := by
  unfold FailsCleanly writeMemory lookupVm
  simp only [ends_bind, ends_get]
  cases found : supervisor.vms[vm]? with
  | none =>
    constructor
    · intro _ state there
      cases there
    · intro _ _ _
      exact ⟨fun _ _ _ => rfl, fun _ => rfl, rfl⟩
  | some state =>
    obtain ⟨_, spared⟩ :=
      PageBranch.ends_write_reads "" guestAddress bytes state.memory supervisor.nextPage
    have single : (∀ state', some state = some state' →
        state'.memory.Spared supervisor.nextPage "" guestAddress bytes) ↔
        state.memory.Spared supervisor.nextPage "" guestAddress bytes :=
      ⟨fun holds => holds state rfl, fun holds _ there => Option.some.inj there ▸ holds⟩
    dsimp only [orThrow]
    rw [single, ends_pure, ← spared]
    dsimp only
    rw [ends_within]
    simp only [forall_mapError]
    refine forall_congr' fun error => imp_congr_right fun failed => ?_
    constructor
    · intro same start len
      have read := same.memory vm start len
      rw [result_readMemory, result_readMemory, found] at read
      simp only [ExtTreeMap.getElem?_insert_self, Option.elim_some] at read
      exact read
    · intro same
      refine ⟨fun other start len => ?_, fun other => ?_, rfl⟩
      · simp only [result_readMemory, TreeMap.getElem?_insert_ite]
        by_cases here : other = vm
        · subst here
          simp only [if_pos, found, Option.elim_some]
          exact same start len
        · simp only [if_neg here]
      · simp only [TreeMap.getElem?_insert_ite]
        by_cases here : other = vm
        · subst here
          simp only [if_pos, found, Option.map_some]
        · simp only [if_neg here]

end Supervisor

/-- A failing write changes no read, of its branch or of any other, just when its range is
out of bounds, or the part of the bytes for which the page ids sufficed was there before. -/
theorem failed_write_changes_no_read_iff {World Store Identity : Type} [Ord Identity] :
    (∀ (branch : PageBranch) (nextPage : Nat) (path : String) (offset : Nat) (bytes : List UInt8),
      branch.FailsCleanly nextPage path offset bytes ↔
        branch.Spared nextPage path offset bytes) ∧
    (∀ (forest : ForkForest) (vm : VmId) (path : String) (offset : Nat) (bytes : List UInt8),
      forest.FailsCleanly (ForkForest.writeFile vm path offset bytes) ↔
        ∀ state, forest.vms[vm]? = some state →
          state.filesystem.Spared forest.nextPage path offset bytes) ∧
    (∀ (forest : ForkForest) (vm : VmId) (guestAddress : Nat) (bytes : List UInt8),
      forest.FailsCleanly (ForkForest.writeMemory vm guestAddress bytes) ↔
        ∀ state, forest.vms[vm]? = some state →
          state.memory.Spared forest.nextPage "" guestAddress bytes) ∧
    ∀ (supervisor : Supervisor World Store Identity) (vm : VmId) (guestAddress : Nat)
      (bytes : List UInt8),
      supervisor.FailsCleanly (Supervisor.writeMemory vm guestAddress bytes) ↔
        ∀ state, supervisor.vms[vm]? = some state →
          state.memory.Spared supervisor.nextPage "" guestAddress bytes :=
  ⟨PageBranch.failsCleanly_iff, ForkForest.failsCleanly_writeFile,
    ForkForest.failsCleanly_writeMemory, Supervisor.failsCleanly_writeMemory⟩

/-- One page id is left for a write to two pages. It fails, and its first byte is there. -/
theorem failed_write_changes_first_page :
    let ended := (PageBranch.write "" 4095 [1, 1]).exec (PageBranch.empty, Word64.bound - 2)
    ended.1 = .error .pageIdOverflow ∧
      PageBranch.empty.read "" 4095 1 = .ok [0] ∧ ended.2.1.read "" 4095 1 = .ok [1] := by
  decide +kernel

end Minidox.Fork
