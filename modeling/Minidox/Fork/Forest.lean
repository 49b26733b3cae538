import Minidox.Cache.Basic
import Minidox.Foundation.Attempt
import Minidox.Foundation.Overlay
import Minidox.Foundation.Pages
import Minidox.Foundation.Word64

/-!
# Fork forests

`ForkForest` of `minidox-fork/src/lib.rs`: the memory and the files of a family of VMs
as pages in chains of immutable generations. A fork seals the pages that the source
wrote and lets both VMs go on from the same chain.
-/

set_option autoImplicit false

namespace Minidox.Fork

open Foundation Attempt
open Std (ExtTreeMap)

def pageSize : Nat := 4096

abbrev VmId := Nat

inductive Error where
  | vmNotFound (vm : VmId)
  | rangeOverflow
  | pageIdOverflow
  | io (error : Cache.IoError)
  | cache (error : Cache.CacheError)
  deriving DecidableEq, Repr

structure Page where
  id : Nat
  bytes : ByteMap

/-- A page of a file, by path and page number. Memory has the empty path. -/
abbrev FilePage := String × Nat

instance : Ord FilePage := lexOrd

abbrev Pages := ExtTreeMap FilePage Page

/-- The generation chain has the newest generation first. -/
structure PageBranch where
  base : List Pages
  writes : Pages

/-- `write` works on a branch and the page counter of its forest. -/
abbrev PageM := Attempt (PageBranch × Nat) Error

namespace PageBranch

def empty : PageBranch := { base := [∅], writes := ∅ }

/-- What becomes of the branch, and its child. -/
def fork (branch : PageBranch) : PageBranch × PageBranch :=
  let base := Overlay.push branch.writes branch.base
  ({ base, writes := ∅ }, { base, writes := ∅ })

def page (branch : PageBranch) (key : FilePage) : Option Page :=
  Overlay.lookup (branch.writes :: branch.base) key

/-- The bytes of a page, zeros when it was never written. -/
def pageBytes (branch : PageBranch) (path : String) (number : Nat) : ByteMap :=
  (branch.page (path, number)).elim ByteMap.zero Page.bytes

/-- One page of `write`. The counter is checked before the page is published. -/
def writePage (path : String) (number place : Nat) (data : List UInt8) : PageM Unit := do
  let (branch, nextPage) ← get
  let contents := (branch.pageBytes path number).write place data
  let next ← orThrow .pageIdOverflow (Word64.checkedAdd nextPage 1)
  set ({ branch with writes := branch.writes.insert (path, number) ⟨nextPage, contents⟩ }, next)

/-- The loop of `write`. Every round moves the cursor, so that the length of the range
bounds the number of rounds. -/
def writeFrom (path : String) (offset : Nat) (bytes : List UInt8) (stop : Nat) :
    (rounds cursor : Nat) → PageM Unit
  | 0, _ => pure ()
  | rounds + 1, cursor => onlyIf (cursor < stop) do
    let count := Pages.span pageSize cursor stop
    writePage path (cursor / pageSize) (cursor % pageSize)
      ((bytes.drop (cursor - offset)).take count)
    writeFrom path offset bytes stop rounds (cursor + count)

def write (path : String) (offset : Nat) (bytes : List UInt8) : PageM Unit := do
  let stop ← orThrow .rangeOverflow (Word64.checkedAdd offset bytes.length)
  writeFrom path offset bytes stop bytes.length offset

def readFrom (branch : PageBranch) (path : String) (stop : Nat) :
    (rounds cursor : Nat) → List UInt8
  | 0, _ => []
  | rounds + 1, cursor =>
    if cursor < stop then
      let count := Pages.span pageSize cursor stop
      (branch.pageBytes path (cursor / pageSize)).read (cursor % pageSize) count ++
        branch.readFrom path stop rounds (cursor + count)
    else []

def read (branch : PageBranch) (path : String) (offset len : Nat) : Except Error (List UInt8) :=
  match Word64.checkedAdd offset len with
  | none => .error .rangeOverflow
  | some stop => .ok (branch.readFrom path stop len offset)

end PageBranch

structure VmState where
  memory : PageBranch
  filesystem : PageBranch

structure ForkForest where
  nextVm : Nat
  nextPage : Nat
  vms : ExtTreeMap VmId VmState

abbrev ForestM := Attempt ForkForest Error

namespace ForkForest

def new : ForkForest := { nextVm := 1, nextPage := 1, vms := ∅ }

def insertVm (state : VmState) : ForestM VmId := do
  let forest ← get
  set { forest with
    nextVm := Word64.wrappingAdd forest.nextVm 1
    vms := forest.vms.insert forest.nextVm state }
  pure forest.nextVm

def createVm : ForestM VmId :=
  insertVm { memory := PageBranch.empty, filesystem := PageBranch.empty }

def lookupVm (vm : VmId) : ForestM VmState := do
  let forest ← get
  orThrow (.vmNotFound vm) forest.vms[vm]?

def forkVm (source : VmId) : ForestM VmId := do
  let state ← lookupVm source
  let (memory, childMemory) := state.memory.fork
  let (filesystem, childFilesystem) := state.filesystem.fork
  modify fun forest => { forest with vms := forest.vms.insert source { memory, filesystem } }
  insertVm { memory := childMemory, filesystem := childFilesystem }

def removeVm (vm : VmId) : ForestM Unit := do
  let _ ← lookupVm vm
  modify fun forest => { forest with vms := forest.vms.erase vm }

/-- A write to one of the branches of a VM. `update` puts the branch back. -/
def writeBranch (vm : VmId) (branch : PageBranch) (update : PageBranch → VmState) (path : String)
    (offset : Nat) (bytes : List UInt8) : ForestM Unit :=
  within (fun forest => (branch, forest.nextPage))
    (fun pair forest =>
      { forest with nextPage := pair.2, vms := forest.vms.insert vm (update pair.1) })
    id (PageBranch.write path offset bytes)

def writeFile (vm : VmId) (path : String) (offset : Nat) (bytes : List UInt8) : ForestM Unit := do
  let state ← lookupVm vm
  writeBranch vm state.filesystem (fun filesystem => { state with filesystem }) path offset bytes

def writeMemory (vm : VmId) (guestAddress : Nat) (bytes : List UInt8) : ForestM Unit := do
  let state ← lookupVm vm
  writeBranch vm state.memory (fun memory => { state with memory }) "" guestAddress bytes

def readFile (vm : VmId) (path : String) (offset len : Nat) : ForestM (List UInt8) := do
  let state ← lookupVm vm
  Attempt.ofExcept (state.filesystem.read path offset len)

def readMemory (vm : VmId) (guestAddress len : Nat) : ForestM (List UInt8) := do
  let state ← lookupVm vm
  Attempt.ofExcept (state.memory.read "" guestAddress len)

end ForkForest

inductive Action where
  | createVm
  | forkVm (source : VmId)
  | removeVm (vm : VmId)
  | writeFile (vm : VmId) (path : String) (offset : Nat) (bytes : List UInt8)
  | writeMemory (vm : VmId) (guestAddress : Nat) (bytes : List UInt8)
  | readFile (vm : VmId) (path : String) (offset len : Nat)
  | readMemory (vm : VmId) (guestAddress len : Nat)
  deriving DecidableEq, Repr

def Action.makesVm : Action → Bool
  | .createVm | .forkVm _ => true
  | _ => false

inductive Reply where
  | vm (id : VmId)
  | done
  | bytes (data : List UInt8)
  | failed (error : Error)
  deriving DecidableEq, Repr

namespace ForkForest

def answer {α : Type} (forest : ForkForest) (operation : ForestM α) (reply : α → Reply) :
    ForkForest × Reply :=
  match operation.exec forest with
  | (.ok value, after) => (after, reply value)
  | (.error error, after) => (after, .failed error)

def step (forest : ForkForest) : Action → ForkForest × Reply
  | .createVm => forest.answer createVm .vm
  | .forkVm source => forest.answer (forkVm source) .vm
  | .removeVm vm => forest.answer (removeVm vm) fun _ => .done
  | .writeFile vm path offset bytes => forest.answer (writeFile vm path offset bytes) fun _ => .done
  | .writeMemory vm guestAddress bytes =>
    forest.answer (writeMemory vm guestAddress bytes) fun _ => .done
  | .readFile vm path offset len => forest.answer (readFile vm path offset len) .bytes
  | .readMemory vm guestAddress len => forest.answer (readMemory vm guestAddress len) .bytes

end ForkForest

end Minidox.Fork
