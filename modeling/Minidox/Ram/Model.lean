import Minidox.Ram.Host

/-!
# Guest RAM

`KvmGuestRam` of `minidox-vmm/src/ram.rs`: the RAM of a guest as a private mapping of
pages of generation files. Until its first fork the RAM owns its generation and a fork
copies the dirty pages into it. Later forks copy them to a new generation.
-/

set_option autoImplicit false

namespace Minidox.Ram

open Foundation Attempt
open Std (ExtTreeMap ExtTreeSet)

/-- `memory` is what is mapped at `base`. The indexes below `len / RAM_PAGE_SIZE` are those of
the vector of pages. -/
structure KvmGuestRam where
  memory : PrivateMapping Inode
  len : Nat
  pages : Nat → RamPage
  hostDirty : ExtTreeSet Nat
  isPrivate : Bool
  sealed : Bool

structure RamForkPreparation where
  generation : RamGeneration
  pages : ExtTreeMap Nat RamPage
  sealsExistingGeneration : Bool

structure RamForkBranch where
  len : Nat
  pages : Nat → RamPage

/-!
## Mappings
-/

abbrev MapM := Attempt (RamHost × PrivateMapping Inode) RamError

def MapM.onHost {α : Type} (operation : HostM α) : MapM α :=
  within Prod.fst (fun host state => (host, state.2)) id operation

/-- `map_run`, always private. -/
def mapRun (startPage pageCount : Nat) (generation : RamGeneration) (generationOffset : Nat) :
    MapM Unit := do
  MapM.onHost (call "map RAM run")
  modify fun (host, memory) =>
    (host, memory.map ramPageSize startPage pageCount generation.file generationOffset)

/-- A page is the one that a run has to go on with after `count` pages. The offsets are those of
pages in files, so that their sums do not overflow. -/
def Continues (first page : RamPage) (count : Nat) : Prop :=
  page.generation.id = first.generation.id ∧ page.offset = first.offset + count * ramPageSize

instance (first page : RamPage) (count : Nat) : Decidable (Continues first page count) :=
  inferInstanceAs (Decidable (_ ∧ _))

section Table

/-! The vector of pages has `pageCount` elements. -/

variable (pageCount : Nat) (pages : Nat → RamPage)

/-- `self.pages[index]`. -/
def pageAt (index : Nat) : MapM RamPage := do
  require (index < pageCount) (.outOfRange index pageCount)
  pure (pages index)

/-- The inner loop of `map_all_pages`. Every round moves `stop`. -/
def extendAll (start : Nat) (first : RamPage) : (rounds stop : Nat) → MapM Nat
  | 0, stop => pure stop
  | rounds + 1, stop =>
    if stop < pageCount then do
      let page ← pageAt pageCount pages stop
      if Continues first page (stop - start) then extendAll start first rounds (stop + 1)
      else pure stop
    else pure stop

/-- The outer loop of `map_all_pages`. Every run takes at least one page. -/
def mapAllFrom : (rounds start : Nat) → MapM Unit
  | 0, _ => pure ()
  | rounds + 1, start =>
    if start < pageCount then do
      let first ← pageAt pageCount pages start
      let stop ← extendAll pageCount pages start first (pageCount - start) (start + 1)
      mapRun start (stop - start) first.generation first.offset
      mapAllFrom rounds stop
    else pure ()

def mapAllPages : MapM Unit := mapAllFrom pageCount pages pageCount 0

/-- The inner loop of `map_selected_pages`, and what is left in its iterator. -/
def extendSelected (start : Nat) (first : RamPage) :
    (selected : List Nat) → (stop : Nat) → MapM (Nat × List Nat)
  | [], stop => pure (stop, [])
  | next :: rest, stop =>
    if next = stop then do
      let page ← pageAt pageCount pages stop
      if Continues first page (stop - start) then extendSelected start first rest (stop + 1)
      else pure (stop, next :: rest)
    else pure (stop, next :: rest)

/-- The outer loop of `map_selected_pages`. -/
def mapSelectedFrom : (rounds : Nat) → (selected : List Nat) → MapM Unit
  | 0, _ => pure ()
  | _ + 1, [] => pure ()
  | rounds + 1, start :: rest => do
    let first ← pageAt pageCount pages start
    let (stop, behind) ← extendSelected pageCount pages start first rest (start + 1)
    mapRun start (stop - start) first.generation first.offset
    mapSelectedFrom rounds behind

def mapSelectedPages (selected : ExtTreeSet Nat) : MapM Unit :=
  mapSelectedFrom pageCount pages selected.toList.length selected.toList

end Table

namespace KvmGuestRam

/-- `pages.len()`. -/
def pageCount (ram : KvmGuestRam) : Nat := ram.len / ramPageSize

def bytes (ram : KvmGuestRam) (host : RamHost) : ByteMap :=
  ram.memory.bytes ramPageSize host.contents

end KvmGuestRam

/-!
## A running guest
-/

abbrev GuestWrite := Nat × List UInt8

/-- A RAM with its guest: the dirty log of the hypervisor, and what the guest goes on to write
between the copies of its pages. -/
structure LiveRam where
  host : RamHost
  ram : KvmGuestRam
  dirty : ExtTreeSet Nat
  ahead : List (List GuestWrite)

def pagesOf (offset len : Nat) : List Nat :=
  if len = 0 then []
  else List.range' (offset / ramPageSize)
    ((offset + len - 1) / ramPageSize + 1 - offset / ramPageSize)

namespace LiveRam

/-- The guest has no addresses behind its RAM. -/
def guestWrite (live : LiveRam) (write : GuestWrite) : LiveRam :=
  if write.1 + write.2.length ≤ live.ram.len then
    { live with
      ram := { live.ram with
        memory := live.ram.memory.store ramPageSize live.host.contents write.1 write.2 }
      dirty := live.dirty.insertMany (pagesOf write.1 write.2.length) }
  else live

def guestWrites (live : LiveRam) (writes : List GuestWrite) : LiveRam :=
  writes.foldl guestWrite live

end LiveRam

abbrev RamM := Attempt LiveRam RamError

namespace RamM

def onHost {α : Type} (operation : HostM α) : RamM α :=
  within LiveRam.host (fun host live => { live with host }) id operation

def onMemory {α : Type} (operation : MapM α) : RamM α :=
  within (fun live => (live.host, live.ram.memory))
    (fun (host, memory) live => { live with host, ram := { live.ram with memory } }) id operation

def guestRuns : RamM Unit :=
  modify fun live => match live.ahead with
    | [] => live
    | writes :: ahead => { live.guestWrites writes with ahead }

end RamM

namespace KvmGuestRam

open RamM

def discardPrivatePages : RamM Unit := do
  onHost (call "discard sealed private RAM pages")
  modify fun live => { live with ram := { live.ram with memory := live.ram.memory.discard } }

/-- The loop of `copy_page_to`. Every write that succeeds writes at least one byte. -/
def copyRest (index : Nat) (file : Inode) (offset : Nat) : Nat → Nat → RamM Unit
  | 0, _ => pure ()
  | fuel + 1, written =>
    if written < ramPageSize then do
      guestRuns
      let live ← get
      let count ← onHost (pwrite "copy RAM generation page" file (offset + written)
        ((live.ram.bytes live.host).read (index * ramPageSize + written) (ramPageSize - written)))
      require (count ≠ 0) (.backend "copy RAM generation page" (.writeZero "pwrite returned zero"))
      copyRest index file offset fuel (written + count)
    else pure ()

def copyPageTo (index : Nat) (file : Inode) (offset : Nat) : RamM Unit :=
  copyRest index file offset ramPageSize 0

/-- The copies of `prepare_fork` to a new generation. -/
def preparePages (generation : RamGeneration) :
    List Nat → Nat → ExtTreeMap Nat RamPage → RamM (ExtTreeMap Nat RamPage)
  | [], _, prepared => pure prepared
  | page :: rest, generationIndex, prepared => do
    let offset := generationIndex * ramPageSize
    copyPageTo page generation.file offset
    let made ← onHost (RamPage.new generation offset)
    preparePages generation rest (generationIndex + 1) (prepared.insert page made)

/-- Every page that was asked for is one of the RAM. -/
def checkPages (pages : List Nat) : RamM Unit := do
  let live ← get
  forM pages fun page =>
    require (page < live.ram.pageCount) (.invalidDirtyPage page live.ram.pageCount)

def prepareFork (pages : List Nat) : RamM RamForkPreparation := do
  let pages := (ExtTreeSet.ofList pages).toList
  checkPages pages
  let live ← get
  if live.ram.sealed then do
    let generation ← onHost (RamGeneration.zeroed (pages.length * ramPageSize))
    let prepared ← preparePages generation pages 0 ∅
    pure { generation, pages := prepared, sealsExistingGeneration := false }
  else do
    forM pages fun page =>
      copyPageTo page (live.ram.pages page).generation.file (live.ram.pages page).offset
    pure
      { generation := (live.ram.pages 0).generation
        pages := ∅
        sealsExistingGeneration := true }

/-- The copies of `finish_prepared_pages` to the generation of the preparation. -/
def copyDirty (generation : RamGeneration) :
    List Nat → Nat → ExtTreeMap Nat RamPage → RamM (ExtTreeMap Nat RamPage)
  | [], _, prepared => pure prepared
  | index :: rest, nextOffset, prepared =>
    match prepared[index]? with
    | some page => do
      copyPageTo index generation.file page.offset
      copyDirty generation rest nextOffset prepared
    | none => do
      onHost (setLen "grow RAM generation" generation.file (nextOffset + ramPageSize))
      let page ← onHost (RamPage.new generation nextOffset)
      copyPageTo index generation.file page.offset
      copyDirty generation rest (nextOffset + ramPageSize) (prepared.insert index page)

def sealBranch : RamM RamForkBranch := do
  modify fun live => { live with ram := { live.ram with sealed := true, hostDirty := ∅ } }
  let live ← get
  pure { len := live.ram.len, pages := live.ram.pages }

def finishPreparedPages (preparation : RamForkPreparation) (dirty : ExtTreeSet Nat) :
    RamM RamForkBranch := do
  let live ← get
  if preparation.sealsExistingGeneration then do
    forM dirty.toList fun index =>
      copyPageTo index (live.ram.pages index).generation.file (live.ram.pages index).offset
    discardPrivatePages
    modify fun live => { live with ram := { live.ram with isPrivate := true } }
    sealBranch
  else if live.ram.isPrivate then do
    let prepared ← copyDirty preparation.generation dirty.toList
      (preparation.pages.size * ramPageSize) preparation.pages
    modify fun live => { live with
      ram := { live.ram with
        pages := fun index => (prepared[index]?).getD (live.ram.pages index) } }
    let live ← get
    onMemory (mapSelectedPages live.ram.pageCount live.ram.pages (ExtTreeSet.ofList prepared.keys))
    sealBranch
  else do
    onMemory (mapAllPages live.ram.pageCount live.ram.pages)
    modify fun live => { live with ram := { live.ram with isPrivate := true } }
    sealBranch

/-- The pages written by the host, and pages that a dirty log names. -/
def dirtyWith (pages : List Nat) : RamM (ExtTreeSet Nat) := do
  checkPages pages
  let live ← get
  pure (live.ram.hostDirty.insertMany pages)

def finishPreparedBranch (preparation : RamForkPreparation) (pagesDirtiedDuringCopy : List Nat) :
    RamM RamForkBranch := do
  let dirty ← dirtyWith pagesDirtiedDuringCopy
  finishPreparedPages preparation dirty

def sealPages (dirty : ExtTreeSet Nat) : RamM Unit := do
  let preparation ← prepareFork []
  let _ ← finishPreparedPages preparation dirty
  pure ()

def sealDirtyPages (pages : List Nat) : RamM Unit := do
  let dirty ← dirtyWith pages
  sealPages dirty

end KvmGuestRam

end Minidox.Ram
