import Minidox.Ram.Model
import Mathlib.Data.Finset.Card

/-!
# Dirty ranges and host pages

The hypervisor reports dirty memory as ranges of guest-physical addresses. The regions of the
guest lie one after the other in its RAM (`replace_with_external_memory` of
`vmm/src/memory_manager.rs`), so that `dirty_host_pages` of `vmm/src/lib.rs` finds the pages of
the RAM by a running offset.
-/

set_option autoImplicit false

namespace Minidox.Ram

open Foundation Attempt
open Std (ExtTreeSet)

structure MemoryRange where
  gpa : Nat
  length : Nat
  deriving DecidableEq, Repr

/-- The start and the length of a guest memory region. -/
abbrev MemoryRegion := Nat × Nat

/-- The pages of one dirty range in one region. Sums are those of 64-bit words. -/
def dirtyRegionPages (hostOffset : Nat) (region : MemoryRegion) (dirty : MemoryRange) : List Nat :=
  let regionEnd := Word64.wrappingAdd region.1 region.2
  let dirtyEnd := Word64.wrappingAdd dirty.gpa dirty.length
  let start := max dirty.gpa region.1
  let stop := min dirtyEnd regionEnd
  if start < stop then
    let first := Word64.wrappingSub (Word64.wrappingAdd hostOffset start) region.1 / ramPageSize
    let last := Word64.wrappingSub
      (Word64.wrappingSub (Word64.wrappingAdd hostOffset stop) region.1) 1 / ramPageSize
    List.range' first (last + 1 - first)
  else []

/-- The loop over the regions. -/
def collectDirtyPages (dirtyMemory : List MemoryRange) :
    Nat → List MemoryRegion → ExtTreeSet Nat → ExtTreeSet Nat
  | _, [], pages => pages
  | hostOffset, region :: rest, pages =>
    collectDirtyPages dirtyMemory (Word64.wrappingAdd hostOffset region.2) rest
      (dirtyMemory.foldl (fun pages dirty =>
        pages.insertMany (dirtyRegionPages hostOffset region dirty)) pages)

def dirtyHostPages (memoryRegions : List MemoryRegion) (dirtyMemory : List MemoryRange) :
    List Nat :=
  (collectDirtyPages dirtyMemory 0 memoryRegions ∅).toList

/-!
## Regions in the RAM
-/

structure ExternalGuestMemory where
  userspaceAddr : Nat
  len : Nat
  deriving DecidableEq, Repr

inductive MemoryError where
  | invalidExternalGuestMemory (provided required : Nat)
  | invalidGuestAddress (gpa : Nat)
  deriving DecidableEq, Repr

/-- A region of the guest, and where it is mapped. -/
structure MappedRegion where
  gpa : Nat
  len : Nat
  address : Nat
  deriving DecidableEq, Repr

/-- The loop of `replace_with_external_memory`. A region must not wrap around. -/
def layOut (external : ExternalGuestMemory) (required : Nat) :
    Nat → List MemoryRegion → Except MemoryError (List MappedRegion)
  | _, [] => .ok []
  | offset, (gpa, len) :: rest =>
    match Word64.checkedAdd external.userspaceAddr offset with
    | none => .error (.invalidExternalGuestMemory external.len required)
    | some address =>
      if (Word64.checkedAdd gpa len).isSome then do
        let mapped ← layOut external required (Word64.wrappingAdd offset len) rest
        .ok ({ gpa, len, address } :: mapped)
      else .error (.invalidGuestAddress gpa)

def replaceWithExternalMemory (regions : List MemoryRegion) (external : ExternalGuestMemory) :
    Except MemoryError (List MappedRegion) :=
  let required := regions.foldl (fun sum region => Word64.wrappingAdd sum region.2) 0
  if external.len ≠ required then .error (.invalidExternalGuestMemory external.len required)
  else layOut external required 0 regions

def InRegion (region : MemoryRegion) (address : Nat) : Prop :=
  region.1 ≤ address ∧ address < region.1 + region.2

def IsDirty (dirtyMemory : List MemoryRange) (address : Nat) : Prop :=
  ∃ dirty ∈ dirtyMemory, dirty.gpa ≤ address ∧ address < dirty.gpa + dirty.length

namespace MappedRegion

def hostByte (external : ExternalGuestMemory) (region : MappedRegion) (address : Nat) : Nat :=
  region.address - external.userspaceAddr + (address - region.gpa)

/-- A dirty byte of the region is in the page of the RAM. -/
def Dirties (external : ExternalGuestMemory) (dirtyMemory : List MemoryRange) (page : Nat)
    (region : MappedRegion) : Prop :=
  ∃ address, InRegion (region.gpa, region.len) address ∧ IsDirty dirtyMemory address ∧
    page * ramPageSize ≤ region.hostByte external address ∧
    region.hostByte external address < (page + 1) * ramPageSize

end MappedRegion

/-!
## Exactness
-/

theorem mem_pages_iff {start stop page : Nat} (nonempty : start < stop) :
    page ∈ List.range' (start / ramPageSize)
        ((stop - 1) / ramPageSize + 1 - start / ramPageSize) ↔
      ∃ byte, start ≤ byte ∧ byte < stop ∧ page * ramPageSize ≤ byte ∧
        byte < (page + 1) * ramPageSize := by
  rw [List.mem_range'_1]
  simp only [ramPageSize]
  constructor
  · rintro ⟨above, below⟩
    exact ⟨max start (page * 4096), by omega, by omega, by omega, by omega⟩
  · rintro ⟨byte, above, below, first, last⟩
    omega

theorem mem_dirtyRegionPages {hostOffset page : Nat} {region : MemoryRegion} {dirty : MemoryRange}
    (fits : hostOffset + region.2 < Word64.bound) (word : region.1 + region.2 < Word64.bound)
    (noOverflow : dirty.gpa + dirty.length < Word64.bound) :
    page ∈ dirtyRegionPages hostOffset region dirty ↔
      ∃ address, InRegion region address ∧
        (dirty.gpa ≤ address ∧ address < dirty.gpa + dirty.length) ∧
        page * ramPageSize ≤ hostOffset + (address - region.1) ∧
        hostOffset + (address - region.1) < (page + 1) * ramPageSize := by
  have regionEnd : Word64.wrappingAdd region.1 region.2 = region.1 + region.2 :=
    Nat.mod_eq_of_lt word
  have dirtyEnd : Word64.wrappingAdd dirty.gpa dirty.length = dirty.gpa + dirty.length :=
    Nat.mod_eq_of_lt noOverflow
  unfold dirtyRegionPages InRegion
  dsimp only
  rw [regionEnd, dirtyEnd]
  generalize start' : max dirty.gpa region.1 = start
  generalize stop' : min (dirty.gpa + dirty.length) (region.1 + region.2) = stop
  by_cases nonempty : start < stop
  · have first := @Word64.wrappingSub_wrappingAdd hostOffset start region.1 (by omega) (by omega)
      (by omega)
    have last := @Word64.wrappingSub_wrappingAdd hostOffset stop region.1 (by omega) (by omega)
      (by omega)
    have previous : Word64.wrappingSub (hostOffset + (stop - region.1)) 1 =
        hostOffset + (stop - region.1) - 1 := by
      unfold Word64.wrappingSub
      unfold Word64.bound at *
      omega
    rw [if_pos nonempty, first, last, previous, mem_pages_iff (by omega)]
    constructor
    · rintro ⟨byte, above, below, lower, upper⟩
      have place : hostOffset + (region.1 + (byte - hostOffset) - region.1) = byte := by omega
      refine ⟨region.1 + (byte - hostOffset), ⟨by omega, by omega⟩, ⟨by omega, by omega⟩, ?_⟩
      rw [place]
      exact ⟨lower, upper⟩
    · rintro ⟨address, ⟨inside, below⟩, ⟨dirtyFrom, dirtyTo⟩, lower, upper⟩
      exact ⟨hostOffset + (address - region.1), by omega, by omega, lower, upper⟩
  · rw [if_neg nonempty]
    constructor
    · exact fun member => by cases member
    · rintro ⟨address, ⟨inside, below⟩, ⟨dirtyFrom, dirtyTo⟩, _⟩
      omega

theorem mem_foldl_insertMany {α : Type} {items : List α} {pages : ExtTreeSet Nat}
    {found : α → List Nat} {page : Nat} :
    page ∈ items.foldl (fun pages item => pages.insertMany (found item)) pages ↔
      page ∈ pages ∨ ∃ item ∈ items, page ∈ found item := by
  induction items generalizing pages with
  | nil => simp
  | cons item rest ih =>
    rw [List.foldl_cons, ih, ExtTreeSet.mem_insertMany_list]
    simp [or_assoc]

variable {external : ExternalGuestMemory} {mapped : List MappedRegion}

theorem layOut_cons {required offset : Nat} {region : MemoryRegion} {rest : List MemoryRegion}
    (laidOut : layOut external required offset (region :: rest) = .ok mapped) :
    region.1 + region.2 < Word64.bound ∧ ∃ behind,
      layOut external required (Word64.wrappingAdd offset region.2) rest = .ok behind ∧
      mapped = { gpa := region.1, len := region.2, address := external.userspaceAddr + offset } ::
        behind := by
  obtain ⟨gpa, len⟩ := region
  unfold layOut at laidOut
  split at laidOut
  next => cases laidOut
  next address located =>
    rw [Word64.checkedAdd_eq_some located] at laidOut
    split at laidOut
    next inside =>
      obtain ⟨stop, found⟩ := Option.isSome_iff_exists.mp inside
      have word : gpa + len < Word64.bound :=
        Word64.checkedAdd_eq_some found ▸ Word64.checkedAdd_lt found
      cases behind : layOut external required (Word64.wrappingAdd offset len) rest with
      | error error =>
        rw [behind] at laidOut
        cases laidOut
      | ok regions =>
        rw [behind] at laidOut
        exact ⟨word, regions, rfl, (Except.ok.inj laidOut).symm⟩
    next => cases laidOut

variable {regions : List MemoryRegion}

/-- The running offset is that of the layout, so that the loop finds the pages of the bytes
that are dirty in the regions which are left. -/
theorem mem_collectDirtyPages {required : Nat} {dirtyMemory : List MemoryRange} {page : Nat}
    (noOverflow : ∀ dirty ∈ dirtyMemory, dirty.gpa + dirty.length < Word64.bound) {hostOffset : Nat}
    {pages : ExtTreeSet Nat} (laidOut : layOut external required hostOffset regions = .ok mapped)
    (fits : hostOffset + (regions.map Prod.snd).sum < Word64.bound) :
    page ∈ collectDirtyPages dirtyMemory hostOffset regions pages ↔
      page ∈ pages ∨ ∃ region ∈ mapped, region.Dirties external dirtyMemory page := by
  induction regions generalizing hostOffset mapped pages with
  | nil =>
    cases laidOut
    simp [collectDirtyPages]
  | cons region rest ih =>
    rw [List.map_cons, List.sum_cons] at fits
    obtain ⟨word, behind, laidOutRest, rfl⟩ := layOut_cons laidOut
    have next : Word64.wrappingAdd hostOffset region.2 = hostOffset + region.2 :=
      Nat.mod_eq_of_lt (by omega)
    rw [collectDirtyPages, ih laidOutRest (by rw [next]; omega), mem_foldl_insertMany, or_assoc]
    refine or_congr_right ?_
    rw [List.exists_mem_cons_iff]
    refine or_congr_left ?_
    unfold MappedRegion.Dirties MappedRegion.hostByte IsDirty
    dsimp only
    rw [Nat.add_sub_cancel_left]
    constructor
    · rintro ⟨dirty, member, found⟩
      obtain ⟨address, inside, within, place⟩ :=
        (mem_dirtyRegionPages (by omega) word (noOverflow dirty member)).mp found
      exact ⟨address, inside, ⟨dirty, member, within⟩, place⟩
    · rintro ⟨address, inside, ⟨dirty, member, within⟩, place⟩
      exact ⟨dirty, member, (mem_dirtyRegionPages (by omega) word (noOverflow dirty member)).mpr
        ⟨address, inside, within, place⟩⟩

theorem sum_lengths_lt (disjoint : regions.Pairwise fun left right => ∀ address,
      ¬ (InRegion left address ∧ InRegion right address))
    (words : ∀ region ∈ regions, region.1 + region.2 < Word64.bound) :
    (regions.map Prod.snd).sum < Word64.bound := by
  let addresses := regions.flatMap fun region => List.range' region.1 region.2
  have distinct : addresses.Nodup := by
    refine List.nodup_flatMap.mpr ⟨fun _ _ => List.nodup_range', disjoint.imp ?_⟩
    intro left right apart address inLeft inRight
    exact apart address ⟨List.mem_range'_1.mp inLeft, List.mem_range'_1.mp inRight⟩
  have length : addresses.length = (regions.map Prod.snd).sum := by
    simp [addresses, List.length_flatMap]
  have inside : addresses.toFinset ⊆ Finset.range (Word64.bound - 1) := by
    intro address member
    obtain ⟨region, among, here⟩ := List.mem_flatMap.mp (List.mem_toFinset.mp member)
    have word := words region among
    have below := (List.mem_range'_1.mp here).2
    exact Finset.mem_range.mpr (by omega)
  have counted := Finset.card_le_card inside
  rw [List.toFinset_card_of_nodup distinct, length, Finset.card_range] at counted
  have positive : 0 < Word64.bound := by decide
  omega

theorem words_of_layOut {required offset : Nat}
    (laidOut : layOut external required offset regions = .ok mapped) :
    ∀ region ∈ regions, region.1 + region.2 < Word64.bound := by
  induction regions generalizing offset mapped with
  | nil => exact fun _ member => by cases member
  | cons region rest ih =>
    obtain ⟨word, behind, laidOutRest, _⟩ := layOut_cons laidOut
    exact List.forall_mem_cons.mpr ⟨word, ih laidOutRest⟩

theorem stop_of_layOut {required offset : Nat}
    (laidOut : layOut external required offset regions = .ok mapped)
    (fits : offset + (regions.map Prod.snd).sum < Word64.bound) :
    ∀ region ∈ mapped, region.address - external.userspaceAddr + region.len ≤
      offset + (regions.map Prod.snd).sum := by
  induction regions generalizing offset mapped with
  | nil =>
    cases laidOut
    exact fun _ member => by cases member
  | cons region rest ih =>
    rw [List.map_cons, List.sum_cons] at *
    obtain ⟨_, behind, laidOutRest, rfl⟩ := layOut_cons laidOut
    have next : Word64.wrappingAdd offset region.2 = offset + region.2 :=
      Nat.mod_eq_of_lt (by omega)
    rw [next] at laidOutRest
    refine List.forall_mem_cons.mpr ⟨?_, fun other member => ?_⟩
    · dsimp only
      omega
    · have below := ih laidOutRest (by omega) other member
      omega

theorem foldl_wrappingAdd {start : Nat} (fits : start + (regions.map Prod.snd).sum < Word64.bound) :
    regions.foldl (fun sum region => Word64.wrappingAdd sum region.2) start =
      start + (regions.map Prod.snd).sum := by
  induction regions generalizing start with
  | nil => rfl
  | cons region rest ih =>
    rw [List.map_cons, List.sum_cons] at *
    have next : Word64.wrappingAdd start region.2 = start + region.2 :=
      Nat.mod_eq_of_lt (by omega)
    rw [List.foldl_cons, next, ih (by omega), Nat.add_assoc]

theorem sum_mod_of_pages (whole : ∀ region ∈ regions, region.2 % ramPageSize = 0) :
    (regions.map Prod.snd).sum % ramPageSize = 0 := by
  induction regions with
  | nil => rfl
  | cons region rest ih =>
    obtain ⟨here, others⟩ := List.forall_mem_cons.mp whole
    rw [List.map_cons, List.sum_cons, Nat.add_mod, here, ih others, Nat.add_zero, Nat.zero_mod]

/-!
## The checks of a fork
-/

def RamError.IsInvalidPage : RamError → Prop
  | .invalidDirtyPage _ _ => True
  | _ => False

section Checks

theorem avoids_nextReply : Avoids RamError.IsInvalidPage nextReply := by
  refine avoids_bind avoids_get fun host => ?_
  cases host.replies with
  | nil => exact avoids_pure _
  | cons reply rest => exact avoids_bind (avoids_set _) fun _ => avoids_pure _

theorem avoids_call (operation : String) : Avoids RamError.IsInvalidPage (call operation) := by
  refine avoids_bind avoids_nextReply fun reply => ?_
  cases reply with
  | failed errno => exact avoids_throw id
  | done => exact avoids_pure _
  | short count => exact avoids_pure _

theorem avoids_setLen (operation : String) (inode : Inode) (len : Nat) :
    Avoids RamError.IsInvalidPage (setLen operation inode len) :=
  avoids_bind (avoids_call operation) fun _ => avoids_modify _

theorem avoids_pwrite (operation : String) (inode : Inode) (offset : Nat) (data : List UInt8) :
    Avoids RamError.IsInvalidPage (pwrite operation inode offset data) := by
  refine avoids_bind avoids_nextReply fun reply => ?_
  cases reply with
  | failed errno => exact avoids_throw id
  | done => exact avoids_bind (avoids_modify _) fun _ => avoids_pure _
  | short count => exact avoids_bind (avoids_modify _) fun _ => avoids_pure _

theorem avoids_zeroed (len : Nat) : Avoids RamError.IsInvalidPage (RamGeneration.zeroed len) :=
  avoids_bind (avoids_call _) fun _ =>
    avoids_bind (avoids_bind avoids_get fun _ => avoids_bind (avoids_set _) fun _ => avoids_pure _)
      fun _ => avoids_bind (avoids_setLen _ _ _) fun _ => avoids_bind avoids_get fun _ =>
        avoids_bind (avoids_set _) fun _ => avoids_pure _

theorem avoids_newPage (generation : RamGeneration) (offset : Nat) :
    Avoids RamError.IsInvalidPage (RamPage.new generation offset) :=
  avoids_bind avoids_get fun _ => avoids_bind (avoids_set _) fun _ => avoids_pure _

section Table

variable (pageCount : Nat) (pages : Nat → RamPage)

theorem avoids_pageAt (index : Nat) :
    Avoids RamError.IsInvalidPage (pageAt pageCount pages index) :=
  avoids_bind (avoids_require id) fun _ => avoids_pure _

theorem avoids_extendAll (start : Nat) (first : RamPage) (rounds stop : Nat) :
    Avoids RamError.IsInvalidPage (extendAll pageCount pages start first rounds stop) := by
  induction rounds generalizing stop with
  | zero => exact avoids_pure _
  | succ rounds ih =>
    exact avoids_ite (avoids_bind (avoids_pageAt _ _ _) fun _ => avoids_ite (ih _)
      (avoids_pure _)) (avoids_pure _)

theorem avoids_extendSelected (start : Nat) (first : RamPage) (selected : List Nat) (stop : Nat) :
    Avoids RamError.IsInvalidPage (extendSelected pageCount pages start first selected stop) := by
  induction selected generalizing stop with
  | nil => exact avoids_pure _
  | cons next rest ih =>
    exact avoids_ite (avoids_bind (avoids_pageAt _ _ _) fun _ => avoids_ite (ih _)
      (avoids_pure _)) (avoids_pure _)

theorem avoids_mapRun (start count : Nat) (generation : RamGeneration) (offset : Nat) :
    Avoids RamError.IsInvalidPage (mapRun start count generation offset) :=
  avoids_bind (avoids_within (avoids_call _)) fun _ => avoids_modify _

theorem avoids_mapAllFrom (rounds start : Nat) :
    Avoids RamError.IsInvalidPage (mapAllFrom pageCount pages rounds start) := by
  induction rounds generalizing start with
  | zero => exact avoids_pure _
  | succ rounds ih =>
    exact avoids_ite (avoids_bind (avoids_pageAt _ _ _) fun _ =>
      avoids_bind (avoids_extendAll _ _ _ _ _ _) fun _ =>
        avoids_bind (avoids_mapRun _ _ _ _) fun _ => ih _) (avoids_pure _)

theorem avoids_mapSelectedFrom (rounds : Nat) (selected : List Nat) :
    Avoids RamError.IsInvalidPage (mapSelectedFrom pageCount pages rounds selected) := by
  induction rounds generalizing selected with
  | zero => exact avoids_pure _
  | succ rounds ih =>
    cases selected with
    | nil => exact avoids_pure _
    | cons start rest =>
      exact avoids_bind (avoids_pageAt _ _ _) fun _ =>
        avoids_bind (avoids_extendSelected _ _ _ _ _ _) fun _ =>
          avoids_bind (avoids_mapRun _ _ _ _) fun _ => ih _

end Table

namespace KvmGuestRam

theorem avoids_copyRest (index : Nat) (file : Inode) (offset fuel written : Nat) :
    Avoids RamError.IsInvalidPage (copyRest index file offset fuel written) := by
  induction fuel generalizing written with
  | zero => exact avoids_pure ()
  | succ fuel ih =>
    rw [copyRest]
    refine avoids_ite ?_ (avoids_pure ())
    exact avoids_bind (avoids_modify _) fun _ => avoids_bind avoids_get fun _ =>
      avoids_bind (avoids_within (avoids_pwrite _ _ _ _)) fun _ =>
        avoids_bind (avoids_require id) fun _ => ih _

theorem avoids_preparePages (generation : RamGeneration) (pages : List Nat) (index : Nat)
    (prepared : Std.ExtTreeMap Nat RamPage) :
    Avoids RamError.IsInvalidPage (preparePages generation pages index prepared) := by
  induction pages generalizing index prepared with
  | nil => exact avoids_pure _
  | cons page rest ih =>
    exact avoids_bind (avoids_copyRest _ _ _ _ _) fun _ =>
      avoids_bind (avoids_within (avoids_newPage _ _)) fun _ => ih _ _

theorem avoids_copyDirty (generation : RamGeneration) (pages : List Nat) (offset : Nat)
    (prepared : Std.ExtTreeMap Nat RamPage) :
    Avoids RamError.IsInvalidPage (copyDirty generation pages offset prepared) := by
  induction pages generalizing offset prepared with
  | nil => exact avoids_pure _
  | cons page rest ih =>
    rw [copyDirty]
    cases prepared[page]? with
    | some found => exact avoids_bind (avoids_copyRest _ _ _ _ _) fun _ => ih _ _
    | none =>
      exact avoids_bind (avoids_within (avoids_setLen _ _ _)) fun _ =>
        avoids_bind (avoids_within (avoids_newPage _ _)) fun _ =>
          avoids_bind (avoids_copyRest _ _ _ _ _) fun _ => ih _ _

theorem avoids_sealBranch : Avoids RamError.IsInvalidPage sealBranch :=
  avoids_bind (avoids_modify _) fun _ => avoids_bind avoids_get fun _ => avoids_pure _

theorem avoids_finishPreparedPages (preparation : RamForkPreparation) (dirty : ExtTreeSet Nat) :
    Avoids RamError.IsInvalidPage (finishPreparedPages preparation dirty) := by
  refine avoids_bind avoids_get fun live => avoids_ite ?_ (avoids_ite ?_ ?_)
  · exact avoids_bind (avoids_forM fun _ _ => avoids_copyRest _ _ _ _ _) fun _ =>
      avoids_bind (avoids_bind (avoids_within (avoids_call _)) fun _ => avoids_modify _) fun _ =>
        avoids_bind (avoids_modify _) fun _ => avoids_sealBranch
  · exact avoids_bind (avoids_copyDirty _ _ _ _) fun _ => avoids_bind (avoids_modify _) fun _ =>
      avoids_bind avoids_get fun _ =>
        avoids_bind (avoids_within (avoids_mapSelectedFrom _ _ _ _)) fun _ => avoids_sealBranch
  · exact avoids_bind (avoids_within (avoids_mapAllFrom _ _ _ _)) fun _ =>
      avoids_bind (avoids_modify _) fun _ => avoids_sealBranch

variable {pages : List Nat}

theorem ends_checkPages_inside {live : LiveRam}
    (inside : ∀ page ∈ pages, page < live.ram.pageCount) :
    Ends (checkPages pages) live fun result after => result = .ok () ∧ after = live := by
  simp only [checkPages, ends_bind, ends_get]
  generalize live.ram.pageCount = count at *
  induction pages with
  | nil => exact ⟨rfl, rfl⟩
  | cons page rest ih =>
    obtain ⟨here, others⟩ := List.forall_mem_cons.mp inside
    rw [List.forM_cons, ends_bind, ends_require]
    exact ⟨fun _ => ih others, fun outside => absurd here outside⟩

/-- The call does not end with the error of a page that is not one of the RAM. -/
def Accepts {α : Type} (live : LiveRam) (operation : RamM α) : Prop :=
  Ends operation live fun result _ => ∀ error, result = .error error → ¬ error.IsInvalidPage

theorem accepts_prepareFork {live : LiveRam} (inside : ∀ page ∈ pages, page < live.ram.pageCount) :
    Accepts live (prepareFork pages) := by
  have listed : ∀ page ∈ (ExtTreeSet.ofList pages).toList, page < live.ram.pageCount := by
    intro page member
    rw [ExtTreeSet.mem_toList, ExtTreeSet.mem_ofList] at member
    exact inside page (List.contains_iff_mem.mp member)
  unfold Accepts prepareFork
  rw [ends_bind]
  refine (ends_checkPages_inside listed).mono ?_
  rintro _ _ ⟨rfl, rfl⟩
  refine avoids_bind avoids_get (fun _ => avoids_ite ?_ ?_) _
  · exact avoids_bind (avoids_within (avoids_zeroed _)) fun _ =>
      avoids_bind (avoids_preparePages _ _ _ _) fun _ => avoids_pure _
  · exact avoids_bind (avoids_forM fun _ _ => avoids_copyRest _ _ _ _ _) fun _ => avoids_pure _

theorem accepts_dirtyWith {α : Type} {live : LiveRam}
    (inside : ∀ page ∈ pages, page < live.ram.pageCount) {rest : ExtTreeSet Nat → RamM α}
    (restAvoids : ∀ dirty, Avoids RamError.IsInvalidPage (rest dirty)) :
    Accepts live (dirtyWith pages >>= rest) := by
  unfold Accepts dirtyWith
  simp only [ends_bind]
  refine (ends_checkPages_inside inside).mono ?_
  rintro _ _ ⟨rfl, rfl⟩
  simp only [ends_get, ends_pure]
  exact restAvoids _ _

theorem accepts_finishPreparedBranch {live : LiveRam}
    (inside : ∀ page ∈ pages, page < live.ram.pageCount) (preparation : RamForkPreparation) :
    Accepts live (finishPreparedBranch preparation pages) :=
  accepts_dirtyWith inside fun dirty => avoids_finishPreparedPages preparation dirty

theorem avoids_prepareFork_nil : Avoids RamError.IsInvalidPage (prepareFork []) :=
  fun _ => accepts_prepareFork fun _ member => by cases member

theorem accepts_sealDirtyPages {live : LiveRam}
    (inside : ∀ page ∈ pages, page < live.ram.pageCount) :
    Accepts live (sealDirtyPages pages) :=
  accepts_dirtyWith inside fun dirty => avoids_bind avoids_prepareFork_nil fun preparation =>
    avoids_bind (avoids_finishPreparedPages preparation dirty) fun _ => avoids_pure _

end KvmGuestRam

end Checks

/-- The pages are sorted and each of them is named once; they are those of the dirty bytes of
the regions; all of them are in the RAM, whose checks let them pass. -/
theorem dirty_host_pages_exact {regions : List MemoryRegion} {external : ExternalGuestMemory}
    {mapped : List MappedRegion} {dirtyMemory : List MemoryRange}
    (disjoint : regions.Pairwise fun left right => ∀ address,
      ¬ (InRegion left address ∧ InRegion right address))
    (whole : ∀ region ∈ regions, region.2 % ramPageSize = 0)
    (laidOut : replaceWithExternalMemory regions external = .ok mapped)
    (noOverflow : ∀ dirty ∈ dirtyMemory, dirty.gpa + dirty.length < Word64.bound) :
    (dirtyHostPages regions dirtyMemory).Pairwise (· < ·) ∧
    (∀ page, page ∈ dirtyHostPages regions dirtyMemory ↔
      ∃ region ∈ mapped, region.Dirties external dirtyMemory page) ∧
    (∀ page ∈ dirtyHostPages regions dirtyMemory, page < external.len / ramPageSize) ∧
    ∀ live : LiveRam, live.ram.len = external.len →
      KvmGuestRam.Accepts live (KvmGuestRam.prepareFork (dirtyHostPages regions dirtyMemory)) ∧
      (∀ preparation, KvmGuestRam.Accepts live
        (KvmGuestRam.finishPreparedBranch preparation (dirtyHostPages regions dirtyMemory))) ∧
      KvmGuestRam.Accepts live
        (KvmGuestRam.sealDirtyPages (dirtyHostPages regions dirtyMemory)) := by
  unfold replaceWithExternalMemory at laidOut
  dsimp only at laidOut
  split at laidOut
  next => cases laidOut
  next sized =>
      have fits := sum_lengths_lt disjoint (words_of_layOut laidOut)
      rw [← Nat.zero_add (List.sum _)] at fits
      have total : external.len = (regions.map Prod.snd).sum := by
        rw [Decidable.not_not.mp sized, foldl_wrappingAdd fits, Nat.zero_add]
      have exact : ∀ page, page ∈ dirtyHostPages regions dirtyMemory ↔
          ∃ region ∈ mapped, region.Dirties external dirtyMemory page := by
        intro page
        rw [dirtyHostPages, ExtTreeSet.mem_toList, mem_collectDirtyPages noOverflow laidOut fits]
        simp
      have below : ∀ page ∈ dirtyHostPages regions dirtyMemory,
          page < external.len / ramPageSize := by
        intro page member
        obtain ⟨region, among, address, ⟨above, inside⟩, _, lower, _⟩ := (exact page).mp member
        have stop := stop_of_layOut laidOut fits region among
        have multiple := sum_mod_of_pages whole
        rw [total]
        unfold MappedRegion.hostByte at lower
        simp only [ramPageSize] at *
        omega
      refine ⟨?_, exact, below, fun live same => ?_⟩
      · refine ExtTreeSet.ordered_toList.imp fun less => ?_
        exact Nat.compare_eq_lt.mp less
      · have pages : live.ram.pageCount = external.len / ramPageSize := by
          rw [KvmGuestRam.pageCount, same]
        rw [← pages] at below
        exact ⟨KvmGuestRam.accepts_prepareFork below,
          KvmGuestRam.accepts_finishPreparedBranch below, KvmGuestRam.accepts_sealDirtyPages below⟩

/-- A dirty range over the end of one region, a hole, and the start of the next region. -/
theorem dirty_host_pages_over_hole :
    dirtyHostPages [(0, 8192), (16384, 4096)] [⟨8191, 8194⟩] = [1, 2] ∧
      ∃ region ∈ [(⟨0, 8192, 4096⟩ : MappedRegion), ⟨16384, 4096, 12288⟩],
        region.Dirties ⟨4096, 12288⟩ [⟨8191, 8194⟩] 2 := by
  have listed : dirtyHostPages [(0, 8192), (16384, 4096)] [⟨8191, 8194⟩] = [1, 2] := by
    decide +kernel
  have disjoint : List.Pairwise (fun left right => ∀ address,
      ¬ (InRegion left address ∧ InRegion right address)) [(0, 8192), (16384, 4096)] := by
    simp only [List.pairwise_cons, List.mem_singleton, forall_eq, List.not_mem_nil, InRegion,
      false_imp_iff, implies_true, List.Pairwise.nil, and_true]
    omega
  have laidOut : replaceWithExternalMemory [(0, 8192), (16384, 4096)] ⟨4096, 12288⟩ =
      .ok [⟨0, 8192, 4096⟩, ⟨16384, 4096, 12288⟩] := by decide +kernel
  have noOverflow : ∀ dirty ∈ [(⟨8191, 8194⟩ : MemoryRange)],
      dirty.gpa + dirty.length < Word64.bound := by decide
  have shown := dirty_host_pages_exact disjoint (by decide) laidOut noOverflow
  exact ⟨listed, (shown.2.1 2).mp (by rw [listed]; decide)⟩

end Minidox.Ram
