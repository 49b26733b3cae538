import Minidox.Foundation.Attempt
import Minidox.Foundation.ByteMap
import Minidox.Foundation.Word64
import Mathlib.Data.List.Nodup
import Std.Data.ExtTreeMap
import Std.Data.ExtTreeSet

/-!
# Vocabulary of the page caches

Errors, mapping flags, page geometry, and the node store behind a cache.
-/

set_option autoImplicit false

namespace Minidox.Cache

open Foundation

def pageSize : Nat := 4096

abbrev NodeId := Nat

/-- A page of one file, by node and page-aligned offset. -/
abbrev PageKey := NodeId × Nat

instance pageKeyOrd : Ord (Nat × Nat) := lexOrd

/-- An `io::Error`: an operating-system error number, or a kind raised by the
program with its message. -/
inductive IoError where
  | os (errno : Nat)
  | unexpectedEof (message : String)
  | writeZero (message : String)
  | invalidData (message : String)
  | alreadyExists (message : String)
  | other (message : String)
  deriving DecidableEq, Repr

inductive CacheError where
  | io (error : IoError)
  | invalidMapping (message : String)
  | nodeNotOpen (node : NodeId)
  | branchNotFound (branch : Nat)
  | staleMapping
  | activeMappings
  | pageBusy
  deriving DecidableEq, Repr

/-- Access accumulated for a cached file page. -/
structure MapFlags where
  read : Bool
  write : Bool
  deriving DecidableEq, Repr

namespace MapFlags

def READ : MapFlags := ⟨true, false⟩

def WRITE : MapFlags := ⟨false, true⟩

def union (left right : MapFlags) : MapFlags :=
  ⟨left.read || right.read, left.write || right.write⟩

def READ_WRITE : MapFlags := READ.union WRITE

end MapFlags

/-- A host or store call that fails, and how many bytes it moved before. -/
structure Fault where
  error : IoError
  progress : Nat
  deriving DecidableEq, Repr

/-- Failures still to come. Each fallible host or store call takes the next entry
and fails with it when there is one. -/
abbrev Faults := List (Option Fault)

section Raise

open Attempt

variable {State α : Type}

def orInvalid (message : String) : Option α → Attempt State CacheError α
  | some value => pure value
  | none => throw (.invalidMapping message)

def orIo : Except IoError α → Attempt State CacheError α
  | .ok value => pure value
  | .error error => throw (.io error)

theorem ends_orInvalid {state : State} {message : String} {value : Option α}
    {post : Except CacheError α → State → Prop}
    (present : ∀ found, value = some found → post (.ok found) state)
    (absent : post (.error (.invalidMapping message)) state) :
    Ends (orInvalid message value) state post := by
  cases value with
  | none => exact absent
  | some found => exact present found rfl

theorem ends_orIo {state : State} {result : Except IoError α}
    {post : Except CacheError α → State → Prop}
    (returned : ∀ value, result = .ok value → post (.ok value) state)
    (failed : ∀ error, post (.error (.io error)) state) :
    Ends (orIo result) state post := by
  cases result with
  | ok value => exact returned value rfl
  | error error => exact failed error

theorem moves_orInvalid {relation : State → State → Prop} [Std.Refl relation] (message : String)
    (value : Option α) : Moves relation (orInvalid message value) :=
  fun state => ends_orInvalid (fun _ _ => Std.Refl.refl state) (Std.Refl.refl state)

theorem ends_orInvalid_some {state : State} {message : String} {value : Option α} {found : α}
    (present : value = some found) {post : Except CacheError α → State → Prop}
    (returned : post (.ok found) state) : Ends (orInvalid message value) state post := by
  subst present
  exact ends_pure.mpr returned

theorem ends_orIo_ok {state : State} {result : Except IoError α} {value : α}
    (answered : result = .ok value) {post : Except CacheError α → State → Prop}
    (returned : post (.ok value) state) : Ends (orIo result) state post := by
  subst answered
  exact ends_pure.mpr returned

theorem moves_orIo {relation : State → State → Prop} [Std.Refl relation]
    (result : Except IoError α) : Moves relation (orIo result) :=
  fun state => ends_orIo (fun _ _ => Std.Refl.refl state) fun _ => Std.Refl.refl state

theorem lockstep_orIo {relation : State → State → Prop} (result : Except IoError α) :
    Lockstep relation (orIo result) (orIo result) := by
  cases result with
  | ok value => exact lockstep_pure value
  | error error => exact lockstep_throw _

end Raise

/-- The offset of the page that holds a byte. -/
def pageOf (position : Nat) : Nat := position / pageSize * pageSize

/-- The page offsets of `(start..stop).step_by(PAGE_SIZE)`. -/
def pageOffsets (start stop : Nat) : List Nat :=
  (List.range ((stop - start + pageSize - 1) / pageSize)).map fun index =>
    start + index * pageSize

theorem pageOf_le (position : Nat) : pageOf position ≤ position :=
  Nat.div_mul_le_self position pageSize

theorem lt_pageOf_add (position : Nat) : position < pageOf position + pageSize := by
  unfold pageOf pageSize
  omega

theorem pageOf_mod (position : Nat) : pageOf position % pageSize = 0 :=
  Nat.mul_mod_left _ _

theorem pageOf_eq_of_mem {page position : Nat} (aligned : page % pageSize = 0)
    (lower : page ≤ position) (upper : position < page + pageSize) :
    pageOf position = page := by
  unfold pageOf
  unfold pageSize at *
  omega

theorem mem_pageOffsets {start stop page : Nat} :
    page ∈ pageOffsets start stop ↔
      ∃ index, page = start + index * pageSize ∧ page < stop := by
  unfold pageOffsets
  simp only [List.mem_map, List.mem_range]
  constructor
  · rintro ⟨index, inside, rfl⟩
    refine ⟨index, rfl, ?_⟩
    unfold pageSize at *
    omega
  · rintro ⟨index, rfl, inside⟩
    refine ⟨index, ?_, rfl⟩
    unfold pageSize at *
    omega

theorem add_le_of_mem_pageOffsets {start stop page : Nat} (whole : (stop - start) % pageSize = 0)
    (member : page ∈ pageOffsets start stop) : start ≤ page ∧ page + pageSize ≤ stop := by
  obtain ⟨index, rfl, inside⟩ := mem_pageOffsets.mp member
  unfold pageSize at *
  omega

theorem mod_of_mem_pageOffsets {start stop page : Nat} (aligned : start % pageSize = 0)
    (member : page ∈ pageOffsets start stop) : page % pageSize = 0 := by
  obtain ⟨index, rfl, -⟩ := mem_pageOffsets.mp member
  rw [Nat.add_mul_mod_self_right, aligned]

theorem pageOf_mem_pageOffsets {start stop position : Nat} (aligned : start % pageSize = 0)
    (lower : start ≤ position) (upper : position < stop) :
    pageOf position ∈ pageOffsets start stop := by
  refine mem_pageOffsets.mpr ⟨position / pageSize - start / pageSize, ?_,
    lt_of_le_of_lt (pageOf_le position) upper⟩
  unfold pageOf
  unfold pageSize at *
  omega

theorem pageOffsets_cons {offset stop : Nat} (below : offset < stop) :
    pageOffsets offset stop = offset :: pageOffsets (offset + pageSize) stop := by
  have counted : (stop - offset + pageSize - 1) / pageSize =
      (stop - (offset + pageSize) + pageSize - 1) / pageSize + 1 := by
    unfold pageSize
    omega
  rw [pageOffsets, counted, List.range_succ_eq_map, List.map_cons, Nat.zero_mul, Nat.add_zero,
    List.map_map, pageOffsets]
  refine congrArg (offset :: ·) (List.map_congr_left fun index _ => ?_)
  simp only [Function.comp_apply, Nat.succ_mul]
  omega

theorem pageOffsets_eq_nil {offset stop : Nat} (above : stop ≤ offset) :
    pageOffsets offset stop = [] := by
  have none : (stop - offset + pageSize - 1) / pageSize = 0 := by
    unfold pageSize
    omega
  rw [pageOffsets, none, List.range_zero, List.map_nil]

theorem eq_of_pageOffsets_split {stop delta : Nat} {before rest : List Nat}
    (listed : pageOffsets 0 stop = before ++ delta :: rest) :
    delta = before.length * pageSize ∧
      (before ≠ [] → (before.length - 1) * pageSize ∈ before) := by
  have nth : ∀ (index page : Nat), (pageOffsets 0 stop)[index]? = some page →
      page = index * pageSize := by
    intro index page found
    rw [pageOffsets, List.getElem?_map, Option.map_eq_some_iff] at found
    obtain ⟨position, listedAt, rfl⟩ := found
    obtain ⟨_, rfl⟩ := List.getElem?_eq_some_iff.mp listedAt
    rw [List.getElem_range, Nat.zero_add]
  refine ⟨nth _ _ (by rw [listed, List.getElem?_append_right le_rfl, Nat.sub_self]; rfl),
    fun some => ?_⟩
  have inside : before.length - 1 < before.length :=
    Nat.sub_lt (List.length_pos_of_ne_nil some) Nat.one_pos
  have found := List.getElem?_eq_getElem inside
  have value := nth _ _ (by rw [listed, List.getElem?_append_left inside, found])
  exact value ▸ List.mem_of_getElem? found

theorem pageOffsets_sorted (start stop : Nat) : (pageOffsets start stop).Pairwise (· < ·) := by
  refine List.Pairwise.map _ (fun left right less => ?_) List.pairwise_lt_range
  unfold pageSize
  omega

theorem pageOffsets_nodup (start stop : Nat) : (pageOffsets start stop).Nodup :=
  (pageOffsets_sorted start stop).imp Nat.ne_of_lt

/-- The operations of a filesystem that a cache calls. Lookups leave the store
as it is; the others may change it and the state its kind of store shares
process-wide. -/
class NodeStore (World Store : Type) where
  len : Store → NodeId → Except IoError Nat
  readNode : Store → NodeId → Nat → Nat → Except IoError (List UInt8)
  writeNode : NodeId → Nat → List UInt8 → Attempt (World × Store) IoError Nat
  onOpenNode : NodeId → Attempt (World × Store) IoError Unit := fun _ => pure ()
  onCloseNode : NodeId → Attempt (World × Store) IoError Unit := fun _ => pure ()

/-- What a store holds, for the statements about it: the length of each existing
file and its bytes. -/
class FileView (Store : Type) where
  fileLen : Store → NodeId → Option Nat
  fileByte : Store → NodeId → ByteMap

/-- The byte that a page load finds at a position: zero past the end of the file. -/
def storedByte {Store : Type} [FileView Store] (store : Store) (node : NodeId)
    (position : Nat) : UInt8 :=
  match FileView.fileLen store node with
  | none => 0
  | some length => if position < length then FileView.fileByte store node position else 0

def SameFiles {Store : Type} [FileView Store] (left right : Store) : Prop :=
  FileView.fileLen left = FileView.fileLen right ∧
    FileView.fileByte left = FileView.fileByte right

/-- The store keeps to the documented behaviour of `NodeStore`. A read fills its
buffer up to the end of the file. A write of a range inside the file touches no
byte outside the range, also when it fails, and stores what it reports written. -/
class LawfulNodeStore (World Store : Type) [NodeStore World Store] [FileView Store] : Prop where
  len_ok : ∀ {store : Store} {node length}, NodeStore.len World store node = .ok length →
    FileView.fileLen store node = some length
  readNode_ok : ∀ {store : Store} {node offset count data},
    NodeStore.readNode World store node offset count = .ok data →
    ∃ length, FileView.fileLen store node = some length ∧
      data = (FileView.fileByte store node).read offset (min count (length - offset))
  writeNode_frame : ∀ (node offset : Nat) (data : List UInt8) (world : World) (store : Store)
    (length : Nat), FileView.fileLen store node = some length → offset + data.length ≤ length →
    (NodeStore.writeNode node offset data).Ends (world, store) fun result after =>
      FileView.fileLen after.2 = FileView.fileLen store ∧
      (∀ other position, ¬ (other = node ∧ offset ≤ position ∧
          position < offset + data.length) →
        FileView.fileByte after.2 other position = FileView.fileByte store other position) ∧
      ∀ written, result = .ok written → written ≤ data.length ∧
        ∀ position, offset ≤ position → position < offset + written →
          FileView.fileByte after.2 node position = data.getD (position - offset) 0
  onOpenNode_frame : ∀ (node : NodeId) (world : World) (store : Store),
    (NodeStore.onOpenNode node).Ends (world, store) fun _ after => SameFiles after.2 store
  onCloseNode_frame : ∀ (node : NodeId) (world : World) (store : Store),
    (NodeStore.onCloseNode node).Ends (world, store) fun _ after => SameFiles after.2 store

theorem ofList_readNode {World Store : Type} [NodeStore World Store] [FileView Store]
    [LawfulNodeStore World Store] {store : Store} {node offset count : Nat}
    {data : List UInt8} (found : NodeStore.readNode World store node offset count = .ok data)
    {index : Nat} (inside : index < count) :
    ByteMap.ofList data index = storedByte store node (offset + index) := by
  obtain ⟨length, known, rfl⟩ := LawfulNodeStore.readNode_ok found
  simp only [storedByte, known, ByteMap.ofList]
  by_cases short : offset + index < length
  · rw [ByteMap.getD_read _ (by omega), if_pos short]
  · rw [if_neg short, List.getD, List.getElem?_eq_none (by simp; omega), Option.getD_none]

end Minidox.Cache
