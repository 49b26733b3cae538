import Minidox.Foundation.Pages
import Minidox.Foundation.Transition
import Minidox.Redox.DurableWrites
import Minidox.Redox.HostFrames

/-!
# Every branch owns its disk

What copy-on-write disks are for. A tree of disks grows from one disk by forks. In the
reference model each branch is a byte array of its own: a fork copies it, a write
overwrites a range of one branch, and dropping a branch changes no other. A durable
branch also appends to its overlay, and its writes and forks can fail on the host.
-/

set_option autoImplicit false

namespace Minidox.Redox

open Foundation Attempt
open Cache (IoError)

/-!
## Bytes of a disk
-/

def InRange (size block len : Nat) : Prop :=
  block * blockSize + len < Word64.bound ∧ block * blockSize + len ≤ size

instance (size block len : Nat) : Decidable (InRange size block len) := by
  unfold InRange
  infer_instance

namespace CowDisk

theorem checkRange_eq (disk : CowDisk) (block len : Nat) :
    disk.checkRange block len =
      if InRange disk.size block len then .ok () else .error (.os Host.eio) := by
  unfold checkRange Word64.checkedMul Word64.checkedAdd
  by_cases inside : InRange disk.size block len
  · obtain ⟨total, fits⟩ := inside
    rw [if_pos (by omega), Option.bind_some, if_pos total, if_pos ⟨total, fits⟩]
    exact if_neg (Nat.not_lt_of_le fits)
  · rw [if_neg inside]
    unfold InRange at inside
    by_cases product : block * blockSize < Word64.bound
    · rw [if_pos product, Option.bind_some]
      by_cases total : block * blockSize + len < Word64.bound
      · rw [if_pos total]
        exact if_pos (by omega)
      · rw [if_neg total]
    · rw [if_neg product, Option.bind_none]

theorem content_new (size : Nat) (durable : Option DurableCowDisk) :
    content { size, base := [], writes := ∅, durable } = ByteMap.zero := by
  funext position
  have empty : image { size, base := [], writes := ∅, durable } (position / blockSize) =
      BlockBytes.zero := by
    simp [image, visibleBlock, Overlay.lookup]
  rw [content, Pages.joined, empty]
  simp only [BlockBytes.zero, ByteMap.ofList, List.getD, List.getElem?_replicate, ByteMap.zero]
  split <;> rfl

theorem take_bytes (block : BlockBytes) {count : Nat} (inside : count ≤ blockSize) :
    block.bytes.take count = (ByteMap.ofList block.bytes).read 0 count := by
  have length := block.length_bytes
  refine List.ext_getElem (by simp; omega) ?_
  intro index left right
  have below : index < block.bytes.length := by
    rw [List.length_take] at left
    omega
  simp [ByteMap.read, ByteMap.ofList, List.getD, List.getElem?_eq_getElem below]

theorem readAt_eq (disk : CowDisk) (block len : Nat) :
    disk.readAt block len = if InRange disk.size block len then
      .ok (disk.content.read (block * blockSize) len) else .error (.os Host.eio) := by
  unfold readAt
  rw [checkRange_eq]
  by_cases inside : InRange disk.size block len
  · rw [if_pos inside, if_pos inside]
    have pieces := Pages.read_pieces disk.content (block * blockSize) blockSize len
      ((len + blockSize - 1) / blockSize)
    have whole : min ((len + blockSize - 1) / blockSize * blockSize) len = len := by
      unfold blockSize
      omega
    rw [whole] at pieces
    rw [← pieces]
    refine congrArg Except.ok (List.flatMap_congr fun index _ => ?_)
    have page := Pages.read_page (fun address => ByteMap.ofList (disk.image address).bytes)
      (block + index) (show 0 + min blockSize (len - index * blockSize) ≤ blockSize by omega)
    rw [take_bytes _ (Nat.min_le_left _ _), page, content, Nat.add_zero, Nat.add_mul]
  · rw [if_neg inside, if_neg inside]
    rfl

theorem ofList_overwrite (block : BlockBytes) (chunk : List UInt8) {place : Nat}
    (inside : place < blockSize) :
    ByteMap.ofList (block.overwrite chunk).bytes place =
      (ByteMap.ofList block.bytes).write 0 chunk place := by
  simp only [ByteMap.ofList, BlockBytes.overwrite, List.getD, List.getElem?_take_of_lt inside]
  by_cases covered : place < chunk.length
  · rw [ByteMap.write_inside (Nat.zero_le _) (by omega), List.getElem?_append_left covered]
    rfl
  · rw [ByteMap.write_outside (by omega), List.getElem?_append_right (by omega),
      List.getElem?_drop, ByteMap.ofList, List.getD, Nat.add_sub_cancel' (by omega)]

theorem image_insert (disk : CowDisk) (address other : Nat) (block : Block) :
    image { disk with writes := disk.writes.insert address block } other =
      if other = address then block.bytes else disk.image other := by
  simp only [image, visibleBlock, Overlay.lookup_cons, TreeMap.getElem?_insert_ite]
  by_cases here : other = address
  · simp [here]
  · simp [here]

theorem content_insert (disk : CowDisk) (address : Nat) (block : Block) {chunk : List UInt8}
    (small : chunk.length ≤ blockSize)
    (bytes : block.bytes = (disk.image address).overwrite chunk) :
    content { disk with writes := disk.writes.insert address block } =
      disk.content.write (address * blockSize) chunk := by
  have joins := Pages.joined_write (fun address => ByteMap.ofList (disk.image address).bytes)
    address (show 0 + chunk.length ≤ blockSize by omega)
  rw [Nat.add_zero] at joins
  refine Eq.trans ?_ joins
  refine Pages.joined_congr (by decide) fun other place inside => ?_
  rw [image_insert, Function.update_apply]
  split
  next here => rw [bytes, ofList_overwrite _ _ inside]
  next => rfl

theorem content_sealWrites (disk : CowDisk) : disk.sealWrites.content = disk.content := by
  have same : disk.sealWrites.image = disk.image := by
    funext address
    simp only [image, visibleBlock, sealWrites, Overlay.lookup_empty_cons, Overlay.lookup_push]
  rw [content, same, content]

end CowDisk

/-!
## Calls on a disk
-/

namespace DurableCowDisk

theorem ends_append_calm (world : RedoxWorld) (durable : DurableCowDisk) (address : Nat)
    (block : Block) :
    Ends (append address block) (world, durable) fun result after =>
      StaysQuiet world after.1 ∧ (world.faults = [] → result = .ok ()) := by
  have calm : Moves (Behind StaysQuiet) (append address block) := frame_append address block
  refine (calm (world, durable)).and fun quiet => ?_
  have written : Ends (append address block) (world, durable) fun result _ => result = .ok () :=
    ends_append rfl address block (fun _ _ _ _ => rfl) fun _ _ _ torn =>
      absurd quiet (ne_nil_of_torn torn)
  exact written

end DurableCowDisk

namespace CowDisk

variable {world : RedoxWorld} {disk : CowDisk}

/-- What a call leaves of a disk: its size, whether it is durable, and the given bytes. -/
structure Left (world : RedoxWorld) (disk : CowDisk) (content : ByteMap)
    (after : RedoxWorld × CowDisk) : Prop where
  content : after.2.content = content
  size : after.2.size = disk.size
  durable : after.2.durable.isSome = disk.durable.isSome
  quiet : StaysQuiet world after.1

/-- The host of a durable disk failed. -/
def HostFailed (world : RedoxWorld) (disk : CowDisk) : Prop :=
  disk.durable.isSome ∧ world.faults ≠ []

theorem ends_writeBlock_content {address : Nat} {chunk : List UInt8}
    (small : chunk.length ≤ blockSize) (world : RedoxWorld) (disk : CowDisk) :
    Ends (writeBlock address chunk) (world, disk) fun result after =>
      Left world disk (disk.content.write (address * blockSize) chunk) after ∧
        (result = .ok () ∨ result = .error (.os Host.eio) ∧ HostFailed world disk) := by
  have inserted := content_insert disk address
    { id := world.nextBlockId, bytes := (disk.image address).overwrite chunk } small rfl
  simp only [writeBlock, ends_bind, ends_get, ends_set]
  cases side : disk.durable with
  | none =>
    simp only [side] at inserted
    exact ⟨⟨inserted, rfl, by rw [side]; rfl, fun quiet => quiet⟩, .inl rfl⟩
  | some durable =>
    unfold onDurable
    rw [ends_within]
    refine (DurableCowDisk.ends_append_calm _ durable address _).mono ?_
    intro result after done
    refine ⟨⟨inserted, rfl, by rw [side]; rfl, done.1⟩, ?_⟩
    cases result with
    | ok value => exact .inl rfl
    | error error =>
      exact .inr ⟨rfl, by rw [side]; rfl, fun quiet => by cases done.2 quiet⟩

theorem Left.trans {content last : ByteMap} {middle after : RedoxWorld × CowDisk}
    (first : Left world disk content middle) (second : Left middle.1 middle.2 last after) :
    Left world disk last after :=
  ⟨second.content, second.size.trans first.size, second.durable.trans first.durable,
    second.quiet ∘ first.quiet⟩

/-- The chunks that are left of a write. A failing write has stored a part of them. -/
theorem ends_writeChunks (block index : Nat) (data : List UInt8) (world : RedoxWorld)
    (disk : CowDisk) :
    Ends (forM ((Words.chunks blockSize data).zipIdx index) fun (chunk, index) =>
        writeBlock (block + index) chunk) (world, disk) fun result after =>
      (result = .ok () ∧
        Left world disk (disk.content.write ((block + index) * blockSize) data) after) ∨
      (result = .error (.os Host.eio) ∧ HostFailed world disk ∧ ∃ stored ≤ data.length,
        Left world disk (disk.content.write ((block + index) * blockSize) (data.take stored))
          after) := by
  generalize length : data.length = count
  induction count using Nat.strong_induction_on generalizing data index world disk with
  | _ count ih =>
    by_cases more : data = []
    · subst more
      rw [Words.chunks_nil (by decide), ByteMap.write_nil]
      exact .inl ⟨rfl, rfl, rfl, rfl, fun quiet => quiet⟩
    · have nonempty := List.length_pos_of_ne_nil more
      have shorter : (data.drop blockSize).length < count := by
        rw [List.length_drop]
        unfold blockSize
        omega
      have next : (block + (index + 1)) * blockSize = (block + index) * blockSize + blockSize := by
        rw [← Nat.add_assoc, Nat.add_mul _ 1, Nat.one_mul]
      rw [Words.chunks_cons (by decide) more, List.zipIdx_cons, List.forM_cons, ends_bind]
      refine (ends_writeBlock_content (List.length_take_le _ _) world disk).mono ?_
      rintro result ⟨middleWorld, middleDisk⟩ ⟨left, rfl | ⟨rfl, failed⟩⟩
      · refine (ih _ shorter (index + 1) (data.drop blockSize) middleWorld middleDisk rfl).mono ?_
        rintro result after (⟨rfl, rest⟩ | ⟨rfl, failed, stored, few, rest⟩)
        · rw [left.content, next, ByteMap.write_take_drop] at rest
          exact .inl ⟨rfl, left.trans rest⟩
        · refine .inr ⟨rfl, ⟨left.durable ▸ failed.1, fun quiet => failed.2 (left.quiet quiet)⟩,
            min (blockSize + stored) data.length, by omega, ?_⟩
          have parts := ByteMap.write_take_drop disk.content ((block + index) * blockSize)
            blockSize (data.take (blockSize + stored))
          rw [List.take_take, Nat.min_eq_left (Nat.le_add_right _ _), List.drop_take,
            Nat.add_sub_cancel_left] at parts
          rw [left.content, next, parts] at rest
          rw [← List.take_eq_take_min]
          exact left.trans rest
      · refine .inr ⟨rfl, failed, min blockSize data.length, by omega, ?_⟩
        rw [← List.take_eq_take_min]
        exact left

theorem ends_writeAt_content (block : Nat) (buffer : List UInt8) (world : RedoxWorld)
    (disk : CowDisk) :
    Ends (writeAt block buffer) (world, disk) fun result after =>
      (¬ InRange disk.size block buffer.length ∧ result = .error (.os Host.eio) ∧
        after = (world, disk)) ∨
      (InRange disk.size block buffer.length ∧ result = .ok buffer.length ∧
        Left world disk (disk.content.write (block * blockSize) buffer) after) ∨
      (InRange disk.size block buffer.length ∧ result = .error (.os Host.eio) ∧
        HostFailed world disk ∧ ∃ stored ≤ buffer.length,
          Left world disk (disk.content.write (block * blockSize) (buffer.take stored)) after) := by
  simp only [writeAt, ends_bind, ends_get, ends_ofExcept, checkRange_eq]
  by_cases inside : InRange disk.size block buffer.length
  · simp only [if_pos inside]
    refine (ends_writeChunks block 0 buffer world disk).mono ?_
    rintro result after (⟨rfl, left⟩ | ⟨rfl, failed, stored⟩)
    · exact .inr (.inl ⟨inside, rfl, left⟩)
    · exact .inr (.inr ⟨inside, rfl, failed, stored⟩)
  · simp only [if_neg inside]
    exact .inl ⟨inside, trivial, trivial⟩

theorem ends_fork_content (world : RedoxWorld) (disk : CowDisk) :
    Ends fork (world, disk) fun result after => Left world disk disk.content after ∧
      (∀ child, result = .ok child → child.content = disk.content ∧ child.size = disk.size ∧
        child.durable.isSome = disk.durable.isSome) ∧
      ∀ error, result = .error error → disk.durable.isSome := by
  have sealed := content_sealWrites disk
  simp only [fork, ends_bind, ends_get]
  cases side : disk.durable with
  | none =>
    refine ⟨⟨sealed, rfl, rfl, fun quiet => quiet⟩, fun child returned => ?_,
      not_error⟩
    cases returned
    exact ⟨sealed, rfl, rfl⟩
  | some durable =>
    simp only [ends_bind, onDurable, ends_within]
    have frame : ∀ whole, Moves (Behind StaysQuiet) (DurableCowDisk.fork whole) :=
      DurableCowDisk.frame_fork
    refine (frame _ (world, durable)).mono ?_
    intro result after calm
    cases result with
    | error error =>
      exact ⟨⟨rfl, rfl, by rw [side]; rfl, calm⟩, not_ok,
        fun _ _ => rfl⟩
    | ok child =>
      refine ⟨⟨sealed, rfl, by rw [side]; rfl, calm⟩, fun child returned => ?_,
        not_error⟩
      cases returned
      exact ⟨sealed, rfl, rfl⟩

theorem ends_durableState_content (world : RedoxWorld) (disk : CowDisk) :
    Ends durableState (world, disk) fun _ after => Left world disk disk.content after := by
  have sealed := content_sealWrites disk
  simp only [durableState, ends_bind, ends_get]
  cases side : disk.durable with
  | none => exact ⟨rfl, rfl, rfl, fun quiet => quiet⟩
  | some durable =>
    simp only [ends_bind, onDurable, ends_within]
    have frame : ∀ size whole, Moves (Behind StaysQuiet) (DurableCowDisk.checkpoint size whole) :=
      DurableCowDisk.frame_checkpoint
    refine (frame _ _ (world, durable)).mono ?_
    intro result after calm
    cases result with
    | error error => exact ⟨rfl, rfl, by rw [side]; rfl, calm⟩
    | ok state => exact ⟨sealed, rfl, by rw [side]; rfl, calm⟩

end CowDisk

/-!
## Trees of disks
-/

structure DiskTree where
  world : RedoxWorld
  nextDisk : Nat
  disks : Nat → Option CowDisk

inductive TreeAction where
  | read (disk block len : Nat)
  | write (disk block : Nat) (buffer : List UInt8)
  | fork (disk : Nat)
  | drop (disk : Nat)
  deriving DecidableEq, Repr

inductive TreeReply where
  | bytes (data : List UInt8)
  | wrote (count : Nat)
  | forked (disk : Nat)
  | dropped
  | failed (error : IoError)
  | absent
  deriving DecidableEq, Repr

namespace DiskTree

def root (world : RedoxWorld) (size : Nat) (durable : Option DurableCowDisk) : DiskTree where
  world
  nextDisk := 1
  disks := Function.update (fun _ => none) 0 (some { size, base := [], writes := ∅, durable })

def put (tree : DiskTree) (world : RedoxWorld) (index : Nat) (disk : Option CowDisk) : DiskTree :=
  { tree with world, disks := Function.update tree.disks index disk }

def add (tree : DiskTree) (disk : CowDisk) : DiskTree :=
  { tree.put tree.world tree.nextDisk (some disk) with nextDisk := tree.nextDisk + 1 }

def act (tree : DiskTree) (disk : CowDisk) : TreeAction → DiskTree × TreeReply
  | .read _ block len => (tree, match disk.readAt block len with
      | .ok data => .bytes data
      | .error error => .failed error)
  | .write index block buffer =>
    match (CowDisk.writeAt block buffer).exec (tree.world, disk) with
    | (.ok count, world, after) => (tree.put world index (some after), .wrote count)
    | (.error error, world, after) => (tree.put world index (some after), .failed error)
  | .fork index =>
    match CowDisk.fork.exec (tree.world, disk) with
    | (.ok child, world, after) =>
      ((tree.put world index (some after)).add child, .forked tree.nextDisk)
    | (.error error, world, after) => (tree.put world index (some after), .failed error)
  | .drop index => (tree.put tree.world index none, .dropped)

end DiskTree

def TreeAction.disk : TreeAction → Nat
  | .read disk _ _ | .write disk _ _ | .fork disk | .drop disk => disk

namespace DiskTree

def step (tree : DiskTree) (action : TreeAction) : DiskTree × TreeReply :=
  match tree.disks action.disk with
  | none => (tree, .absent)
  | some disk => tree.act disk action

end DiskTree

/-!
## Private arrays
-/

/-- The arrays of the branches, all of one size. Some branches are durable. -/
@[ext] structure PrivateDisks where
  nextDisk : Nat
  arrays : Nat → Option ByteMap

namespace PrivateDisks

def set (disks : PrivateDisks) (index : Nat) (array : Option ByteMap) : PrivateDisks :=
  { disks with arrays := Function.update disks.arrays index array }

def add (disks : PrivateDisks) (array : ByteMap) : PrivateDisks :=
  { disks.set disks.nextDisk (some array) with nextDisk := disks.nextDisk + 1 }

def root : PrivateDisks where
  nextDisk := 1
  arrays := Function.update (fun _ => none) 0 (some ByteMap.zero)

/-- The steps of branches of `size` bytes that own their arrays. Only the host of a durable
branch can fail a write or a fork; a failed write has stored a part of its buffer. -/
inductive Step (size : Nat) (durable : Bool) (disks : PrivateDisks) :
    TreeAction → TreeReply → PrivateDisks → Prop
  | absent {action : TreeAction} (gone : disks.arrays action.disk = none) :
      Step size durable disks action .absent disks
  | read {index block len : Nat} {array : ByteMap} (live : disks.arrays index = some array)
      (inside : InRange size block len) :
      Step size durable disks (.read index block len)
        (.bytes (array.read (block * blockSize) len)) disks
  | readOutside {index block len : Nat} {array : ByteMap} (live : disks.arrays index = some array)
      (outside : ¬ InRange size block len) :
      Step size durable disks (.read index block len) (.failed (.os Host.eio)) disks
  | write {index block : Nat} {buffer : List UInt8} {array : ByteMap}
      (live : disks.arrays index = some array) (inside : InRange size block buffer.length) :
      Step size durable disks (.write index block buffer) (.wrote buffer.length)
        (disks.set index (some (array.write (block * blockSize) buffer)))
  | writeOutside {index block : Nat} {buffer : List UInt8} {array : ByteMap}
      (live : disks.arrays index = some array) (outside : ¬ InRange size block buffer.length) :
      Step size durable disks (.write index block buffer) (.failed (.os Host.eio)) disks
  | torn {index block stored : Nat} {buffer : List UInt8} {array : ByteMap}
      (live : disks.arrays index = some array) (inside : InRange size block buffer.length)
      (hosted : durable) (short : stored ≤ buffer.length) :
      Step size durable disks (.write index block buffer) (.failed (.os Host.eio))
        (disks.set index (some (array.write (block * blockSize) (buffer.take stored))))
  | fork {index : Nat} {array : ByteMap} (live : disks.arrays index = some array) :
      Step size durable disks (.fork index) (.forked disks.nextDisk) (disks.add array)
  | forkFailed {index : Nat} {array : ByteMap} (live : disks.arrays index = some array)
      (hosted : durable) (error : IoError) :
      Step size durable disks (.fork index) (.failed error) disks
  | drop {index : Nat} {array : ByteMap} (live : disks.arrays index = some array) :
      Step size durable disks (.drop index) .dropped (disks.set index none)

end PrivateDisks

namespace DiskTree

variable {size : Nat} {durable : Bool} {tree : DiskTree}

/-- All disks are of one size, and all are durable or none is. -/
def Alike (size : Nat) (durable : Bool) (tree : DiskTree) : Prop :=
  ∀ index disk, tree.disks index = some disk → disk.size = size ∧ disk.durable.isSome = durable

/-- The arrays that the blocks of the disks stand for. -/
def arrays (tree : DiskTree) : PrivateDisks :=
  { nextDisk := tree.nextDisk, arrays := fun index => (tree.disks index).map CowDisk.content }

theorem arrays_put (tree : DiskTree) (world : RedoxWorld) (index : Nat) (disk : Option CowDisk) :
    (tree.put world index disk).arrays = tree.arrays.set index (disk.map CowDisk.content) := by
  refine PrivateDisks.ext rfl (funext fun other => ?_)
  simp only [arrays, put, PrivateDisks.set, Function.update_apply]
  split <;> rfl

theorem arrays_add (tree : DiskTree) (disk : CowDisk) :
    (tree.add disk).arrays = tree.arrays.add disk.content := by
  have put := congrArg PrivateDisks.arrays (arrays_put tree tree.world tree.nextDisk (some disk))
  exact PrivateDisks.ext rfl put

theorem arrays_put_left {index : Nat} {disk : CowDisk} (found : tree.disks index = some disk)
    {after : RedoxWorld × CowDisk} (left : CowDisk.Left tree.world disk disk.content after) :
    (tree.put after.1 index (some after.2)).arrays = tree.arrays := by
  have there : tree.arrays.arrays index = some disk.content := by simp [arrays, found]
  rw [arrays_put, Option.map_some, left.content, PrivateDisks.set, ← there, Function.update_eq_self]

theorem Alike.put (alike : tree.Alike size durable) (world : RedoxWorld) (index : Nat)
    {disk : Option CowDisk}
    (same : ∀ after, disk = some after → after.size = size ∧ after.durable.isSome = durable) :
    (tree.put world index disk).Alike size durable := by
  intro other found there
  simp only [DiskTree.put, Function.update_apply] at there
  split at there
  next => exact same found there
  next => exact alike other found there

theorem Alike.left (alike : tree.Alike size durable) {index : Nat} {disk : CowDisk}
    (found : tree.disks index = some disk) {content : ByteMap} {after : RedoxWorld × CowDisk}
    (left : CowDisk.Left tree.world disk content after) :
    (tree.put after.1 index (some after.2)).Alike size durable := by
  refine alike.put _ _ fun same here => ?_
  cases here
  rw [left.size, left.durable]
  exact alike index disk found

/-- What one step does: it is a step of the private arrays, and the host stays quiet. -/
structure Stepped (size : Nat) (durable : Bool) (tree : DiskTree) (action : TreeAction)
    (after : DiskTree × TreeReply) : Prop where
  alike : after.1.Alike size durable
  quiet : StaysQuiet tree.world after.1.world
  simulated : PrivateDisks.Step size durable tree.arrays action after.2 after.1.arrays
  succeeds : tree.world.faults = [] → ∀ index block buffer, action = .write index block buffer →
    InRange size block buffer.length → ∀ error, after.2 ≠ .failed error

section Steps

variable {disk : CowDisk} {index : Nat}

theorem stepped_read (alike : tree.Alike size durable) (found : tree.disks index = some disk)
    (block len : Nat) : Stepped size durable tree (.read index block len)
      (tree.act disk (.read index block len)) := by
  have live : tree.arrays.arrays index = some disk.content := by simp [arrays, found]
  refine ⟨alike, fun quiet => quiet, ?_, fun _ _ _ _ other => by cases other⟩
  simp only [act, CowDisk.readAt_eq, (alike index disk found).1]
  by_cases inside : InRange size block len
  · rw [if_pos inside]
    exact .read live inside
  · rw [if_neg inside]
    exact .readOutside live inside

theorem stepped_write (alike : tree.Alike size durable) (found : tree.disks index = some disk)
    (block : Nat) (buffer : List UInt8) : Stepped size durable tree (.write index block buffer)
      (tree.act disk (.write index block buffer)) := by
  have live : tree.arrays.arrays index = some disk.content := by simp [arrays, found]
  obtain ⟨sized, kind⟩ := alike index disk found
  have ends := CowDisk.ends_writeAt_content block buffer tree.world disk
  simp only [act]
  cases executed : (CowDisk.writeAt block buffer).exec (tree.world, disk) with
  | mk result after =>
    have outcome := ends.of_exec executed
    rw [sized] at outcome
    rcases outcome with ⟨outside, rfl, rfl⟩ | ⟨inside, rfl, left⟩ | ⟨inside, rfl, failed, stored⟩
    · have same : CowDisk.Left tree.world disk disk.content (tree.world, disk) :=
        ⟨rfl, rfl, rfl, fun quiet => quiet⟩
      refine ⟨alike.left found same, fun quiet => quiet, ?_, fun _ _ _ _ this inside => ?_⟩
      · rw [arrays_put_left found same]
        exact .writeOutside live outside
      · cases this
        exact absurd inside outside
    · refine ⟨alike.left found left, left.quiet, ?_, fun _ _ _ _ _ _ error same => ?_⟩
      · dsimp only
        rw [arrays_put, Option.map_some, left.content]
        exact .write live inside
      · cases same
    · obtain ⟨count, short, left⟩ := stored
      refine ⟨alike.left found left, left.quiet, ?_, fun quiet => absurd quiet failed.2⟩
      dsimp only
      rw [arrays_put, Option.map_some, left.content]
      exact .torn live inside (kind ▸ failed.1) short

theorem stepped_fork (alike : tree.Alike size durable) (found : tree.disks index = some disk) :
    Stepped size durable tree (.fork index) (tree.act disk (.fork index)) := by
  have live : tree.arrays.arrays index = some disk.content := by simp [arrays, found]
  obtain ⟨sized, kind⟩ := alike index disk found
  have ends := CowDisk.ends_fork_content tree.world disk
  simp only [act]
  cases executed : CowDisk.fork.exec (tree.world, disk) with
  | mk result after =>
    obtain ⟨left, returned, hosted⟩ := ends.of_exec executed
    have put := arrays_put_left found left
    cases result with
    | ok child =>
      obtain ⟨content, childSize, childKind⟩ := returned child rfl
      refine ⟨?_, left.quiet, ?_, fun _ _ _ _ other => by cases other⟩
      · refine (alike.left found left).put after.1 _ fun same here => ?_
        cases here
        exact ⟨childSize.trans sized, childKind.trans kind⟩
      · dsimp only
        rw [arrays_add, put, content]
        exact .fork live
    | error error =>
      refine ⟨alike.left found left, left.quiet, ?_, fun _ _ _ _ other => by cases other⟩
      dsimp only
      rw [put]
      exact .forkFailed live (kind ▸ hosted error rfl) error

end Steps

theorem stepped (alike : tree.Alike size durable) (action : TreeAction) :
    Stepped size durable tree action (tree.step action) := by
  unfold step
  cases found : tree.disks action.disk with
  | none =>
    refine ⟨alike, fun quiet => quiet, .absent (by simp [arrays, found]), ?_⟩
    intro _ index block buffer _ _ error same
    cases same
  | some disk =>
    cases action with
    | read index block len => exact stepped_read alike found block len
    | write index block buffer => exact stepped_write alike found block buffer
    | fork index => exact stepped_fork alike found
    | drop index =>
      have live : tree.arrays.arrays index = some disk.content :=
        congrArg (Option.map CowDisk.content) found
      refine ⟨alike.put _ _ (by rintro _ ⟨⟩), fun quiet => quiet, ?_,
        fun _ _ _ _ other => by cases other⟩
      simp only [act]
      rw [arrays_put]
      exact .drop live

theorem alike_root (world : RedoxWorld) (size : Nat) (durable : Option DurableCowDisk) :
    (root world size durable).Alike size durable.isSome := by
  intro index disk found
  simp only [root, Function.update_apply] at found
  split at found
  next =>
    cases found
    exact ⟨rfl, rfl⟩
  next => cases found

theorem arrays_root (world : RedoxWorld) (size : Nat) (durable : Option DurableCowDisk) :
    (root world size durable).arrays = PrivateDisks.root := by
  refine PrivateDisks.ext rfl (funext fun index => ?_)
  simp only [arrays, root, PrivateDisks.root, Function.update_apply]
  split
  next => rw [Option.map_some, CowDisk.content_new]
  next => rfl

/-- Every run of reads, writes, forks and drops on a tree of disks that grew from one disk is
a run of branches that own their arrays. A write inside the disk fails only when the host
of a durable disk fails. -/
theorem disk_tree_refines_private_disks (world : RedoxWorld) (size : Nat)
    (durable : Option DurableCowDisk) (actions : List TreeAction) :
    Explains (PrivateDisks.Step size durable.isSome) PrivateDisks.root
        (replies step (root world size durable) actions)
        (run (fun tree action => (tree.step action).1) (root world size durable) actions).arrays ∧
      (world.faults = [] → ∀ index block buffer error,
        (.write index block buffer, .failed error) ∈
          replies step (root world size durable) actions →
        ¬ InRange size block buffer.length) := by
  have alike := alike_root world size durable
  constructor
  · rw [← arrays_root world size durable]
    exact explains_replies (Alike size durable.isSome) arrays
      (fun _ action held => (stepped held action).alike)
      (fun _ action held => (stepped held action).simulated) alike actions
  · intro quiet index block buffer error member inside
    obtain ⟨before, ⟨held, still⟩, reply⟩ := mem_replies
      (fun tree => tree.Alike size durable.isSome ∧ tree.world.faults = [])
      (fun _ action both => ⟨(stepped both.1 action).alike, (stepped both.1 action).quiet both.2⟩)
      ⟨alike, quiet⟩ member
    exact (stepped held _).succeeds still index block buffer rfl inside error reply.symm

end DiskTree

end Minidox.Redox
