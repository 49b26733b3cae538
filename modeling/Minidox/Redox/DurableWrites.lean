import Minidox.Redox.Durability

/-!
# Writes to durable disks

Every block written is appended to the overlay as one record, so that the disk
stays what its files say. A record that fails leaves a part of itself in the overlay.
-/

set_option autoImplicit false

namespace Minidox.Redox

open Foundation Attempt
open Cache (IoError Faults)
open Std (ExtTreeMap)
open RedoxWorld (Became)

/-!
## Appending
-/

/-- The sizes of the pieces in which a record is written. -/
def recordPieces : List Nat := [8, 8, blockSize]

/-- How many bytes are in the file when one of several pieces fails. -/
def tornCount : List Nat → Faults → Option Nat
  | [], _ => none
  | size :: rest, faults =>
    match faults.head?.join with
    | some fault => some (min fault.progress size)
    | none => (tornCount rest faults.tail).map (size + ·)

theorem tornCount_nil (pieces : List Nat) : tornCount pieces [] = none := by
  induction pieces with
  | nil => rfl
  | cons size rest ih =>
    rw [tornCount, List.head?_nil, Option.join_none, List.tail_nil, ih]
    rfl

theorem ne_nil_of_torn {pieces : List Nat} {faults : Faults} {count : Nat}
    (torn : tornCount pieces faults = some count) : faults ≠ [] := by
  rintro rfl
  rw [tornCount_nil] at torn
  cases torn

section Append

variable {world : RedoxWorld} {path : DirectoryPath} {directory : Directory}
  {durable : DurableCowDisk}

theorem Directory.append_append (directory : Directory) (inode : Inode)
    (first second : List UInt8) :
    (directory.append inode first).append inode second =
      directory.append inode (first ++ second) := by
  simp [append]

theorem Directory.append_nil (directory : Directory) (inode : Inode) :
    directory.append inode [] = directory := by
  simp [append]

structure Writes (path : DirectoryPath) (inode : Inode) (directory : Directory)
    (pieces : List (List UInt8)) (world : RedoxWorld)
    (post : Except IoError Unit → RedoxWorld → Prop) : Prop where
  here : world.directories path = directory
  written : ∀ after, tornCount (pieces.map List.length) world.faults = none →
    after.faults = world.faults.drop pieces.length →
    Became path (directory.append inode pieces.flatten) world after → post (.ok ()) after
  torn : ∀ error count after, tornCount (pieces.map List.length) world.faults = some count →
    Became path (directory.append inode (pieces.flatten.take count)) world after →
    post (.error error) after

theorem Writes.done {inode : Inode} {post : Except IoError Unit → RedoxWorld → Prop}
    (writes : Writes path inode directory [] world post) : post (.ok ()) world := by
  refine writes.written world rfl rfl (Became.refl ?_)
  rw [List.flatten_nil, Directory.append_nil]
  exact writes.here

theorem Writes.ends_writeAll {inode : Inode} {piece : List UInt8} {rest : List (List UInt8)}
    {post : Except IoError Unit → RedoxWorld → Prop}
    (writes : Writes path inode directory (piece :: rest) world post) :
    Ends (Host.writeAll path inode piece) world fun result after =>
      (result = .ok () → Writes path inode (directory.append inode piece) rest after post) ∧
        ∀ error, result = .error error → post (.error error) after := by
  obtain ⟨rfl, written, torn⟩ := writes
  simp only [Host.writeAll, Host.nextFault, Host.modifyDirectory, ends_bind, ends_get, ends_set,
    ends_pure]
  have taken : Became path (world.directories path) world
      { world with faults := world.faults.tail } :=
    ⟨rfl, fun _ _ => rfl, fun quiet => congrArg List.tail quiet, Nat.le_refl _, rfl⟩
  cases head : world.faults.head?.join with
  | none =>
    have became := taken.trans (RedoxWorld.became_setDirectory _ path
      ((world.directories path).append inode piece))
    refine ⟨fun _ => ⟨became.directory, fun after whole faults last => ?_,
      fun error count after found last => ?_⟩, not_error⟩
    · refine written after ?_ ?_ ?_
      · rw [List.map_cons, tornCount, head]
        exact congrArg (Option.map (piece.length + ·)) whole
      · rw [faults, List.length_cons, ← List.drop_tail]
        rfl
      · rw [List.flatten_cons, ← Directory.append_append]
        exact became.trans last
    · refine torn error (piece.length + count) after ?_ ?_
      · rw [List.map_cons, tornCount, head]
        exact congrArg (Option.map (piece.length + ·)) found
      · rw [List.flatten_cons, List.take_length_add_append, ← Directory.append_append]
        exact became.trans last
  | some fault =>
    refine ⟨fun failed => (by cases failed), fun error failed => ?_⟩
    refine torn error (min fault.progress piece.length) _ ?_ (taken.trans ?_)
    · rw [List.map_cons, tornCount, head]
    · rw [List.flatten_cons, List.take_append_of_le_length (Nat.min_le_right _ _),
        ← List.take_eq_take_min]
      exact RedoxWorld.became_setDirectory _ path _

theorem ends_append (here : world.directories durable.directory = directory) (address : Nat)
    (block : Block) {post : Except IoError Unit → RedoxWorld × DurableCowDisk → Prop}
    (written : ∀ after, tornCount recordPieces world.faults = none →
      after.faults = world.faults.drop 3 →
      Became durable.directory
        (directory.append durable.overlay (LayerRecord.encode ⟨address, block⟩)) world after →
      post (.ok ()) (after, durable))
    (torn : ∀ error count after, tornCount recordPieces world.faults = some count →
      Became durable.directory
        (directory.append durable.overlay ((LayerRecord.encode ⟨address, block⟩).take count)) world
        after → post (.error error) (after, durable)) :
    Ends (DurableCowDisk.append address block) (world, durable) post := by
  have writes : Writes durable.directory durable.overlay directory
      [Words.toLittleEndian 8 address, Words.toLittleEndian 8 block.id, block.bytes.bytes] world
      fun result after => post result (after, durable) := by
    have bytes : [Words.toLittleEndian 8 address, Words.toLittleEndian 8 block.id,
        block.bytes.bytes].flatten = LayerRecord.encode ⟨address, block⟩ := by
      simp [LayerRecord.encode]
    have sizes : [Words.toLittleEndian 8 address, Words.toLittleEndian 8 block.id,
        block.bytes.bytes].map List.length = recordPieces := by
      simp [recordPieces, block.bytes.length_bytes]
    refine ⟨here, ?_, ?_⟩
    · rw [bytes, sizes]
      exact written
    · rw [bytes, sizes]
      exact torn
  simp only [DurableCowDisk.append, ends_bind, ends_get, ends_host]
  refine writes.ends_writeAll.mono fun result first done => ?_
  cases result with
  | error error => exact done.2 error rfl
  | ok _ =>
    refine (done.1 rfl).ends_writeAll.mono fun result second done => ?_
    cases result with
    | error error => exact done.2 error rfl
    | ok _ =>
      refine (done.1 rfl).ends_writeAll.mono fun result third done => ?_
      cases result with
      | error error => exact done.2 error rfl
      | ok _ => exact (done.1 rfl).done

end Append

/-!
## What the blocks of a disk hold
-/

def imageOf (blocks : BlockMap) : Image := fun address =>
  (blocks[address]?.map Block.bytes).getD BlockBytes.zero

theorem imageOf_visibleBlocks (disk : CowDisk) : imageOf disk.visibleBlocks = disk.image := by
  funext address
  rw [imageOf, CowDisk.visibleBlocks, Overlay.getElem?_flatten]
  rfl

theorem imageOf_insert (blocks : BlockMap) (address : Nat) (block : Block) :
    imageOf (blocks.insert address block) =
      Function.update (imageOf blocks) address block.bytes := by
  funext other
  rw [imageOf, TreeMap.getElem?_insert_ite, Function.update_apply]
  split
  next => rfl
  next => rfl

theorem visibleBlocks_insert (disk : CowDisk) (address : Nat) (block : Block) :
    CowDisk.visibleBlocks { disk with writes := disk.writes.insert address block } =
      disk.visibleBlocks.insert address block := by
  apply ExtTreeMap.ext_getElem?
  intro other
  simp only [CowDisk.visibleBlocks, Overlay.getElem?_flatten, Overlay.lookup_cons,
    TreeMap.getElem?_insert_ite]
  split
  next => rfl
  next => rfl

/-- Blocks that hold what was there may be lost. -/
def Forgiving (agree : BlockMap → BlockMap → Prop) : Prop :=
  ∀ blocks other address (block : Block), agree blocks other →
    block.bytes = imageOf blocks address → agree (blocks.insert address block) other

instance agreementEq : Agreement Eq where
  refl _ := rfl
  trans := Eq.trans
  insert _ _ same := same ▸ rfl

def SameImage (left right : BlockMap) : Prop := imageOf left = imageOf right

instance agreementSameImage : Agreement SameImage where
  refl _ := rfl
  trans := Eq.trans
  insert address block same := by
    unfold SameImage
    rw [imageOf_insert, imageOf_insert, same]

theorem forgiving_sameImage : Forgiving SameImage := by
  intro blocks other address block same unchanged
  unfold SameImage
  rw [imageOf_insert, unchanged, Function.update_eq_self]
  exact same

/-!
## Records
-/

def idsFrom (next count : Nat) : List Nat :=
  (List.range count).map fun index => (next + index) % Word64.bound

theorem idsFrom_cons {next : Nat} (bounded : next < Word64.bound) (count : Nat) :
    idsFrom next (count + 1) = next :: idsFrom (Word64.wrappingAdd next 1) count := by
  simp only [idsFrom, List.range_succ_eq_map, List.map_cons, List.map_map, Nat.add_zero,
    Nat.mod_eq_of_lt bounded, List.cons.injEq, true_and]
  refine List.map_congr_left fun index _ => ?_
  simp only [Function.comp_apply, Word64.wrappingAdd, Nat.mod_add_mod]
  congr 1
  omega

theorem idsFrom_nodup {next count : Nat} (few : count ≤ Word64.bound) :
    (idsFrom next count).Nodup := by
  refine List.Nodup.map_on ?_ List.nodup_range
  intro left inLeft right inRight same
  rw [List.mem_range] at inLeft inRight
  unfold Word64.bound at *
  omega

structure Records (agree : BlockMap → BlockMap → Prop) (world : RedoxWorld)
    (directory next : Directory) (durable : DurableCowDisk) (more : List LayerRecord)
    (after : RedoxWorld × CowDisk) : Prop where
  ids : more.map (fun record => record.block.id) = idsFrom world.nextBlockId more.length
  moved : Moved durable.directory next world after.1
  sound : next.Sound
  frame : Directory.Frame (fun inode => inode = durable.overlay) directory next
  records : next.records durable.overlay = directory.records durable.overlay ++ more
  side : after.2.durable = some durable
  live : next.Live agree after.2 durable

/-- A failing record reached the file whole, or not at all and without a change. -/
def Spared (image : Image) (address : Nat) (chunk : List UInt8) (count : Nat) : Prop :=
  count = layerRecordSize ∨ count = 0 ∧ (image address).overwrite chunk = image address

instance decidableSpared (image : Image) (address : Nat) (chunk : List UInt8) (count : Nat) :
    Decidable (Spared image address chunk count) :=
  inferInstanceAs (Decidable (_ ∨ _))

namespace CowDisk

def handedOut (world : RedoxWorld) (buffer : List UInt8) : List Nat :=
  idsFrom world.nextBlockId (Words.chunks blockSize buffer).length

theorem checkRange_ok {disk : CowDisk} {block len : Nat}
    (accepted : disk.checkRange block len = .ok ()) :
    block * blockSize + len < Word64.bound := by
  unfold checkRange at accepted
  cases product : Word64.checkedMul block blockSize with
  | none =>
    rw [product] at accepted
    cases accepted
  | some offset =>
    cases total : Word64.checkedAdd offset len with
    | none =>
      rw [product, Option.bind_some, total] at accepted
      cases accepted
    | some stop =>
      have multiplied : offset = block * blockSize := by
        unfold Word64.checkedMul at product
        split at product
        next => exact (Option.some.inj product).symm
        next => cases product
      unfold Word64.checkedAdd at total
      split at total
      next below => exact multiplied ▸ below
      next => cases total

end CowDisk

section Write

variable {world : RedoxWorld} {directory : Directory} {disk : CowDisk} {durable : DurableCowDisk}
  {agree : BlockMap → BlockMap → Prop} [Agreement agree]

theorem Directory.Live.append (live : directory.Live agree disk durable) {record : LayerRecord}
    (fits : record.Fits) :
    (directory.append durable.overlay record.encode).Live agree
      { disk with writes := disk.writes.insert record.address record.block } durable where
  named := live.named
  unused empty := by simp at empty
  readable := live.readable.append fits
  visible := by
    rw [visibleBlocks_insert]
    exact live.readable.replay_append_record live.named fits ▸
      Agreement.insert record.address record.block live.visible

variable (here : world.directories durable.directory = directory) (sound : directory.Sound)
  (side : disk.durable = some durable) (live : directory.Live agree disk durable)
  (bounded : world.nextBlockId < Word64.bound)

include here sound side live bounded

omit [Agreement agree] in
theorem Records.nil : Records agree world directory directory durable [] (world, disk) :=
  ⟨rfl, ⟨here, fun _ _ => rfl, id, bounded⟩, sound, Directory.Frame.refl,
    (List.append_nil _).symm, side, live⟩

variable (forgiving : world.faults ≠ [] → Forgiving agree)

include forgiving

theorem ends_writeBlock {address : Nat} (small : address < Word64.bound) (chunk : List UInt8)
    (spared : ∀ count, tornCount recordPieces world.faults = some count →
      Spared disk.image address chunk count)
    {post : Except IoError Unit → RedoxWorld × CowDisk → Prop}
    (written : ∀ next record after, tornCount recordPieces world.faults = none →
      after.1.faults = world.faults.drop 3 →
      after.1.nextBlockId = Word64.wrappingAdd world.nextBlockId 1 →
      after.2.image = Function.update disk.image address ((disk.image address).overwrite chunk) →
      Records agree world directory next durable [record] after → post (.ok ()) after)
    (torn : ∀ error next more after, more.length ≤ 1 →
      Records agree world directory next durable more after → post (.error error) after) :
    Ends (CowDisk.writeBlock address chunk) (world, disk) post := by
  simp only [CowDisk.writeBlock, ends_bind, ends_get, ends_set, side]
  unfold CowDisk.onDurable
  rw [ends_within]
  let record : LayerRecord :=
    ⟨address, { id := world.nextBlockId, bytes := (disk.image address).overwrite chunk }⟩
  have fits : record.Fits := ⟨small, bounded⟩
  have next : Word64.wrappingAdd world.nextBlockId 1 < Word64.bound := Nat.mod_lt _ (by decide)
  have whole := (Directory.readable_singleton live.named).mp
    (Directory.readable_append.mp live.readable).2
  have recorded : ∀ after, Became durable.directory
      (directory.append durable.overlay record.encode)
      (world.blocksTo (Word64.wrappingAdd world.nextBlockId 1)) after →
      Records agree world directory (directory.append durable.overlay record.encode) durable
        [record] (after, ⟨disk.size, disk.base, disk.writes.insert address record.block,
          some durable⟩) :=
    fun after became => ⟨(idsFrom_cons bounded 0).symm, became.moved next,
      sound.append _ (sound.inode_lt _ _ live.named), Directory.frame_append rfl,
      (Directory.append_whole whole fits).2, rfl, { live.append fits with }⟩
  have started : (world.blocksTo (Word64.wrappingAdd world.nextBlockId 1)).directories
      durable.directory = directory := here
  refine ends_append started address _ (fun after none faults became => ?_)
    fun error count after some became => ?_
  · refine written _ record _ none faults became.blockIds ?_ (recorded after became)
    exact (imageOf_visibleBlocks _).symm.trans ((congrArg imageOf
      (visibleBlocks_insert disk address record.block)).trans
        ((imageOf_insert _ address record.block).trans (by rw [imageOf_visibleBlocks])))
  · cases spared count some with
    | inl full =>
      rw [List.take_of_length_le (Nat.le_of_eq ((LayerRecord.length_encode _).trans full.symm))]
        at became
      exact torn _ _ [record] _ (Nat.le_refl _) (recorded after became)
    | inr lost =>
      obtain ⟨rfl, unchanged⟩ := lost
      rw [List.take_zero, Directory.append_nil] at became
      refine torn _ directory [] _ (Nat.zero_le _) ⟨rfl, became.moved next, sound,
        Directory.Frame.refl, (List.append_nil _).symm, rfl, live.named, fun empty => ?_,
        live.readable, ?_⟩
      · simp at empty
      · refine (visibleBlocks_insert disk address record.block).symm ▸
          forgiving (ne_nil_of_torn some) _ _ address record.block live.visible ?_
        rw [imageOf_visibleBlocks]
        exact unchanged

/-- A write whose failing record, if there is one, is spared. -/
def Spares (block : Nat) : Image → List (List UInt8 × Nat) → Faults → Bool
  | _, [], _ => true
  | image, (chunk, index) :: rest, faults =>
    match tornCount recordPieces faults with
    | none => Spares block (Function.update image (block + index)
        ((image (block + index)).overwrite chunk)) rest (faults.drop 3)
    | some count => Spared image (block + index) chunk count

/-- The chunks of a write are records with consecutive block ids. -/
theorem ends_writeBlocks (block : Nat) (items : List (List UInt8 × Nat))
    (small : ∀ item ∈ items, block + item.2 < Word64.bound)
    (spares : Spares block disk.image items world.faults) :
    Ends (forM items fun item => CowDisk.writeBlock (block + item.2) item.1) (world, disk)
      fun _ after => ∃ next more, more.length ≤ items.length ∧
        Records agree world directory next durable more after := by
  induction items generalizing world directory disk with
  | nil => exact ⟨directory, [], Nat.le_refl _, Records.nil here sound side live bounded⟩
  | cons item rest ih =>
    rw [List.forM_cons, ends_bind]
    rw [Spares] at spares
    refine ends_writeBlock here sound side live bounded forgiving (small item List.mem_cons_self)
      item.1 (fun count some => ?_) (fun next record after none faults ids image first => ?_)
      fun error next more after few first =>
        ⟨next, more, Nat.le_trans few (Nat.succ_le_succ (Nat.zero_le _)), first⟩
    · rw [some] at spares
      simpa using spares
    · rw [none, ← image, ← faults] at spares
      refine (ih first.moved.directory first.sound first.side first.live first.moved.bounded
        (fun faulty => forgiving fun quiet => faulty (first.moved.quiet quiet))
        (fun other member => small other (List.mem_cons_of_mem _ member)) spares).mono ?_
      rintro result last ⟨final, more, few, later⟩
      refine ⟨final, record :: more, Nat.succ_le_succ few, ?_, first.moved.trans later.moved,
        later.sound, first.frame.trans later.frame, ?_, later.side, later.live⟩
      · have recordId := first.ids
        rw [List.length_singleton, idsFrom_cons bounded] at recordId
        rw [List.map_cons, later.ids, ids, List.length_cons, idsFrom_cons bounded]
        exact congrArg (· :: _) (List.cons.inj recordId).1
      · rw [later.records, first.records, List.append_assoc]
        rfl

/-- A write records nothing when it is refused, or one record for each block up to a failure. -/
theorem ends_writeAt (block : Nat) (buffer : List UInt8)
    (spares : Spares block disk.image (Words.chunks blockSize buffer).zipIdx world.faults) :
    Ends (CowDisk.writeAt block buffer) (world, disk) fun _ after => ∃ next more,
      more.length ≤ (Words.chunks blockSize buffer).length ∧ more.length < Word64.bound ∧
        Records agree world directory next durable more after := by
  simp only [CowDisk.writeAt, ends_bind, ends_get, ends_ofExcept]
  cases accepted : disk.checkRange block buffer.length with
  | error error =>
    exact ⟨directory, [], Nat.zero_le _, by decide, Records.nil here sound side live bounded⟩
  | ok _ =>
    have inRange := CowDisk.checkRange_ok accepted
    have count : (Words.chunks blockSize buffer).length =
        (buffer.length + blockSize - 1) / blockSize := by simp [Words.chunks]
    have below : ∀ index < (Words.chunks blockSize buffer).length,
        block + index < Word64.bound := by
      intro index inside
      rw [count] at inside
      unfold blockSize Word64.bound at *
      omega
    have few : (Words.chunks blockSize buffer).length < Word64.bound := by
      rw [count]
      unfold blockSize Word64.bound at *
      omega
    refine (ends_writeBlocks here sound side live bounded forgiving block
      (Words.chunks blockSize buffer).zipIdx (fun item member =>
        below item.2 (List.snd_lt_of_mem_zipIdx member))
      spares).mono ?_
    rintro result after ⟨next, more, length, records⟩
    rw [List.length_zipIdx] at length
    have done : ∃ next more, more.length ≤ (Words.chunks blockSize buffer).length ∧
        more.length < Word64.bound ∧ Records agree world directory next durable more after :=
      ⟨next, more, length, Nat.lt_of_le_of_lt length few, records⟩
    cases result with
    | error error => exact done
    | ok _ => exact done

end Write

end Minidox.Redox
