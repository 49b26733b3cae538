import Minidox.Foundation.Overlay
import Minidox.Foundation.Words
import Minidox.Redox.Directory

/-!
# Durable layers

`DurableCowDisk` of `minidox-redoxfs/src/branching.rs`: the files behind a
copy-on-write disk. Every block written is appended to the overlay of the branch
as one record; a fork or a checkpoint links the overlay as a layer and goes on with
a new overlay.
-/

set_option autoImplicit false

namespace Minidox.Redox

open Foundation Attempt
open Cache (IoError)
open Std (ExtTreeMap)

def blockSize : Nat := 4096

/-- `[u8; BLOCK_SIZE]`. -/
@[ext] structure BlockBytes where
  bytes : List UInt8
  length_bytes : bytes.length = blockSize
  deriving DecidableEq

namespace BlockBytes

def zero : BlockBytes := ⟨List.replicate blockSize 0, List.length_replicate⟩

/-- The start of the block is replaced by the chunk. -/
def overwrite (block : BlockBytes) (chunk : List UInt8) : BlockBytes where
  bytes := (chunk ++ block.bytes.drop chunk.length).take blockSize
  length_bytes := by
    have length := block.length_bytes
    simp only [List.length_take, List.length_append, List.length_drop]
    omega

theorem overwrite_whole (block : BlockBytes) {chunk : List UInt8}
    (whole : chunk.length = blockSize) : (block.overwrite chunk).bytes = chunk := by
  have covered : block.bytes.drop chunk.length = [] :=
    List.drop_eq_nil_of_le (by rw [block.length_bytes, whole])
  simp only [overwrite, covered, List.append_nil]
  rw [← whole, List.take_length]

end BlockBytes

@[ext] structure Block where
  id : Nat
  bytes : BlockBytes
  deriving DecidableEq

/-- Blocks by address, or block objects by id. -/
abbrev BlockMap := ExtTreeMap Nat Block

/-!
## Records
-/

def layerRecordSize : Nat := 16 + blockSize

structure LayerRecord where
  address : Nat
  block : Block
  deriving DecidableEq

namespace LayerRecord

def encode (record : LayerRecord) : List UInt8 :=
  Words.toLittleEndian 8 record.address ++ Words.toLittleEndian 8 record.block.id ++
    record.block.bytes.bytes

def decode (bytes : List UInt8) : LayerRecord where
  address := Words.ofLittleEndian (bytes.take 8)
  block :=
    { id := Words.ofLittleEndian ((bytes.drop 8).take 8)
      bytes := BlockBytes.zero.overwrite (bytes.drop 16) }

def Fits (record : LayerRecord) : Prop :=
  record.address < Word64.bound ∧ record.block.id < Word64.bound

theorem length_encode (record : LayerRecord) : record.encode.length = layerRecordSize := by
  simp only [encode, List.length_append, Words.length_toLittleEndian,
      record.block.bytes.length_bytes]
  rfl

theorem decode_encode {record : LayerRecord} (fits : record.Fits) :
    decode record.encode = record := by
  obtain ⟨address, id, bytes⟩ := record
  have word : Word64.bound = 256 ^ 8 := by decide
  have first : (Words.toLittleEndian 8 address).length = 8 := Words.length_toLittleEndian 8 address
  have second : (Words.toLittleEndian 8 id).length = 8 := Words.length_toLittleEndian 8 id
  have tail : (encode ⟨address, id, bytes⟩).drop 8 = Words.toLittleEndian 8 id ++ bytes.bytes := by
    rw [encode, List.append_assoc, List.drop_left' first]
  have body : (encode ⟨address, id, bytes⟩).drop 16 = bytes.bytes := by
    rw [show 16 = 8 + 8 from rfl, ← List.drop_drop, tail, List.drop_left' second]
  simp only [decode, tail, body, LayerRecord.mk.injEq, Block.mk.injEq]
  refine ⟨?_, ?_, ?_⟩
  · rw [encode, List.append_assoc, List.take_left' first]
    exact Words.ofLittleEndian_toLittleEndian (word ▸ fits.1)
  · rw [List.take_left' second]
    exact Words.ofLittleEndian_toLittleEndian (word ▸ fits.2)
  · exact BlockBytes.ext (BlockBytes.overwrite_whole _ bytes.length_bytes)

end LayerRecord

/-- The records of a layer file. -/
def recordsOf (bytes : List UInt8) : List LayerRecord :=
  (Words.chunksExact layerRecordSize bytes).map LayerRecord.decode

def encodeAll (records : List LayerRecord) : List UInt8 :=
  (records.map LayerRecord.encode).flatten

theorem encodeAll_append (first second : List LayerRecord) :
    encodeAll (first ++ second) = encodeAll first ++ encodeAll second := by
  simp [encodeAll]

theorem length_encodeAll (records : List LayerRecord) :
    (encodeAll records).length = records.length * layerRecordSize := by
  induction records with
  | nil => simp [encodeAll]
  | cons record rest ih =>
    rw [show record :: rest = [record] ++ rest from rfl, encodeAll_append, List.length_append, ih,
      List.length_append, Nat.add_mul]
    simp [encodeAll, LayerRecord.length_encode]

theorem recordsOf_encodeAll {records : List LayerRecord}
    (fit : ∀ record ∈ records, record.Fits) : recordsOf (encodeAll records) = records := by
  have whole : ∀ piece ∈ records.map LayerRecord.encode, piece.length = layerRecordSize := by
    intro piece member
    obtain ⟨record, -, rfl⟩ := List.mem_map.mp member
    exact record.length_encode
  rw [recordsOf, encodeAll, Words.chunksExact_flatten (by decide) whole, List.map_map]
  calc records.map (LayerRecord.decode ∘ LayerRecord.encode)
      = records.map id := List.map_congr_left fun record member =>
        LayerRecord.decode_encode (fit record member)
    _ = records := List.map_id records

/-!
## Loading
-/

/-- Block objects by id, and the blocks that are visible so far. -/
structure Loaded where
  objects : BlockMap
  visible : BlockMap

/-- `NEXT_BLOCK_ID` moves past an id that was read. -/
def reserveBlockId (id : Nat) : HostM Unit :=
  modify fun world =>
    { world with nextBlockId := max world.nextBlockId (Word64.saturatingAdd id 1) }

/-- One record of `load_records`. A block object with the id of the record is shared. -/
def loadRecord (loaded : Loaded) (record : LayerRecord) : HostM Loaded := do
  let block := (loaded.objects[record.block.id]?).getD record.block
  let id := record.block.id
  require (block.bytes = record.block.bytes)
    (.invalidData s!"filesystem block object {id} has conflicting contents")
  reserveBlockId id
  pure
    { objects := loaded.objects.insertIfNew id block
      visible := loaded.visible.insert record.address block }

def loadRecords (path : DirectoryPath) (kind : FileKind) (id : Nat) (loaded : Loaded) :
    HostM Loaded := do
  let bytes ← Host.readFile path kind id
  let name := kind.name
  require (bytes.length % layerRecordSize = 0)
    (.invalidData s!"filesystem layer {path}/{name}-{id} ends with a partial block record")
  (recordsOf bytes).foldlM loadRecord loaded

/-!
## The durable side of a disk
-/

structure DurableDiskState where
  size : Nat
  layers : List Nat
  overlay : Nat
  deriving DecidableEq, Repr

/-- The blocks of a state, as `DurableCowDisk::restore` reads them: those of the overlay are read
into a map of their own. -/
def loadState (directory : DirectoryPath) (state : DurableDiskState) (objects : BlockMap) :
    HostM Loaded := do
  let base ← state.layers.foldlM (fun loaded layer => loadRecords directory .layer layer loaded)
    { objects, visible := ∅ }
  let snapshot ← loadRecords directory .overlay state.overlay
    { objects := base.objects, visible := ∅ }
  pure { objects := snapshot.objects, visible := TreeMap.extend base.visible snapshot.visible }

structure DurableCowDisk where
  directory : DirectoryPath
  layers : List Nat
  overlayId : Nat
  overlay : Inode
  deriving DecidableEq, Repr

abbrev DurableM := Attempt (RedoxWorld × DurableCowDisk) IoError

namespace DurableCowDisk

variable {α : Type}

def host (operation : HostM α) : DurableM α :=
  within Prod.fst (fun world pair => (world, pair.2)) id operation

def create (directory : DirectoryPath) : HostM DurableCowDisk := do
  Host.probe
  let (overlayId, overlay) ← Host.createNumberedFile directory .overlay
  Host.syncDirectory
  pure { directory, layers := [], overlayId, overlay }

/-- `NEXT_DURABLE_LAYER_ID` moves past the numbers of a state. -/
def reserveLayerIds (state : DurableDiskState) : HostM Unit :=
  modify fun world =>
    { world with
      nextDurableLayerId := max world.nextDurableLayerId
        (Word64.saturatingAdd ((state.layers ++ [state.overlay]).foldr max 0) 1) }

/-- The overlay gets a layer name, under which it is synced. -/
def linkLayer (directory : DirectoryPath) (overlayId : Nat) : HostM Nat := do
  let layer ← Host.linkNumberedFile directory .layer overlayId
  Host.syncFile directory .layer layer
  pure layer

/-- A restored overlay becomes a layer of the branch, unless it is empty. -/
def adoptOverlay (directory : DirectoryPath) (state : DurableDiskState) : HostM (List Nat) := do
  let bytes ← Host.readFile directory .overlay state.overlay
  if bytes.length > 0 then
    let layer ← linkLayer directory state.overlay
    pure (state.layers ++ [layer])
  else
    pure state.layers

/-- The durable side, the blocks of the state, and the block objects read so far. -/
def restore (directory : DirectoryPath) (state : DurableDiskState) (objects : BlockMap) :
    HostM (DurableCowDisk × BlockMap × BlockMap) := do
  let loaded ← loadState directory state objects
  reserveLayerIds state
  let layers ← adoptOverlay directory state
  let (overlayId, overlay) ← Host.createNumberedFile directory .overlay
  Host.syncDirectory
  pure ({ directory, layers, overlayId, overlay }, loaded.visible, loaded.objects)

def append (address : Nat) (block : Block) : DurableM Unit := do
  let (_, disk) ← get
  host (Host.writeAll disk.directory disk.overlay (Words.toLittleEndian 8 address))
  host (Host.writeAll disk.directory disk.overlay (Words.toLittleEndian 8 block.id))
  host (Host.writeAll disk.directory disk.overlay block.bytes.bytes)

/-- The overlay of the branch becomes a layer. -/
def sealLayer : DurableM Unit := do
  let (_, disk) ← get
  let layer ← host (Host.linkNumberedFile disk.directory .layer disk.overlayId)
  modify fun (world, disk) => (world, { disk with layers := disk.layers ++ [layer] })

/-- The branch goes on with a new overlay. -/
def renewOverlay : DurableM Unit := do
  let (_, disk) ← get
  let (overlayId, overlay) ← host (Host.createNumberedFile disk.directory .overlay)
  modify fun (world, disk) => (world, { disk with overlayId, overlay })

def fork (sealOverlay : Bool) : DurableM DurableCowDisk := do
  onlyIf sealOverlay sealLayer
  let (_, disk) ← get
  onlyIf sealOverlay renewOverlay
  let (overlayId, overlay) ← host (Host.createNumberedFile disk.directory .overlay)
  pure { directory := disk.directory, layers := disk.layers, overlayId, overlay }

/-- The layer that a checkpoint adds to the branch. -/
def checkpointLayer (disk : DurableCowDisk) (sealOverlay : Bool) : HostM (Option Nat) :=
  if sealOverlay then do
    let layer ← linkLayer disk.directory disk.overlayId
    pure (some layer)
  else
    pure none

def checkpoint (size : Nat) (sealOverlay : Bool) : DurableM DurableDiskState := do
  let (_, disk) ← get
  host (forM disk.layers fun layer => Host.syncFile disk.directory .layer layer)
  host Host.probe
  let state : DurableDiskState := { size, layers := disk.layers, overlay := disk.overlayId }
  let layer ← host (checkpointLayer disk sealOverlay)
  let (overlayId, overlay) ← host (Host.createNumberedFile disk.directory .overlay)
  host Host.syncDirectory
  modify fun (world, disk) =>
    (world, { disk with layers := disk.layers ++ layer.toList, overlayId, overlay })
  pure state

end DurableCowDisk

end Minidox.Redox
