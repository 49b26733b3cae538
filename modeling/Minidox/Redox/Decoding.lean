import Minidox.Redox.DurableWrites

/-!
# Layer files decode to what was appended

Reading a layer file is a fold over its records with three accumulators: the block objects, the
visible blocks and `NEXT_BLOCK_ID`. The objects that were there before may come from anywhere.
-/

set_option autoImplicit false

namespace Minidox.Redox

open Foundation Attempt
open Cache (IoError)
open Std (ExtTreeMap)

/-!
## The writer
-/

theorem ends_appends (records : List LayerRecord) {world : RedoxWorld} {durable : DurableCowDisk}
    (quiet : world.faults = []) :
    Ends (forM records fun record => DurableCowDisk.append record.address record.block)
      (world, durable) fun result after => result = .ok () ∧ after.1.faults = [] ∧
        (after.1.directories durable.directory).contents durable.overlay =
          (world.directories durable.directory).contents durable.overlay ++ encodeAll records := by
  induction records generalizing world with
  | nil => exact ⟨rfl, quiet, by simp [encodeAll]⟩
  | cons record rest ih =>
    rw [List.forM_cons, ends_bind]
    refine ends_append rfl record.address record.block (fun after _ _ became => ?_)
      fun _ _ _ torn => absurd quiet (ne_nil_of_torn torn)
    refine (ih (became.quiet quiet)).mono fun result last done => ?_
    obtain ⟨rfl, still, contents⟩ := done
    refine ⟨rfl, still, ?_⟩
    rw [contents, became.directory, ← List.singleton_append, encodeAll_append, ← List.append_assoc]
    simp [Directory.append, encodeAll]

/-!
## The reader
-/

/-- No record has the id of a block object with other bytes. -/
def Agrees (objects : BlockMap) (records : List LayerRecord) : Prop :=
  ∀ record ∈ records, ∀ block, objects[record.block.id]? = some block →
    block.bytes = record.block.bytes

/-- A record with the block object that has its id, if there is one. -/
def shared (objects : BlockMap) (record : LayerRecord) : LayerRecord :=
  { record with block := (objects[record.block.id]?).getD record.block }

structure Decodes (records : List LayerRecord) (loaded : Loaded) (world : RedoxWorld)
    (result : Except IoError Loaded) (after : RedoxWorld) : Prop where
  succeeds : (∃ final, result = .ok final) ↔ Agrees loaded.objects records
  visible : ∀ final, result = .ok final → final.visible =
    TreeMap.extend loaded.visible (blocksOf (records.map (shared loaded.objects)))
  kept : ∀ final, result = .ok final → ∀ (id : Nat) block, loaded.objects[id]? = some block →
    final.objects[id]? = some block
  known : ∀ final, result = .ok final → ∀ record ∈ records,
    final.objects[record.block.id]? = some (shared loaded.objects record).block
  grown : world.nextBlockId ≤ after.nextBlockId
  passed : ∀ final, result = .ok final → ∀ record ∈ records,
    record.block.id < after.nextBlockId

section Reader

variable {record : LayerRecord} {rest : List LayerRecord} {objects visible : BlockMap}

theorem shared_insert {other : LayerRecord}
    (uniform : record.block.id = other.block.id → record.block = other.block) :
    shared (objects.insertIfNew record.block.id (shared objects record).block) other =
      shared objects other := by
  unfold shared
  rw [ExtTreeMap.getElem?_insertIfNew]
  split
  next new =>
    have same := Std.LawfulEqOrd.compare_eq_iff_eq.mp new.1
    have absent : objects[other.block.id]? = none := by
      rw [← same]
      exact ExtTreeMap.getElem?_eq_none new.2
    rw [same, absent, uniform same]
    rfl
  next => rfl

theorem kept_insertIfNew {id key : Nat} {block new : Block} (found : objects[id]? = some block) :
    (objects.insertIfNew key new)[id]? = some block := by
  rw [ExtTreeMap.getElem?_insertIfNew]
  split
  next absent =>
    rw [Std.LawfulEqOrd.compare_eq_iff_eq.mp absent.1] at absent
    exact absurd (TreeMap.mem_of_getElem? found) absent.2
  next => exact found

theorem getElem?_insertIfNew_shared :
    (objects.insertIfNew record.block.id (shared objects record).block)[record.block.id]? =
      some (shared objects record).block := by
  cases found : objects[record.block.id]? with
  | some block =>
    rw [kept_insertIfNew found, shared, found]
    rfl
  | none =>
    have absent : record.block.id ∉ objects := fun member => by
      obtain ⟨block, present⟩ := TreeMap.exists_of_mem member
      rw [found] at present
      cases present
    rw [ExtTreeMap.getElem?_insertIfNew, if_pos ⟨Std.ReflOrd.compare_self, absent⟩]

theorem agrees_iff {records : List LayerRecord} : Agrees objects records ↔
    ∀ record ∈ records, (shared objects record).block.bytes = record.block.bytes := by
  refine forall₂_congr fun record _ => ?_
  unfold shared
  cases objects[record.block.id]? with
  | none => simp
  | some block => simp

theorem agrees_cons (later : ∀ other ∈ rest,
      shared (objects.insertIfNew record.block.id (shared objects record).block) other =
        shared objects other) : Agrees objects (record :: rest) ↔
    (shared objects record).block.bytes = record.block.bytes ∧
      Agrees (objects.insertIfNew record.block.id (shared objects record).block) rest := by
  rw [agrees_iff, agrees_iff, List.forall_mem_cons]
  refine and_congr_right fun _ => forall₂_congr fun other member => ?_
  rw [later other member]

theorem extend_cons_shared (later : ∀ other ∈ rest,
      shared (objects.insertIfNew record.block.id (shared objects record).block) other =
        shared objects other) :
    TreeMap.extend visible (blocksOf ((record :: rest).map (shared objects))) =
      TreeMap.extend (visible.insert record.address (shared objects record).block)
        (blocksOf (rest.map (shared
          (objects.insertIfNew record.block.id (shared objects record).block)))) := by
  rw [List.map_cons, extend_insert, List.map_congr_left later]
  rfl

theorem ends_decodes (records : List LayerRecord) (uniform : Uniform (· ∈ records))
    (small : ∀ record ∈ records, record.block.id + 1 < Word64.bound) (loaded : Loaded)
    (world : RedoxWorld) :
    Ends (records.foldlM loadRecord loaded) world (Decodes records loaded world) := by
  induction records generalizing loaded world with
  | nil =>
    refine ⟨iff_of_true ⟨_, rfl⟩ (by rintro _ ⟨⟩), ?_, ?_, ?_, Nat.le_refl _, ?_⟩
    all_goals
      intro final returned
      cases returned
    · exact (extend_blocksOf_nil _).symm
    · exact fun _ _ => id
    · rintro _ ⟨⟩
    · rintro _ ⟨⟩
  | cons record rest ih =>
    have later (other : LayerRecord) (member : other ∈ rest) :=
      @shared_insert record loaded.objects other fun same =>
        uniform record other List.mem_cons_self (List.mem_cons_of_mem _ member) same
    have agrees := agrees_cons later
    simp only [List.foldlM_cons, loadRecord, reserveBlockId, ends_bind, ends_require, ends_modify,
      ends_pure]
    constructor
    · intro same
      refine (ih (fun left right isLeft isRight => uniform left right
        (List.mem_cons_of_mem _ isLeft) (List.mem_cons_of_mem _ isRight))
        (fun other member => small other (List.mem_cons_of_mem _ member)) _ _).mono
        fun result after decodes => ?_
      have own := small record List.mem_cons_self
      have reserved := Nat.le_trans (Nat.le_max_right ..) decodes.grown
      rw [Word64.saturatingAdd, Nat.min_eq_left (by omega)] at reserved
      refine ⟨?_, fun final returned => ?_, fun final returned id block found => ?_,
        fun final returned => ?_, Nat.le_trans (Nat.le_max_left ..) decodes.grown,
        fun final returned => ?_⟩
      · rw [decodes.succeeds, agrees]
        exact (and_iff_right same).symm
      · rw [decodes.visible final returned, extend_cons_shared later]
        rfl
      · exact decodes.kept final returned id block (kept_insertIfNew found)
      · refine List.forall_mem_cons.mpr ⟨?_, fun other member => ?_⟩
        · exact decodes.kept final returned _ _ getElem?_insertIfNew_shared
        · rw [← later other member]
          exact decodes.known final returned other member
      · exact List.forall_mem_cons.mpr ⟨reserved, decodes.passed final returned⟩
    · intro differs
      refine ⟨iff_of_false (by rintro ⟨_, ⟨⟩⟩) fun all => differs (agrees.mp all).1,
        not_ok, not_ok, not_ok, Nat.le_refl _, not_ok⟩

end Reader

/-!
## Files
-/

section Files

variable {path : DirectoryPath} {world : RedoxWorld}

theorem records_flatMap {directory : Directory} {inodes : List Inode}
    (whole : ∀ inode ∈ inodes, directory.Whole inode) :
    (∃ records : List LayerRecord, (∀ record ∈ records, record.Fits) ∧
      inodes.flatMap directory.contents = encodeAll records) ∧
    recordsOf (inodes.flatMap directory.contents) = inodes.flatMap directory.records := by
  have all : ∃ records : List LayerRecord, (∀ record ∈ records, record.Fits) ∧
      inodes.flatMap directory.contents = encodeAll records ∧
      inodes.flatMap directory.records = records := by
    induction inodes with
    | nil => exact ⟨[], by rintro _ ⟨⟩, rfl, rfl⟩
    | cons inode rest ih =>
      obtain ⟨records, fit, content⟩ := whole inode List.mem_cons_self
      obtain ⟨others, fitRest, contents, read⟩ := ih fun other member =>
        whole other (List.mem_cons_of_mem _ member)
      refine ⟨records ++ others, fun record member => ?_, ?_, ?_⟩
      · exact (List.mem_append.mp member).elim (fit record) (fitRest record)
      · rw [List.flatMap_cons, content, contents, encodeAll_append]
      · rw [List.flatMap_cons, Directory.records, content, recordsOf_encodeAll fit, read]
  obtain ⟨records, fit, content, read⟩ := all
  exact ⟨⟨records, fit, content⟩, by rw [content, recordsOf_encodeAll fit, read]⟩

/-- What was visible before does not matter for what is read. -/
theorem exec_foldlM_extend (records : List LayerRecord) (objects visible below : BlockMap)
    (world : RedoxWorld) :
    (records.foldlM loadRecord ⟨objects, TreeMap.extend below visible⟩).exec world =
      ((do
        let loaded ← records.foldlM loadRecord ⟨objects, visible⟩
        pure ⟨loaded.objects, TreeMap.extend below loaded.visible⟩ : HostM Loaded)).exec world := by
  induction records generalizing objects visible world with
  | nil => rfl
  | cons record rest ih =>
    simp only [List.foldlM_cons, loadRecord, bind_assoc, exec_bind, require]
    by_cases same : ((objects[record.block.id]?).getD record.block).bytes = record.block.bytes
    · rw [if_pos same]
      have inserted (block : Block) :
          (TreeMap.extend below visible).insert record.address block =
            TreeMap.extend below (visible.insert record.address block) := by
        apply ExtTreeMap.ext_getElem?
        intro address
        simp only [TreeMap.getElem?_extend, TreeMap.getElem?_insert_ite]
        split
        next => rfl
        next => rfl
      simp only [exec_pure, inserted, reserveBlockId, exec_modify, ih, exec_bind]
    · rw [if_neg same]
      rfl

theorem exec_loadState (state : DurableDiskState) {inodes : List Inode} {top : Inode}
    (quiet : world.faults = [])
    (named : state.layers.map (fun layer => ((world.directories path).entries .layer)[layer]?) =
      inodes.map some)
    (last : ((world.directories path).entries .overlay)[state.overlay]? = some top)
    (whole : ∀ inode ∈ inodes ++ [top], (world.directories path).Whole inode)
    (objects : BlockMap) : (loadState path state objects).exec world =
      (((inodes ++ [top]).flatMap (world.directories path).records).foldlM loadRecord
        ⟨objects, ∅⟩).exec world := by
  have moved := reserved_foldlM (inodes.flatMap (world.directories path).records) ⟨objects, ∅⟩ world
  rw [loadState, exec_bind, exec_loadLayers state.layers inodes quiet named fun inode member =>
    whole inode (List.mem_append_left _ member), List.flatMap_append, List.foldlM_append, exec_bind]
  rw [Ends] at moved
  generalize ((inodes.flatMap (world.directories path).records).foldlM loadRecord
    ⟨objects, ∅⟩).exec world = run at moved
  obtain ⟨result, after⟩ := run
  cases result with
  | error error => rfl
  | ok base =>
    dsimp only at moved ⊢
    have bottom : base.visible = TreeMap.extend base.visible ∅ := by
      apply ExtTreeMap.ext_getElem?
      intro address
      rw [TreeMap.getElem?_extend, ExtTreeMap.getElem?_empty, Option.none_or]
    have still : after.faults = [] := by rw [moved]; exact quiet
    have here : after.directories = world.directories := by rw [moved]; rfl
    have complete := whole_length (whole top (List.mem_append_right _ List.mem_cons_self))
    rw [List.flatMap_singleton, exec_bind, exec_loadRecords still (here ▸ last), here,
      if_pos complete]
    have read := exec_foldlM_extend ((world.directories path).records top) base.objects ∅
      base.visible after
    rw [← bottom, exec_bind] at read
    exact read.symm

end Files

/-- What is appended to an empty overlay is read back, from any block objects and visible blocks. A
file that ends within a record is refused, and the layers and the overlay of a state are read as
the file that holds all their bytes one after another would be. -/
theorem layer_files_decode (world : RedoxWorld) (quiet : world.faults = []) :
    (∀ durable (records : List LayerRecord),
      (world.directories durable.directory).contents durable.overlay = [] →
      Ends (forM records fun record => DurableCowDisk.append record.address record.block)
        (world, durable) fun result after => result = .ok () ∧
          (after.1.directories durable.directory).contents durable.overlay = encodeAll records) ∧
    (∀ path kind (id : Nat) inode, ((world.directories path).entries kind)[id]? = some inode →
      (∀ (records : List LayerRecord) loaded, (∀ record ∈ records, record.Fits) →
        Uniform (· ∈ records) → (∀ record ∈ records, record.block.id + 1 < Word64.bound) →
        (world.directories path).contents inode = encodeAll records →
        Ends (loadRecords path kind id loaded) world (Decodes records loaded world)) ∧
      ∀ loaded, ((world.directories path).contents inode).length % layerRecordSize ≠ 0 →
        Ends (loadRecords path kind id loaded) world fun result _ =>
          ∃ error, result = .error error) ∧
    ∀ path state objects inodes top kind (id : Nat) inode,
      state.layers.map (fun layer => ((world.directories path).entries .layer)[layer]?) =
        inodes.map some →
      ((world.directories path).entries .overlay)[state.overlay]? = some top →
      (∀ inode ∈ inodes ++ [top], (world.directories path).Whole inode) →
      ((world.directories path).entries kind)[id]? = some inode →
      (world.directories path).contents inode =
        (inodes ++ [top]).flatMap (world.directories path).contents →
      (loadState path state objects).exec world =
        (loadRecords path kind id ⟨objects, ∅⟩).exec world := by
  refine ⟨fun durable records empty => ?_, fun path kind id inode named => ⟨?_, ?_⟩, ?_⟩
  · refine (ends_appends records quiet).mono fun result after done => ?_
    rw [empty] at done
    exact ⟨done.1, done.2.2⟩
  · intro records loaded fit uniform small content
    have decoded : (world.directories path).records inode = records := by
      rw [Directory.records, content, recordsOf_encodeAll fit]
    rw [Ends, exec_loadRecords quiet named, if_pos (whole_length ⟨records, fit, content⟩), decoded]
    exact ends_decodes records uniform small loaded world
  · intro loaded partialRecord
    rw [Ends, exec_loadRecords quiet named, if_neg partialRecord]
    exact ⟨_, rfl⟩
  · intro path state objects inodes top kind id inode named last whole target content
    obtain ⟨wholeAll, joined⟩ := records_flatMap whole
    rw [← content] at wholeAll joined
    rw [exec_loadState state quiet named last whole, exec_loadRecords quiet target,
      if_pos (whole_length wholeAll), Directory.records, joined]

def layerRecords : List LayerRecord := [⟨5, 9, BlockBytes.zero⟩]

/-- Another block at the same address, and the block of the layer at another one. -/
def overlayRecords : List LayerRecord :=
  [⟨5, 10, BlockBytes.zero.overwrite [1]⟩, ⟨6, 9, BlockBytes.zero⟩]

/-- A directory with a layer 1, an overlay 2 and a layer 3 that has the records of both. -/
def recordedWorld : RedoxWorld where
  nextBlockId := 1
  nextFileObjectId := 1
  nextPageVersion := 1
  nextDurableLayerId := 4
  directories _ := (((((Directory.empty.create .layer 1).append 0 (encodeAll layerRecords)).create
    .overlay 2).append 1 (encodeAll overlayRecords)).create .layer 3).append 2
      (encodeAll (layerRecords ++ overlayRecords))
  faults := []

theorem recorded_overlay_decodes :
    Ends (loadState 0 ⟨7 * blockSize, [1], 2⟩ ((∅ : BlockMap).insert 9 ⟨9, BlockBytes.zero⟩))
      recordedWorld fun result after =>
        (∃ final, result = .ok final ∧
          final.visible[5]? = some ⟨10, BlockBytes.zero.overwrite [1]⟩ ∧
          final.visible[6]? = some ⟨9, BlockBytes.zero⟩) ∧ 10 < after.nextBlockId := by
  have decode := layer_files_decode recordedWorld rfl
  have fit : ∀ record ∈ layerRecords ++ overlayRecords,
      record.Fits ∧ record.block.id + 1 < Word64.bound := by
    simp [layerRecords, overlayRecords, LayerRecord.Fits, Word64.bound]
  have wholeLower : (recordedWorld.directories 0).Whole 0 :=
    ⟨layerRecords, fun record member => (fit record (List.mem_append_left _ member)).1, rfl⟩
  have wholeUpper : (recordedWorld.directories 0).Whole 1 :=
    ⟨overlayRecords, fun record member => (fit record (List.mem_append_right _ member)).1, rfl⟩
  have uniform : Uniform (· ∈ layerRecords ++ overlayRecords) := by
    intro left right isLeft isRight
    simp only [layerRecords, overlayRecords, List.cons_append, List.nil_append, List.mem_cons,
      List.not_mem_nil, or_false] at isLeft isRight
    rcases isLeft with rfl | rfl | rfl <;> rcases isRight with rfl | rfl | rfl <;> simp
  have joined : (recordedWorld.directories 0).contents 2 =
      ([0] ++ [1]).flatMap (recordedWorld.directories 0).contents := by
    change encodeAll (layerRecords ++ overlayRecords) =
      encodeAll layerRecords ++ (encodeAll overlayRecords ++ [])
    rw [encodeAll_append, List.append_nil]
  rw [Ends, decode.2.2 0 _ _ [0] 1 .layer 3 2 (by decide +kernel) (by decide +kernel)
    (by simpa using ⟨wholeLower, wholeUpper⟩) (by decide +kernel) joined]
  have decodes := (decode.2.1 0 .layer 3 2 (by decide +kernel)).1 (layerRecords ++ overlayRecords)
    ⟨(∅ : BlockMap).insert 9 ⟨9, BlockBytes.zero⟩, ∅⟩ (fun record member => (fit record member).1)
    uniform (fun record member => (fit record member).2) rfl
  obtain ⟨final, returned⟩ := decodes.succeeds.mpr (by
    simp [Agrees, layerRecords, overlayRecords])
  refine ⟨⟨final, returned, ?_, ?_⟩,
    decodes.passed final returned ⟨5, 10, BlockBytes.zero.overwrite [1]⟩
      (by simp [overlayRecords])⟩ <;>
  · rw [decodes.visible final returned, TreeMap.getElem?_extend]
    simp [blocksOf, shared, layerRecords, overlayRecords, ExtTreeMap.getElem_insert]

end Minidox.Redox
