import Minidox.Redox.Archive

/-!
# Loading layers

`load_records` and `DurableCowDisk::restore` on directories whose files hold whole
records: they succeed and give the blocks that the state stands for.
-/

set_option autoImplicit false

namespace Minidox.Redox

open Foundation Attempt
open Cache (IoError)
open Std (ExtTreeMap)

/-- Records with one id hold one block. -/
def Uniform (source : LayerRecord → Prop) : Prop :=
  ∀ left right, source left → source right → left.block.id = right.block.id →
    left.block = right.block

def Knows (source : LayerRecord → Prop) (objects : BlockMap) : Prop :=
  ∀ (id : Nat) block, objects[id]? = some block →
    block.id = id ∧ ∃ record, source record ∧ record.block = block

theorem knows_empty (source : LayerRecord → Prop) : Knows source ∅ := by
  intro id block found
  rw [ExtTreeMap.getElem?_empty] at found
  cases found

def RedoxWorld.blocksTo (world : RedoxWorld) (next : Nat) : RedoxWorld :=
  { world with nextBlockId := next }

theorem Word64.saturatingAdd_lt (value : Nat) : Word64.saturatingAdd value 1 < Word64.bound :=
  Nat.lt_of_le_of_lt (Nat.min_le_right _ _) (by decide)

theorem extend_blocksOf_nil (visible : BlockMap) :
    TreeMap.extend visible (blocksOf []) = visible := by
  apply ExtTreeMap.ext_getElem?
  intro address
  rw [TreeMap.getElem?_extend, blocksOf, List.foldl_nil, ExtTreeMap.getElem?_empty, Option.none_or]

theorem extend_assoc (first second third : BlockMap) :
    TreeMap.extend first (TreeMap.extend second third) =
      TreeMap.extend (TreeMap.extend first second) third := by
  apply ExtTreeMap.ext_getElem?
  intro address
  simp only [TreeMap.getElem?_extend, Option.or_assoc]

theorem extend_insert (visible : BlockMap) (record : LayerRecord) (rest : List LayerRecord) :
    TreeMap.extend visible (blocksOf (record :: rest)) =
      TreeMap.extend (visible.insert record.address record.block) (blocksOf rest) := by
  apply ExtTreeMap.ext_getElem?
  intro address
  have first : blocksOf (record :: rest) =
      TreeMap.extend (blocksOf [record]) (blocksOf rest) := blocksOf_append [record] rest
  simp only [first, TreeMap.getElem?_extend, Option.or_assoc]
  congr 1
  by_cases here : address = record.address
  · simp [blocksOf, here]
  · simp [blocksOf, TreeMap.getElem?_insert_ite, here]

/-- What reading records comes to. Only `NEXT_BLOCK_ID` moves. Reading that succeeds gives the
blocks of the records, and it succeeds when records with one id hold one block. -/
structure Loads (source : LayerRecord → Prop) (records : List LayerRecord) (visible : BlockMap)
    (world : RedoxWorld) (result : Except IoError Loaded) (after : RedoxWorld) : Prop where
  moved : ∃ next, after = world.blocksTo next ∧ next < Word64.bound
  reads : ∀ loaded, result = .ok loaded →
    loaded.visible = TreeMap.extend visible (blocksOf records) ∧ Knows source loaded.objects
  succeeds : Uniform source → ∃ loaded, result = .ok loaded

section Load

variable {source : LayerRecord → Prop} {world : RedoxWorld} {objects visible : BlockMap}

theorem loads_nil (knows : Knows source objects) (bounded : world.nextBlockId < Word64.bound) :
    Loads source [] visible world (.ok ⟨objects, visible⟩) world where
  moved := ⟨world.nextBlockId, rfl, bounded⟩
  reads loaded returned := by
    cases returned
    exact ⟨(extend_blocksOf_nil visible).symm, knows⟩
  succeeds _ := ⟨_, rfl⟩

theorem ends_loads_bind {first : HostM Loaded} {next : Loaded → HostM Loaded}
    {records others : List LayerRecord}
    (ends : Ends first world (Loads source records visible world))
    (continued : ∀ (loaded : Loaded) (number : Nat), Knows source loaded.objects →
      number < Word64.bound → Ends (next loaded) (world.blocksTo number)
        (Loads source others loaded.visible (world.blocksTo number))) :
    Ends (first >>= next) world (Loads source (records ++ others) visible world) := by
  rw [ends_bind]
  refine ends.mono ?_
  intro result middle loads
  obtain ⟨number, rfl, bounded⟩ := loads.moved
  cases result with
  | error error =>
    refine ⟨⟨number, rfl, bounded⟩, not_ok, fun uniform => ?_⟩
    obtain ⟨loaded, returned⟩ := loads.succeeds uniform
    cases returned
  | ok loaded =>
    obtain ⟨same, knows⟩ := loads.reads loaded rfl
    refine (continued loaded number knows bounded).mono ?_
    intro result after more
    obtain ⟨last, rfl, boundedLast⟩ := more.moved
    refine ⟨⟨last, rfl, boundedLast⟩, fun final returned => ?_, more.succeeds⟩
    obtain ⟨sameFinal, knowsFinal⟩ := more.reads final returned
    exact ⟨by rw [sameFinal, same, blocksOf_append, extend_assoc], knowsFinal⟩

theorem ends_loadRecord {record : LayerRecord} (member : source record)
    (knows : Knows source objects) (bounded : world.nextBlockId < Word64.bound) :
    Ends (loadRecord ⟨objects, visible⟩ record) world (Loads source [record] visible world) := by
  -- A block object with the id and the bytes of the record is the block of the record.
  have shared : ((objects[record.block.id]?).getD record.block).bytes = record.block.bytes →
      (objects[record.block.id]?).getD record.block = record.block := by
    intro same
    cases found : objects[record.block.id]? with
    | none => rfl
    | some block =>
      rw [found] at same
      exact Block.ext (knows _ _ found).1 same
  simp only [loadRecord, reserveBlockId, ends_bind, ends_require, ends_modify, ends_pure]
  constructor
  · intro same
    rw [shared same]
    refine ⟨⟨_, rfl, Nat.max_lt.mpr ⟨bounded, Word64.saturatingAdd_lt _⟩⟩, ?_, fun _ => ⟨_, rfl⟩⟩
    intro loaded returned
    cases returned
    refine ⟨?_, ?_⟩
    · rw [extend_insert, extend_blocksOf_nil]
    · intro id block found
      rw [ExtTreeMap.getElem?_insertIfNew] at found
      split at found
      next new =>
        cases found
        exact ⟨Std.LawfulEqOrd.compare_eq_iff_eq.mp new.1, record, member, rfl⟩
      next => exact knows id block found
  · intro differs
    refine ⟨⟨world.nextBlockId, rfl, bounded⟩, not_ok,
      fun uniform => absurd ?_ differs⟩
    cases found : objects[record.block.id]? with
    | none => rfl
    | some block =>
      obtain ⟨same, entry, inside, rfl⟩ := knows _ _ found
      exact congrArg Block.bytes (uniform entry record inside member same)

theorem ends_foldlM_loadRecord (records : List LayerRecord)
    (inside : ∀ record ∈ records, source record) (knows : Knows source objects)
    (bounded : world.nextBlockId < Word64.bound) :
    Ends (records.foldlM loadRecord ⟨objects, visible⟩) world
      (Loads source records visible world) := by
  induction records generalizing objects visible world with
  | nil => exact loads_nil knows bounded
  | cons record rest ih =>
    rw [List.foldlM_cons, ← List.singleton_append]
    refine ends_loads_bind (ends_loadRecord (inside record List.mem_cons_self) knows bounded) ?_
    intro loaded number knowsMore boundedNext
    exact ih (fun other member => inside other (List.mem_cons_of_mem _ member)) knowsMore
      boundedNext

variable {path : DirectoryPath}

theorem exec_loadRecords (quiet : world.faults = []) {kind : FileKind} {id : Nat} {inode : Inode}
    (named : ((world.directories path).entries kind)[id]? = some inode) (loaded : Loaded) :
    (loadRecords path kind id loaded).exec world =
      if ((world.directories path).contents inode).length % layerRecordSize = 0 then
        (((world.directories path).records inode).foldlM loadRecord loaded).exec world
      else (.error (.invalidData
        s!"filesystem layer {path}/{kind.name}-{id} ends with a partial block record"), world) := by
  have read : Ends (Host.readFile path kind id) world fun result after =>
      (result, after) = (.ok ((world.directories path).contents inode), world) :=
    Host.ends_readFile quiet named rfl
  rw [loadRecords, exec_bind, show (Host.readFile path kind id).exec world = _ from read]
  dsimp only
  rw [exec_bind, require]
  by_cases complete : ((world.directories path).contents inode).length % layerRecordSize = 0
  · rw [if_pos complete, if_pos complete]
    rfl
  · rw [if_neg complete, if_neg complete]
    rfl

def Reserved (before after : RedoxWorld) : Prop := after = before.blocksTo after.nextBlockId

instance : Std.Refl Reserved := ⟨fun _ => rfl⟩

instance : IsTrans RedoxWorld Reserved where
  trans first second third earlier later := by
    unfold Reserved at *
    rw [later, earlier]
    rfl

theorem reserved_foldlM (records : List LayerRecord) (loaded : Loaded) :
    Moves Reserved (records.foldlM loadRecord loaded) := by
  induction records generalizing loaded with
  | nil => exact moves_pure _
  | cons record rest ih =>
    rw [List.foldlM_cons]
    refine moves_bind (moves_bind moves_require fun _ => moves_bind ?_ fun _ => moves_pure _)
      fun next => ih next
    exact moves_modify fun _ => rfl

theorem whole_length {directory : Directory} {inode : Inode} (whole : directory.Whole inode) :
    (directory.contents inode).length % layerRecordSize = 0 := by
  obtain ⟨records, -, content⟩ := whole
  rw [content, length_encodeAll, Nat.mul_mod_left]

theorem ends_loadRecords (quiet : world.faults = []) {kind : FileKind} {id : Nat} {inode : Inode}
    (named : ((world.directories path).entries kind)[id]? = some inode)
    (whole : (world.directories path).Whole inode)
    (inside : ∀ record ∈ (world.directories path).records inode, source record)
    (knows : Knows source objects) (bounded : world.nextBlockId < Word64.bound) :
    Ends (loadRecords path kind id ⟨objects, visible⟩) world
      (Loads source ((world.directories path).records inode) visible world) := by
  rw [Ends, exec_loadRecords quiet named, if_pos (whole_length whole)]
  exact ends_foldlM_loadRecord _ inside knows bounded

/-- Layers that are read one after another are read as one sequence of records. -/
theorem exec_loadLayers (layers : List Nat) (inodes : List Inode) (quiet : world.faults = [])
    (named : layers.map (fun layer => ((world.directories path).entries .layer)[layer]?) =
      inodes.map some)
    (whole : ∀ inode ∈ inodes, (world.directories path).Whole inode) (loaded : Loaded) :
    (layers.foldlM (fun loaded layer => loadRecords path .layer layer loaded) loaded).exec world =
      ((inodes.flatMap (world.directories path).records).foldlM loadRecord loaded).exec world := by
  induction layers generalizing inodes world loaded with
  | nil =>
    obtain rfl : inodes = [] := by simpa using named.symm
    rfl
  | cons layer rest ih =>
    cases inodes with
    | nil => cases named
    | cons inode others =>
      obtain ⟨namedFirst, namedRest⟩ := List.cons.inj named
      have moved := reserved_foldlM ((world.directories path).records inode) loaded world
      rw [List.foldlM_cons, List.flatMap_cons, List.foldlM_append, exec_bind, exec_bind,
        exec_loadRecords quiet namedFirst, if_pos (whole_length (whole inode List.mem_cons_self))]
      rw [Ends] at moved
      generalize (((world.directories path).records inode).foldlM loadRecord loaded).exec world
        = run at moved
      obtain ⟨result, after⟩ := run
      cases result with
      | error error => rfl
      | ok next =>
        dsimp only at moved
        have still : (world.blocksTo after.nextBlockId).faults = [] := quiet
        rw [moved]
        exact ih others still namedRest
          (fun other member => whole other (List.mem_cons_of_mem _ member)) next

theorem ends_loadLayers (layers : List Nat) (quiet : world.faults = [])
    (readable : (world.directories path).Readable (layerNames layers))
    (inside : ∀ record ∈ (world.directories path).recordsIn (layerNames layers), source record)
    (knows : Knows source objects) (bounded : world.nextBlockId < Word64.bound) :
    Ends (layers.foldlM (fun loaded layer => loadRecords path .layer layer loaded)
      ⟨objects, visible⟩) world
      (Loads source ((world.directories path).recordsIn (layerNames layers)) visible world) := by
  induction layers generalizing objects visible world with
  | nil => exact loads_nil knows bounded
  | cons layer rest ih =>
    obtain ⟨inode, found, whole⟩ := readable (.layer, layer) List.mem_cons_self
    have split : (world.directories path).recordsIn (layerNames (layer :: rest)) =
        (world.directories path).records inode ++
          (world.directories path).recordsIn (layerNames rest) := by
      rw [layerNames, List.map_cons, Directory.recordsIn, List.flatMap_cons, found]
      rfl
    rw [split] at inside ⊢
    rw [List.foldlM_cons]
    refine ends_loads_bind (ends_loadRecords quiet found whole
      (fun record member => inside record (List.mem_append_left _ member)) knows bounded) ?_
    intro loaded number knowsMore boundedNext
    have still : (world.blocksTo number).faults = [] := quiet
    exact ih still (fun name member => readable name (List.mem_cons_of_mem _ member))
      (fun record member => inside record (List.mem_append_right _ member)) knowsMore boundedNext

end Load

end Minidox.Redox
