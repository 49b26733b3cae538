import Minidox.Redox.Exactness

/-!
# Checkpoints are exact

Over whole runs of a lineage: every state that a checkpoint returned can be restored,
alone or with others, and gives the blocks that were visible when it was taken, as
long as writes hand out only block ids that no file which is still read has recorded.
-/

set_option autoImplicit false

namespace Minidox.Redox

open Foundation Attempt

namespace DiskLineage

variable {lineage : DiskLineage} {path : DirectoryPath}

/-- The files of a directory that a disk or a state of the lineage reads. -/
def readNames (lineage : DiskLineage) (path : DirectoryPath) : List FileName :=
  ((List.range lineage.nextDisk).filterMap fun index =>
    ((lineage.disks index).bind CowDisk.durable).filter fun durable =>
      durable.directory = path).flatMap DurableCowDisk.names ++
  (lineage.taken.filter fun entry => entry.directory = path).flatMap fun entry => entry.state.names

def recordedIds (lineage : DiskLineage) (path : DirectoryPath) : List Nat :=
  ((lineage.world.directories path).recordsIn (lineage.readNames path)).map fun record =>
    record.block.id

/-- A write hands out no block id that is recorded in a file of its directory which a disk or a
state reads. -/
def HandsOutFresh (lineage : DiskLineage) : DiskAction → Prop
  | .write index _ buffer => ∀ durable ∈ (lineage.disks index).bind CowDisk.durable,
      ∀ id ∈ CowDisk.handedOut lineage.world buffer, id ∉ lineage.recordedIds durable.directory
  | _ => True

instance (lineage : DiskLineage) : (action : DiskAction) → Decidable (lineage.HandsOutFresh action)
  | .write index _ buffer => inferInstanceAs
      (Decidable (∀ durable ∈ (lineage.disks index).bind CowDisk.durable,
        ∀ id ∈ CowDisk.handedOut lineage.world buffer, id ∉ lineage.recordedIds durable.directory))
  | .create _ _ | .fork _ | .checkpoint _ | .drop _ | .restore _ _ | .restart =>
    inferInstanceAs (Decidable True)

theorem Exact.mem_recordedIds {agree : BlockMap → BlockMap → Prop} (kept : lineage.Exact agree)
    {record : LayerRecord} (recorded : lineage.Recorded path record) :
    record.block.id ∈ lineage.recordedIds path := by
  obtain ⟨inode, ⟨names, named, name, inNames, found⟩, member⟩ := recorded
  refine List.mem_map_of_mem (List.mem_flatMap.mpr ⟨name, ?_, by rw [found]; exact member⟩)
  simp only [readNames, List.mem_append, List.mem_flatMap, List.mem_filterMap, List.mem_filter,
    List.mem_range, Option.filter_eq_some_iff, Option.bind_eq_some_iff, decide_eq_true_eq]
  cases named with
  | inl ofDisk =>
    obtain ⟨index, disk, durable, present, side, home, rfl⟩ := ofDisk
    have below : index < lineage.nextDisk := by
      by_contra later
      rw [kept.unborn index (Nat.le_of_not_lt later)] at present
      cases present
    exact .inl ⟨durable, ⟨index, below, ⟨disk, present, side⟩, home⟩, inNames⟩
  | inr ofState =>
    obtain ⟨entry, inTaken, home, rfl⟩ := ofState
    exact .inr ⟨entry, ⟨inTaken, home⟩, inNames⟩

/-- Records with one id hold one block, in every directory. -/
def OneBlock (lineage : DiskLineage) : Prop := ∀ path, Uniform (lineage.Recorded path)

theorem OneBlock.record {after : DiskLineage} {more : List LayerRecord} (uniform : lineage.OneBlock)
    (recorded : ∀ other record, after.Recorded other record →
      lineage.Recorded other record ∨ other = path ∧ record ∈ more)
    (distinct : (more.map fun record => record.block.id).Nodup)
    (fresh : ∀ record ∈ more, ∀ old, lineage.Recorded path old → old.block.id ≠ record.block.id) :
    after.OneBlock := by
  intro other left right recordedLeft recordedRight same
  cases recorded other left recordedLeft with
  | inl oldLeft =>
    cases recorded other right recordedRight with
    | inl oldRight => exact uniform other left right oldLeft oldRight same
    | inr newRight =>
      obtain ⟨rfl, inside⟩ := newRight
      exact absurd same (fresh right inside left oldLeft)
  | inr newLeft =>
    obtain ⟨rfl, insideLeft⟩ := newLeft
    cases recorded other right recordedRight with
    | inl oldRight => exact absurd same.symm (fresh left insideLeft right oldRight)
    | inr newRight =>
      exact congrArg LayerRecord.block
        (List.inj_on_of_nodup_map distinct insideLeft newRight.2 same)

theorem Exact.call {agree : BlockMap → BlockMap → Prop} {α : Type} (kept : lineage.Exact agree)
    {index : Nat} {operation : DiskM α} {next : CowDisk → α → DiskLineage → DiskLineage}
    {post : DiskLineage → Prop} (absent : lineage.disks index = none → post lineage)
    (called : ∀ disk durable, lineage.disks index = some disk → disk.durable = some durable →
      (lineage.world.directories durable.directory).Live agree disk durable →
      Ends operation (lineage.world, disk) fun result after =>
        (∀ error, result = .error error → post ((lineage.inWorld after.1).put index after.2)) ∧
        ∀ value, result = .ok value →
          post (next disk value ((lineage.inWorld after.1).put index after.2))) :
    post (lineage.call index operation next) := by
  unfold DiskLineage.call
  cases found : lineage.disks index with
  | none => exact absent found
  | some disk =>
    obtain ⟨durable, side, live⟩ := kept.live index disk found
    have ends := called disk durable found side live
    dsimp only
    cases executed : operation.exec (lineage.world, disk) with
    | mk result after =>
      obtain ⟨failed, done⟩ := ends.of_exec executed
      cases result with
      | error error => exact failed error rfl
      | ok value => exact done value rfl

/-- The host may fail in writes, forks and checkpoints. -/
def Ready (agree : BlockMap → BlockMap → Prop) (lineage : DiskLineage) : DiskAction → Prop
  | .write index block buffer => (lineage.world.faults ≠ [] → Forgiving agree) ∧
      ∀ disk ∈ lineage.disks index, Spares block disk.image
        (Words.chunks blockSize buffer).zipIdx lineage.world.faults
  | .create _ _ => lineage.world.faults = []
  | .restore _ _ => lineage.world.faults = []
  | _ => True

theorem spares_quiet (block : Nat) (image : Image) (items : List (List UInt8 × Nat)) :
    Spares block image items [] := by
  induction items generalizing image with
  | nil => rfl
  | cons item rest ih =>
    rw [Spares, tornCount_nil]
    exact ih _

theorem ready_of_quiet (agree : BlockMap → BlockMap → Prop) (quiet : lineage.world.faults = [])
    (action : DiskAction) : lineage.Ready agree action := by
  cases action with
  | write index block buffer =>
    exact ⟨fun faulty => absurd quiet faulty, fun disk _ => quiet ▸ spares_quiet ..⟩
  | create path size => exact quiet
  | restore path states => exact quiet
  | _ => trivial

structure Keeps (agree : BlockMap → BlockMap → Prop) (lineage : DiskLineage) (action : DiskAction)
    (after : DiskLineage) : Prop where
  exact : after.Exact agree
  uniform : lineage.OneBlock → lineage.HandsOutFresh action → after.OneBlock
  quiet : lineage.world.faults = [] → after.world.faults = []

section Step

variable {agree : BlockMap → BlockMap → Prop} {action : DiskAction}

theorem Grows.keeps {after : DiskLineage} (grows : lineage.Grows path after)
    (kept : lineage.Exact agree) (exact : after.Exact agree)
    (quiet : lineage.world.faults = [] → after.world.faults = []) :
    Keeps agree lineage action after :=
  ⟨exact, fun uniform _ other left right recordedLeft recordedRight =>
    uniform other left right (grows.recorded (kept.sound path) recordedLeft)
      (grows.recorded (kept.sound path) recordedRight), quiet⟩

variable [Agreement agree] (kept : lineage.Exact agree)

include kept

omit [Agreement agree] in
theorem Exact.keeps : Keeps agree lineage action lineage :=
  ⟨kept, fun uniform _ => uniform, id⟩

theorem keeps_write {index block : Nat} {buffer : List UInt8}
    (ready : lineage.Ready agree (.write index block buffer)) :
    Keeps agree lineage (.write index block buffer) (lineage.step (.write index block buffer)) := by
  simp only [step]
  obtain ⟨forgiving, spares⟩ := ready
  refine kept.call (fun _ => kept.keeps) fun disk durable found side live => ?_
  refine (ends_writeAt rfl (kept.sound _) side live kept.bounded forgiving block buffer
    (spares disk found)).mono ?_
  rintro result after ⟨next, more, few, small, records⟩
  obtain ⟨written, recorded⟩ := kept.write found side records
  have done : Keeps agree lineage (.write index block buffer)
      ((lineage.inWorld after.1).put index after.2) := by
    refine ⟨written, fun uniform fresh => uniform.record recorded ?_ ?_, records.moved.quiet⟩
    · rw [records.ids]
      exact idsFrom_nodup (Nat.le_of_lt small)
    · intro record inside old read same
      have handed : record.block.id ∈ CowDisk.handedOut lineage.world buffer := by
        have member : record.block.id ∈ more.map fun record => record.block.id :=
          List.mem_map_of_mem inside
        rw [records.ids, idsFrom, List.mem_map] at member
        obtain ⟨place, below, value⟩ := member
        rw [CowDisk.handedOut, idsFrom, List.mem_map]
        exact ⟨place, List.mem_range.mpr (Nat.lt_of_lt_of_le (List.mem_range.mp below) few), value⟩
      exact fresh durable (by rw [found]; exact side) _ handed
        (same ▸ kept.mem_recordedIds read)
  exact ⟨fun _ _ => done, fun _ _ => done⟩

omit [Agreement agree] in
theorem keeps_fork (index : Nat) :
    Keeps agree lineage (.fork index) (lineage.step (.fork index)) := by
  simp only [step]
  refine kept.call (fun _ => kept.keeps) fun disk durable found side live => ?_
  refine (ends_fork rfl (kept.sound _) side live).mono ?_
  rintro result after ⟨next, parent, proceeds, -, returned⟩
  refine ⟨fun error raised => ?_, fun child value => ?_⟩
  · obtain ⟨exact, grows⟩ := kept.proceed found side proceeds
    exact grows.keeps kept exact proceeds.became.quiet
  · obtain ⟨branch, sided, branches, liveChild⟩ := returned child value
    obtain ⟨exact, grows⟩ := kept.fork found side proceeds sided branches liveChild
    exact grows.keeps kept exact proceeds.became.quiet

omit [Agreement agree] in
theorem keeps_checkpoint (index : Nat) :
    Keeps agree lineage (.checkpoint index) (lineage.step (.checkpoint index)) := by
  simp only [step]
  refine kept.call (fun _ => kept.keeps) fun disk durable found side live => ?_
  refine (ends_durableState rfl (kept.sound _) side live).mono ?_
  rintro result after ⟨next, later, proceeds, -, returned⟩
  refine ⟨fun error raised => ?_, fun state value => ?_⟩
  · obtain ⟨exact, grows⟩ := kept.proceed found side proceeds
    exact grows.keeps kept exact proceeds.became.quiet
  · obtain ⟨names, new⟩ := returned state value
    obtain ⟨exact, grows⟩ := kept.checkpoint found side proceeds names new
    rw [side]
    exact grows.keeps kept exact proceeds.became.quiet

theorem keeps_create (quiet : lineage.world.faults = []) (path : DirectoryPath) (size : Nat) :
    Keeps agree lineage (.create path size) (lineage.step (.create path size)) := by
  simp only [step]
  have ends := ends_createDurable quiet rfl (kept.sound path) size
  cases executed : (CowDisk.createDurable path size).exec lineage.world with
  | mk result world =>
    obtain ⟨disk, next, side, rfl, became, sound, frame, sided, home, new, continues, visible⟩ :=
      ends.of_exec executed
    have moved : Moved path next lineage.world world :=
      ⟨became.directory, became.others, became.quiet, became.blockIds ▸ kept.bounded⟩
    have none : ∀ inode, ¬ (lineage.world.directories path).Reads [] inode := by
      rintro inode ⟨name, ⟨⟩, -⟩
    obtain ⟨exact, grows⟩ := kept.join moved sound frame sided home
      (fun _ _ _ _ _ _ => none _) continues new (visible ▸ Agreement.refl _)
      fun inode reads => absurd reads (none inode)
    exact grows.keeps kept exact became.quiet

omit [Agreement agree] kept in
theorem mem_select {indices : List Nat} {entry : Taken}
    (member : entry ∈ lineage.select path indices) :
    entry ∈ lineage.taken ∧ entry.directory = path := by
  simp only [select, List.mem_filter, decide_eq_true_eq, List.mem_filterMap] at member
  obtain ⟨⟨index, -, found⟩, home⟩ := member
  exact ⟨List.mem_of_getElem? found, home⟩

theorem keeps_restore (quiet : lineage.world.faults = []) (path : DirectoryPath)
    (indices : List Nat) :
    Keeps agree lineage (.restore path indices) (lineage.step (.restore path indices)) := by
  simp only [step, restore]
  have ends := kept.restoreAll quiet (lineage.select path indices)
    (fun _ member => mem_select member) (fun _ recorded => recorded) (knows_empty _)
  cases executed : (CowDisk.restoreAll path ((lineage.select path indices).map Taken.state)
      ∅).exec lineage.world with
  | mk result world =>
    obtain ⟨-, ⟨next, moved, sound, frame⟩, returned⟩ := ends.of_exec executed
    cases result with
    | error error =>
      have steady : ∀ inode, False → ¬ lineage.Reads path inode := fun _ never => never.elim
      have grows : lineage.Grows path (lineage.inWorld world) :=
        ⟨moved.directory.symm ▸ frame, moved.others, fun _ _ reads =>
          .inl (kept.reads_inWorld moved frame steady reads)⟩
      exact grows.keeps kept (kept.inWorld moved frame steady sound) moved.quiet
    | ok disks =>
      obtain ⟨-, exact, grows⟩ := returned disks rfl
      refine grows.keeps kept exact fun still => ?_
      rw [world_foldl_add]
      exact moved.quiet still

theorem keeps_step (ready : lineage.Ready agree action) :
    Keeps agree lineage action (lineage.step action) := by
  cases action with
  | create path size => exact keeps_create kept ready path size
  | write index block buffer => exact keeps_write kept ready
  | fork index => exact keeps_fork kept index
  | checkpoint index => exact keeps_checkpoint kept index
  | drop index =>
    have fewer : lineage.Grows 0 (lineage.drop index) :=
      grows_of_reads rfl fun _ _ reads => reads_drop reads
    exact fewer.keeps kept (kept.drop index) id
  | restore path indices => exact keeps_restore kept ready path indices
  | restart =>
    have fewer : lineage.Grows 0 (lineage.step .restart) :=
      grows_of_reads rfl fun _ _ reads => reads_mono reads (fun _ _ found => by cases found) rfl rfl
    exact fewer.keeps kept ⟨show 1 < Word64.bound by decide, kept.sound,
      fun _ _ found => (by cases found), kept.held, fun _ _ _ found => (by cases found),
      fun _ _ => rfl⟩ id

end Step

theorem oneBlock_initial : initial.OneBlock := by
  rintro path left right ⟨inode, ⟨names, member, -⟩, -⟩
  cases member with
  | inl byDisk =>
    obtain ⟨_, _, _, found, -⟩ := byDisk
    cases found
  | inr byState =>
    obtain ⟨_, inside, -⟩ := byState
    cases inside

structure Kept (lineage : DiskLineage) : Prop where
  exact : lineage.Exact Eq
  uniform : lineage.OneBlock
  quiet : lineage.world.faults = []

theorem kept_step (lineage : DiskLineage) (action : DiskAction) (kept : lineage.Kept)
    (fresh : lineage.HandsOutFresh action) : (lineage.step action).Kept := by
  have keeps := keeps_step kept.exact (ready_of_quiet Eq kept.quiet action)
  exact ⟨keeps.exact, keeps.uniform kept.uniform fresh, keeps.quiet kept.quiet⟩

/-- Checkpoints are exact and immutable: at any time, and in any selection, the states that
checkpoints returned are restored to the blocks that were visible when they were taken. -/
theorem checkpoints_restore_exactly {actions : List DiskAction}
    (fresh : Admitted step HandsOutFresh initial actions) (path : DirectoryPath)
    (indices : List Nat) : ∃ disks world,
      (CowDisk.restoreAll path (((run step initial actions).select path indices).map Taken.state)
        ∅).exec (run step initial actions).world = (.ok disks, world) ∧
      disks.map CowDisk.visibleBlocks =
        ((run step initial actions).select path indices).map Taken.blocks := by
  have kept : (run step initial actions).Kept :=
    run_invariant Kept kept_step ⟨exact_initial, oneBlock_initial, rfl⟩ fresh
  have ends := kept.exact.restoreAll kept.quiet ((run step initial actions).select path indices)
    (fun _ member => mem_select member) (fun _ recorded => recorded) (knows_empty _)
  cases executed : (CowDisk.restoreAll path
      (((run step initial actions).select path indices).map Taken.state) ∅).exec
      (run step initial actions).world with
  | mk result world =>
    obtain ⟨succeeds, -, returned⟩ := ends.of_exec executed
    obtain ⟨disks, rfl⟩ := succeeds (kept.uniform path)
    refine ⟨disks, world, rfl, ?_⟩
    rw [← List.forall₂_eq_eq_eq, List.forall₂_map_left_iff, List.forall₂_map_right_iff]
    exact (returned disks rfl).1.flip.imp fun _ _ same => same.symm

/-- Two checkpoints, a write that is lost, and a new process that restores both checkpoints and
hands out the block id of the lost write again. -/
def restoreBothRun : List DiskAction :=
  [.create 0 8192, .write 0 0 [1], .checkpoint 0, .write 0 0 [2], .checkpoint 0, .write 0 0 [3],
    .restart, .restore 0 [0, 1], .write 1 0 [4], .checkpoint 1]

set_option maxRecDepth 2000 in
theorem checkpoints_restore_exactly_after_restart :
    ((run step initial restoreBothRun).select 0 [0, 1, 2]).length = 3 ∧ ∃ disks world,
      (CowDisk.restoreAll 0
        (((run step initial restoreBothRun).select 0 [0, 1, 2]).map Taken.state) ∅).exec
        (run step initial restoreBothRun).world = (.ok disks, world) ∧
      disks.map CowDisk.visibleBlocks =
        ((run step initial restoreBothRun).select 0 [0, 1, 2]).map Taken.blocks :=
  ⟨by decide +kernel, checkpoints_restore_exactly (by decide +kernel) 0 [0, 1, 2]⟩

/-- A new process that goes on from the older of two checkpoints. -/
def restoreOlderRun : List DiskAction :=
  [.create 0 8192, .write 0 0 [1], .checkpoint 0, .write 0 0 [2], .checkpoint 0, .restart,
    .restore 0 [0], .write 1 0 [3], .checkpoint 1]

set_option maxRecDepth 2000 in
/-- Its first write takes the block id of the newer checkpoint, and the two states cannot be
restored together any more. -/
theorem older_restore_reuses_block_id :
    ((run step initial restoreOlderRun).select 0 [1, 2]).length = 2 ∧
      (CowDisk.restoreAll 0 (((run step initial restoreOlderRun).select 0 [1, 2]).map Taken.state)
        ∅).error? (run step initial restoreOlderRun).world =
        some (.invalidData "filesystem block object 2 has conflicting contents") := by
  decide +kernel

end DiskLineage

end Minidox.Redox
