import Minidox.Redox.Loading

/-!
# Forks, checkpoints and restores of durable disks

What the operations of a durable disk do to its directory, wherever they fail. They add names
and empty files; the files that were there stay as they are. A fork that fails may leave the
overlay of its disk linked as a layer, or the disk with a new overlay: it is read back to the
same blocks.
-/

set_option autoImplicit false

namespace Minidox.Redox

open Foundation Attempt
open Cache (IoError)
open Std (ExtTreeMap)
open RedoxWorld (Became)

/-- How the blocks of a disk are compared with those of its files. Writes respect it. -/
class Agreement (agree : BlockMap → BlockMap → Prop) : Prop where
  refl : ∀ blocks, agree blocks blocks
  trans : ∀ {first second third}, agree first second → agree second third → agree first third
  insert : ∀ {left right : BlockMap} (address : Nat) (block : Block), agree left right →
    agree (left.insert address block) (right.insert address block)

namespace Directory

variable {directory before middle after : Directory} {names : List FileName}

/-- A disk that is read back from its files. A disk without writes of its own has an overlay that is
empty and no layer. -/
structure Live (agree : BlockMap → BlockMap → Prop) (directory : Directory) (disk : CowDisk)
    (durable : DurableCowDisk) : Prop where
  named : directory.find (.overlay, durable.overlayId) = some durable.overlay
  unused : disk.writes.isEmpty → directory.records durable.overlay = [] ∧
    ¬ directory.Reads (layerNames durable.layers) durable.overlay
  readable : directory.Readable durable.names
  visible : agree disk.visibleBlocks (directory.replay durable.names)

/-- A side that goes on from a list of files: it replays the same blocks, from these files and
its overlay. -/
structure Continues (before : Directory) (names : List FileName) (after : Directory)
    (side : DurableCowDisk) : Prop where
  named : after.find (.overlay, side.overlayId) = some side.overlay
  readable : after.Readable side.names
  replays : after.replay side.names = before.replay names
  layers : ∀ inode, after.Reads (layerNames side.layers) inode → before.Reads names inode

section Continues

variable {agree : BlockMap → BlockMap → Prop} {disk : CowDisk} {side : DurableCowDisk}

theorem Continues.reads (continues : Continues before names after side) {inode : Inode}
    (reads : after.Reads side.names inode) : before.Reads names inode ∨ inode = side.overlay := by
  cases reads_append.mp reads with
  | inl old => exact .inl (continues.layers inode old)
  | inr new => exact .inr ((reads_singleton continues.named).mp new).symm

theorem Continues.keep (continues : Continues before names middle side)
    (frame : Frame (fun _ => False) middle after) : Continues before names after side where
  named := frame.names _ _ continues.named
  readable := continues.readable.keep frame fun _ _ => not_false
  replays := (continues.readable.replay_eq frame fun _ _ => not_false).trans continues.replays
  layers inode reads := continues.layers inode
    (((readable_append.mp continues.readable).1.reads_iff frame).mp reads)

theorem continues_self (named : directory.find (.overlay, side.overlayId) = some side.overlay)
    (readable : directory.Readable side.names) : Continues directory side.names directory side :=
  ⟨named, readable, rfl, fun _ reads => reads_append.mpr (.inl reads)⟩

theorem Continues.unused (continues : Continues before names after side) (sound : before.Sound)
    (frame : Frame (fun _ => False) before after) (new : before.nextInode ≤ side.overlay) :
    after.records side.overlay = [] ∧ ¬ after.Reads (layerNames side.layers) side.overlay :=
  ⟨sound.fresh frame new not_false, fun reads =>
    absurd (sound.reads_lt (continues.layers _ reads)) (Nat.not_lt.mpr new)⟩

theorem Continues.live (continues : Continues before names after side) (sound : before.Sound)
    (frame : Frame (fun _ => False) before after) (new : before.nextInode ≤ side.overlay)
    (visible : agree disk.visibleBlocks (before.replay names)) : after.Live agree disk side :=
  ⟨continues.named, fun _ => continues.unused sound frame new, continues.readable,
    continues.replays ▸ visible⟩

end Continues

/-- Layers that hold all the blocks of a list of files. -/
structure Layered (before : Directory) (names : List FileName) (after : Directory)
    (layers : List Nat) : Prop where
  sound : after.Sound
  frame : Frame (fun _ => False) before after
  readable : after.Readable (layerNames layers)
  replays : after.replay (layerNames layers) = before.replay names
  reads : ∀ inode, after.Reads (layerNames layers) inode → before.Reads names inode

section Layered

variable {layers : List Nat} {id : Nat}

theorem Layered.create (layered : Layered before names after layers)
    (free : (after.entries .overlay)[id]? = none) :
    Layered before names (after.create .overlay id) layers := by
  have frame : Frame (fun _ => False) after (after.create .overlay id) :=
    frame_create layered.sound free
  exact ⟨layered.sound.create free, layered.frame.trans frame,
    layered.readable.keep frame fun _ _ => not_false,
    (layered.readable.replay_eq frame fun _ _ => not_false).trans layered.replays,
    fun inode reads => layered.reads inode ((layered.readable.reads_iff frame).mp reads)⟩

theorem Layered.continues (layered : Layered before names after layers)
    (free : (after.entries .overlay)[id]? = none) (home : DirectoryPath) :
    Continues before names (after.create .overlay id) ⟨home, layers, id, after.nextInode⟩ := by
  have opened := layered.create free
  have named : (after.create .overlay id).find (.overlay, id) = some after.nextInode := by
    rw [find_create, if_pos rfl]
  have frame : Frame (fun _ => False) after (after.create .overlay id) :=
    frame_create layered.sound free
  have blank := layered.sound.fresh frame (Nat.le_refl _) not_false
  refine ⟨named, readable_append.mpr ⟨opened.readable, ?_⟩, ?_, opened.reads⟩
  · exact (readable_singleton named).mpr
      ⟨[], (by rintro _ ⟨⟩), by simp [Directory.create, encodeAll]⟩
  · exact (replay_snoc_empty named blank).trans opened.replays

variable {overlay : Nat} {top : Inode} (sound : directory.Sound)
  (found : directory.find (.overlay, overlay) = some top)
  (readable : directory.Readable (layerNames layers ++ [(.overlay, overlay)]))

include sound found readable

theorem layered_blank (blank : directory.records top = []) :
    Layered directory (layerNames layers ++ [(.overlay, overlay)]) directory layers :=
  ⟨sound, Frame.refl, (readable_append.mp readable).1, (replay_snoc_empty found blank).symm,
    fun _ reads => reads_append.mpr (.inl reads)⟩

/-- An overlay that is linked as a layer is read as that layer. -/
theorem layered_link (free : (directory.entries .layer)[id]? = none) :
    Layered directory (layerNames layers ++ [(.overlay, overlay)])
      (directory.link .layer id top) (layers ++ [id]) := by
  have frame : Frame (fun _ => False) directory (directory.link .layer id top) := frame_link free
  have named : (directory.link .layer id top).find (.layer, id) = some top := by
    rw [find_link, if_pos rfl]
  obtain ⟨old, last⟩ := readable_append.mp readable
  have split : layerNames (layers ++ [id]) = layerNames layers ++ [(.layer, id)] := List.map_append
  refine ⟨sound.link (sound.inode_lt _ _ found), frame, ?_, ?_, ?_⟩
  · rw [split, readable_append]
    exact ⟨old.keep frame fun _ _ => not_false,
      (readable_singleton named).mpr ((readable_singleton found).mp last)⟩
  · rw [split, replay_append, replay_append, replay_singleton named, replay_singleton found]
    exact congrArg (TreeMap.extend · _) (old.replay_eq frame fun _ _ => not_false)
  · intro inode reads
    rw [split] at reads
    refine reads_append.mpr ((reads_append.mp reads).imp (old.reads_iff frame).mp fun new => ?_)
    exact (reads_singleton found).mpr ((reads_singleton named).mp new)

end Layered

theorem continues_link {durable : DurableCowDisk} (sound : directory.Sound)
    (named : directory.find (.overlay, durable.overlayId) = some durable.overlay)
    (readable : directory.Readable durable.names) {id : Nat}
    (free : (directory.entries .layer)[id]? = none) :
    Continues directory durable.names (directory.link .layer id durable.overlay)
      { durable with layers := durable.layers ++ [id] } := by
  have layered := layered_link sound named readable free
  have still := layered.frame.names _ _ named
  refine ⟨still, readable_append.mpr ⟨layered.readable, ?_⟩, ?_, layered.reads⟩
  · exact (readable_append.mp (readable.keep layered.frame fun _ _ => not_false)).2
  · rw [show directory.replay durable.names = _ from layered.replays.symm, DurableCowDisk.names,
      layerNames, List.map_append]
    refine replay_snoc_twice (still.trans ?_)
    rw [find_link, if_pos rfl]

end Directory

open Directory (Continues Layered)

/-!
## Restoring
-/

theorem extend_empty (blocks : BlockMap) : TreeMap.extend ∅ blocks = blocks := by
  apply ExtTreeMap.ext_getElem?
  intro address
  rw [TreeMap.getElem?_extend, ExtTreeMap.getElem?_empty, Option.or_none]

theorem flatten_single (blocks : BlockMap) : Overlay.flatten [∅, blocks] = blocks := by
  apply ExtTreeMap.ext_getElem?
  intro address
  rw [Overlay.getElem?_flatten, Overlay.lookup_empty_cons, Overlay.lookup_cons]
  exact Option.or_none

section Host

variable {world : RedoxWorld} {path : DirectoryPath} {directory : Directory} {α : Type}

/-- A failed call has added names at most. -/
def Stops (path : DirectoryPath) (directory : Directory) (world : RedoxWorld)
    (failed : IoError → RedoxWorld → Prop) : Prop :=
  ∀ error after next, world.faults ≠ [] → next.Sound →
    Directory.Frame (fun _ => False) directory next → Became path next world after →
    failed error after

theorem Stops.fails {post : Except IoError α → RedoxWorld → Prop}
    (stops : Stops path directory world fun error => post (.error error))
    (sound : directory.Sound) : Host.Fails path directory world post :=
  fun error after faulty became =>
    stops error after directory faulty sound Directory.Frame.refl became

theorem Stops.since {failed : IoError → RedoxWorld → Prop}
    (stops : Stops path directory world failed) {after : RedoxWorld} {next : Directory}
    (frame : Directory.Frame (fun _ => False) directory next)
    (became : Became path next world after) : Stops path next after failed :=
  fun error last final faulty sound more ended =>
    stops error last final (fun quiet => faulty (became.quiet quiet)) sound (frame.trans more)
      (became.trans ended)

theorem ends_linkLayer (here : world.directories path = directory) (sound : directory.Sound)
    {source : Nat} {inode : Inode} (named : directory.find (.overlay, source) = some inode)
    {post : Except IoError Nat → RedoxWorld → Prop}
    (linked : ∀ id after, (directory.entries .layer)[id]? = none →
      Became path (directory.link .layer id inode) world after → post (.ok id) after)
    (stops : Stops path directory world fun error => post (.error error)) :
    Ends (DurableCowDisk.linkLayer path source) world post := by
  simp only [DurableCowDisk.linkLayer, ends_bind]
  refine Host.ends_linkNumberedFile here .layer named (fun id middle free became => ?_)
    (Stops.fails stops sound)
  have found : (directory.link .layer id inode).find (.layer, id) = some inode := by
    rw [Directory.find_link, if_pos rfl]
  have soundLinked : (directory.link .layer id inode).Sound := sound.link (sound.inode_lt _ _ named)
  exact Host.ends_syncFile became.directory found
    (fun after last => linked id after free (became.trans last))
    (Stops.fails (stops.since (Directory.frame_link free) became) soundLinked)

theorem ends_adoptOverlay (quiet : world.faults = []) (here : world.directories path = directory)
    (sound : directory.Sound) {state : DurableDiskState}
    (readable : directory.Readable state.names) :
    Ends (DurableCowDisk.adoptOverlay path state) world fun result after => ∃ layers adopted,
      result = .ok layers ∧ Became path adopted world after ∧
        Layered directory state.names adopted layers := by
  obtain ⟨top, found, -⟩ := (Directory.readable_append.mp readable).2 _ List.mem_cons_self
  simp only [DurableCowDisk.adoptOverlay, ends_bind]
  refine Host.ends_readFile quiet (here ▸ found) ?_
  dsimp only
  rw [ends_ite]
  constructor
  · intro nonempty
    simp only [ends_bind]
    refine ends_linkLayer here sound found (fun layer after free became => ?_)
      fun _ _ _ faulty => absurd quiet faulty
    exact ⟨state.layers ++ [layer], _, rfl, became,
      Directory.layered_link sound found readable free⟩
  · intro empty
    have blank : directory.records top = [] := by
      have none : directory.contents top = [] := by
        rw [← here]
        simpa using empty
      rw [Directory.records, none]
      rfl
    exact ⟨state.layers, directory, rfl, Became.refl here,
      Directory.layered_blank sound found readable blank⟩

structure Moved (path : DirectoryPath) (directory : Directory) (before after : RedoxWorld) :
    Prop where
  directory : after.directories path = directory
  others : ∀ other, other ≠ path → after.directories other = before.directories other
  quiet : before.faults = [] → after.faults = []
  bounded : after.nextBlockId < Word64.bound

theorem Moved.trans {middle after : RedoxWorld} {next : Directory}
    (first : Moved path directory world middle) (second : Moved path next middle after) :
    Moved path next world after :=
  ⟨second.directory, fun other apart =>
    (second.others other apart).trans (first.others other apart),
    fun still => second.quiet (first.quiet still), second.bounded⟩

theorem RedoxWorld.Became.moved {after : RedoxWorld} {next : Nat}
    (became : Became path directory (world.blocksTo next) after) (bounded : next < Word64.bound) :
    Moved path directory world after :=
  ⟨became.directory, became.others, became.quiet, became.blockIds ▸ bounded⟩

structure Restores (source : LayerRecord → Prop) (path : DirectoryPath)
    (state : DurableDiskState) (world : RedoxWorld)
    (result : Except IoError (CowDisk × BlockMap)) (after : RedoxWorld) : Prop where
  succeeds : Uniform source → ∃ value, result = .ok value
  moved : ∃ directory, Moved path directory world after ∧ directory.Sound ∧
    Directory.Frame (fun _ => False) (world.directories path) directory
  restored : ∀ disk objects, result = .ok (disk, objects) → Knows source objects ∧
    disk.visibleBlocks = (world.directories path).replay state.names ∧
    ∃ durable, disk.durable = some durable ∧ durable.directory = path ∧
      (world.directories path).nextInode ≤ durable.overlay ∧
      Continues (world.directories path) state.names (after.directories path) durable

theorem ends_loadState {source : LayerRecord → Prop} (quiet : world.faults = [])
    (bounded : world.nextBlockId < Word64.bound) {objects : BlockMap} (knows : Knows source objects)
    {state : DurableDiskState} (readable : (world.directories path).Readable state.names)
    (inside : ∀ record ∈ (world.directories path).recordsIn state.names, source record)
    {post : Except IoError Loaded → RedoxWorld → Prop}
    (failed : ¬ Uniform source → ∀ error next, next < Word64.bound →
      post (.error error) (world.blocksTo next))
    (loaded : ∀ final next, next < Word64.bound →
      final.visible = (world.directories path).replay state.names → Knows source final.objects →
      post (.ok final) (world.blocksTo next)) :
    Ends (loadState path state objects) world post := by
  obtain ⟨old, last⟩ := Directory.readable_append.mp readable
  obtain ⟨top, found, whole⟩ := last _ List.mem_cons_self
  have split : (world.directories path).recordsIn state.names =
      (world.directories path).recordsIn (layerNames state.layers) ++
        (world.directories path).records top := by
    rw [DurableDiskState.names, Directory.recordsIn, List.flatMap_append, List.flatMap_singleton,
      found]
    rfl
  rw [split] at inside
  rw [loadState, ends_bind]
  refine (ends_loadLayers state.layers quiet old
    (fun record member => inside record (List.mem_append_left _ member)) knows bounded).mono ?_
  intro result first loads
  obtain ⟨next, rfl, boundedNext⟩ := loads.moved
  cases result with
  | error error =>
    refine failed (fun uniform => ?_) error next boundedNext
    obtain ⟨value, returned⟩ := loads.succeeds uniform
    cases returned
  | ok base =>
    obtain ⟨sameBase, knowsBase⟩ := loads.reads base rfl
    have quietNext : (world.blocksTo next).faults = [] := quiet
    dsimp only
    rw [ends_bind]
    refine (ends_loadRecords quietNext found whole
      (fun record member => inside record (List.mem_append_right _ member)) knowsBase
      boundedNext).mono ?_
    intro result second loads
    obtain ⟨last, rfl, boundedLast⟩ := loads.moved
    cases result with
    | error error =>
      refine failed (fun uniform => ?_) error last boundedLast
      obtain ⟨value, returned⟩ := loads.succeeds uniform
      cases returned
    | ok snapshot =>
      obtain ⟨sameSnapshot, knowsSnapshot⟩ := loads.reads snapshot rfl
      refine loaded _ last boundedLast ?_ knowsSnapshot
      dsimp only
      rw [sameBase, sameSnapshot, extend_empty, extend_empty, Directory.replay, split,
        blocksOf_append]
      rfl

theorem ends_restore {source : LayerRecord → Prop} (quiet : world.faults = [])
    (sound : (world.directories path).Sound) (bounded : world.nextBlockId < Word64.bound)
    {objects : BlockMap} (knows : Knows source objects) {state : DurableDiskState}
    (readable : (world.directories path).Readable state.names)
    (inside : ∀ record ∈ (world.directories path).recordsIn state.names, source record) :
    Ends (CowDisk.restore path state objects) world (Restores source path state world) := by
  simp only [CowDisk.restore, DurableCowDisk.restore, ends_bind]
  refine ends_loadState quiet bounded knows readable inside ?_ ?_
  · intro mixed error next boundedNext
    have moved : Moved path (world.directories path) world (world.blocksTo next) :=
      (Became.refl rfl).moved boundedNext
    exact ⟨fun uniform => absurd uniform mixed, ⟨_, moved, sound, Directory.Frame.refl⟩,
      fun _ _ failed => by cases failed⟩
  intro final next boundedNext blocksRead knowsAll
  simp only [DurableCowDisk.reserveLayerIds, ends_modify]
  -- The counters have moved; the directory is as it was.
  have reserved : Became path (world.directories path) (world.blocksTo next)
      { world.blocksTo next with
        nextDurableLayerId := max world.nextDurableLayerId
          (Word64.saturatingAdd ((state.layers ++ [state.overlay]).foldr max 0) 1) } :=
    { Became.refl rfl with numbers := Nat.le_max_left _ _ }
  refine (ends_adoptOverlay (reserved.quiet quiet) reserved.directory sound readable).mono ?_
  rintro result third ⟨layers, adopted, rfl, became, layered⟩
  have adoptedAll := reserved.trans became
  dsimp only
  refine Host.ends_createNumberedFile became.directory .overlay
    (fun overlayId fourth free created => ?_)
    fun _ _ faulty => absurd (adoptedAll.quiet quiet) faulty
  have createdAll := adoptedAll.trans created
  refine Host.ends_syncDirectory created.directory (fun after synced => ?_)
    fun _ _ faulty => absurd (createdAll.quiet quiet) faulty
  have final := createdAll.trans synced
  have opened := layered.create free
  refine ⟨fun _ => ⟨_, rfl⟩, ⟨_, final.moved boundedNext, opened.sound, opened.frame⟩,
    fun disk objects returned => ?_⟩
  cases returned
  refine ⟨knowsAll, ?_, _, rfl, rfl, layered.frame.grown,
    final.directory ▸ layered.continues free path⟩
  rw [CowDisk.visibleBlocks, flatten_single]
  exact blocksRead

end Host

/-!
## Forks and checkpoints
-/

/-- What a call leaves of the durable side, whether it fails or not. -/
structure Advances (directory next : Directory) (world : RedoxWorld) (durable : DurableCowDisk)
    (sealOverlay : Bool) (after : RedoxWorld × DurableCowDisk) : Prop where
  became : Became durable.directory next world after.1
  sound : next.Sound
  frame : Directory.Frame (fun _ => False) directory next
  continues : Continues directory durable.names next after.2
  home : after.2.directory = durable.directory
  own : after.2.overlay = durable.overlay ∨ directory.nextInode ≤ after.2.overlay
  still : sealOverlay = false → after.2 = durable ∨ directory.nextInode ≤ after.2.overlay

section Disk

variable {world : RedoxWorld} {path : DirectoryPath} {directory next : Directory} {disk : CowDisk}
  {durable : DurableCowDisk} {agree : BlockMap → BlockMap → Prop} {α : Type}

theorem mapError_id (result : Except IoError α) : result.mapError id = result := by
  cases result with
  | ok value => rfl
  | error error => rfl

theorem ends_host {operation : HostM α}
    {post : Except IoError α → RedoxWorld × DurableCowDisk → Prop} :
    Ends (DurableCowDisk.host operation) (world, durable) post ↔
      Ends operation world fun result after => post result (after, durable) := by
  unfold DurableCowDisk.host
  rw [ends_within]
  simp only [mapError_id]

theorem ends_onDurable {operation : DurableM α}
    {post : Except IoError α → RedoxWorld × CowDisk → Prop} :
    Ends (CowDisk.onDurable durable id operation) (world, disk) post ↔
      Ends operation (world, durable) fun result after =>
        post result (after.1, { disk with durable := some after.2 }) := by
  unfold CowDisk.onDurable
  rw [ends_within]
  simp only [mapError_id]

theorem visibleBlocks_sealWrites (disk : CowDisk) :
    disk.sealWrites.visibleBlocks = disk.visibleBlocks := by
  refine Overlay.flatten_congr fun address => ?_
  rw [CowDisk.sealWrites, Overlay.lookup_empty_cons, Overlay.lookup_push]

structure Branches (directory next : Directory) (durable parent child : DurableCowDisk) : Prop where
  continues : Continues directory durable.names next child
  home : child.directory = durable.directory
  new : directory.nextInode ≤ child.overlay
  apart : child.overlay ≠ parent.overlay
  beside : ¬ next.Reads child.names parent.overlay

theorem ends_syncLayers (here : world.directories path = directory) {layers : List Nat}
    (readable : directory.Readable (layerNames layers))
    {post : Except IoError Unit → RedoxWorld → Prop}
    (passed : ∀ after, Became path directory world after → post (.ok ()) after)
    (failed : Host.Fails path directory world post) :
    Ends (forM layers fun layer => Host.syncFile path .layer layer) world post := by
  induction layers generalizing world with
  | nil => exact passed world (Became.refl here)
  | cons layer rest ih =>
    rw [List.forM_cons, ends_bind]
    obtain ⟨inode, found, -⟩ := readable _ List.mem_cons_self
    refine Host.ends_syncFile here found (fun middle became => ?_) failed
    exact ih became.directory (fun name member => readable name (List.mem_cons_of_mem _ member))
      (fun after last => passed after (became.trans last)) (failed.since became)

section Durable

variable (here : world.directories durable.directory = directory) (sound : directory.Sound)
  (named : directory.find (.overlay, durable.overlayId) = some durable.overlay)
  (readable : directory.Readable durable.names) {sealOverlay : Bool}

include named readable

theorem advances_self {after : RedoxWorld} (became : Became durable.directory next world after)
    (sound : next.Sound) (frame : Directory.Frame (fun _ => False) directory next) :
    Advances directory next world durable sealOverlay (after, durable) :=
  ⟨became, sound, frame, (Directory.continues_self named readable).keep frame, rfl, .inl rfl,
    fun _ => .inl rfl⟩

variable (unused : sealOverlay = false → directory.records durable.overlay = [] ∧
  ¬ directory.Reads (layerNames durable.layers) durable.overlay)

include here sound unused

/-- A fork that fails leaves the side with one layer more and its old overlay or a new one, or as
it was. -/
theorem ends_durableFork {post : Except IoError DurableCowDisk → RedoxWorld × DurableCowDisk → Prop}
    (forked : ∀ child next after, Advances directory next world durable sealOverlay after →
      Branches directory next durable after.2 child →
      (sealOverlay = true → directory.nextInode ≤ after.2.overlay) → post (.ok child) after)
    (failed : ∀ error next after, world.faults ≠ [] →
      Advances directory next world durable sealOverlay after → post (.error error) after) :
    Ends (DurableCowDisk.fork sealOverlay) (world, durable) post := by
  have older := sound.inode_lt _ _ named
  cases sealOverlay with
  | false =>
    simp only [DurableCowDisk.fork, ends_bind, ends_onlyIf, ends_get, ends_host,
      Bool.false_eq_true, false_implies, not_false_eq_true, true_implies, true_and]
    have layered := Directory.layered_blank sound named readable (unused rfl).1
    refine Host.ends_createNumberedFile here .overlay (fun childId after free became => ?_)
      fun error after faulty became => failed error directory _ faulty
        (advances_self named readable became sound Directory.Frame.refl)
    have opened := layered.create free
    have continues := layered.continues free durable.directory
    have apart : directory.nextInode ≠ durable.overlay := (Nat.ne_of_lt older).symm
    refine forked _ _ _ (advances_self named readable became opened.sound opened.frame)
      ⟨continues, rfl, Nat.le_refl _, apart, fun reads => ?_⟩ fun never => by cases never
    cases Directory.reads_append.mp reads with
    | inl old => exact (unused rfl).2 ((layered.readable.reads_iff opened.frame).mp old)
    | inr new => exact apart ((Directory.reads_singleton continues.named).mp new)
  | true =>
    simp only [DurableCowDisk.fork, DurableCowDisk.sealLayer, DurableCowDisk.renewOverlay,
      ends_bind, ends_onlyIf, ends_get, ends_host, ends_modify, not_true_eq_false, false_implies,
      and_true, true_implies]
    refine Host.ends_linkNumberedFile here .layer named (fun layer first freeLayer linked => ?_)
      fun error after faulty became => failed error directory _ faulty
        (advances_self named readable became sound Directory.Frame.refl)
    have layered := Directory.layered_link sound named readable freeLayer
    refine Host.ends_createNumberedFile linked.directory .overlay
      (fun overlayId second free created => ?_) fun error after faulty became => ?_
    · have opened := layered.create free
      have becameOpened := linked.trans created
      have parent := layered.continues free durable.directory
      refine Host.ends_createNumberedFile created.directory .overlay
        (fun childId after freeChild last => ?_) fun error after faulty became => ?_
      · have both := opened.create freeChild
        have child := opened.continues freeChild durable.directory
        refine forked _ _ _ ⟨becameOpened.trans last, both.sound, both.frame,
          parent.keep (Directory.frame_create opened.sound freeChild), rfl,
          .inr layered.frame.grown, fun never => by cases never⟩ ⟨child, rfl, opened.frame.grown,
          Nat.succ_ne_self _, fun reads => ?_⟩ fun _ => layered.frame.grown
        cases child.reads reads with
        | inl old => exact absurd (sound.reads_lt old) (Nat.not_lt.mpr layered.frame.grown)
        | inr same => exact Nat.succ_ne_self _ same.symm
      · exact failed error _ _ (fun quiet => faulty (becameOpened.quiet quiet))
          ⟨becameOpened.trans became, opened.sound, opened.frame, parent, rfl,
            .inr layered.frame.grown, fun never => by cases never⟩
    · exact failed error _ _ (fun quiet => faulty (linked.quiet quiet))
        ⟨linked.trans became, layered.sound, layered.frame,
          Directory.continues_link sound named readable freeLayer, rfl, .inl rfl,
          fun never => by cases never⟩

theorem ends_checkpointLayer {post : Except IoError (Option Nat) → RedoxWorld → Prop}
    (holds : ∀ layer next after, Became durable.directory next world after →
      Layered directory durable.names next (durable.layers ++ layer.toList) →
      post (.ok layer) after)
    (stops : Stops durable.directory directory world fun error => post (.error error)) :
    Ends (DurableCowDisk.checkpointLayer durable sealOverlay) world post := by
  unfold DurableCowDisk.checkpointLayer
  cases sealOverlay with
  | true =>
    simp only [if_true, ends_bind]
    exact ends_linkLayer here sound named (fun layer after free became =>
      holds (some layer) _ after became (Directory.layered_link sound named readable free)) stops
  | false =>
    refine holds none directory world (Became.refl here) ?_
    rw [Option.toList_none, List.append_nil]
    exact Directory.layered_blank sound named readable (unused rfl).1

theorem ends_checkpoint (size : Nat)
    {post : Except IoError DurableDiskState → RedoxWorld × DurableCowDisk → Prop}
    (saved : ∀ next after, Advances directory next world durable sealOverlay after →
      directory.nextInode ≤ after.2.overlay →
      post (.ok ⟨size, durable.layers, durable.overlayId⟩) after)
    (failed : ∀ error next after, world.faults ≠ [] →
      Advances directory next world durable sealOverlay after → post (.error error) after) :
    Ends (DurableCowDisk.checkpoint size sealOverlay) (world, durable) post := by
  simp only [DurableCowDisk.checkpoint, ends_bind, ends_get, ends_host, ends_modify, ends_pure]
  have stops : Stops durable.directory directory world fun error after =>
      post (.error error) (after, durable) :=
    fun error after next faulty sound frame became =>
      failed error next _ faulty (advances_self named readable became sound frame)
  refine ends_syncLayers here (Directory.readable_append.mp readable).1 (fun first synced => ?_)
    (Stops.fails stops sound)
  have afterSync := stops.since Directory.Frame.refl synced
  refine Host.ends_probe synced.directory (fun second probed => ?_) (Stops.fails afterSync sound)
  refine ends_checkpointLayer probed.directory sound named readable unused
    (fun layer next third linked layered => ?_) (afterSync.since Directory.Frame.refl probed)
  have afterLink := (afterSync.since Directory.Frame.refl probed).since layered.frame linked
  refine Host.ends_createNumberedFile linked.directory .overlay
    (fun overlayId fourth free created => ?_) (Stops.fails afterLink layered.sound)
  have opened := layered.create free
  refine Host.ends_syncDirectory created.directory (fun after last => ?_)
    (Stops.fails (afterLink.since (Directory.frame_create layered.sound free) created) opened.sound)
  have became := (((synced.trans probed).trans linked).trans created).trans last
  exact saved _ _ ⟨became, opened.sound, opened.frame, layered.continues free _, rfl,
    .inr layered.frame.grown, fun _ => .inr layered.frame.grown⟩ layered.frame.grown

end Durable

structure Proceeds (agree : BlockMap → BlockMap → Prop) (directory next : Directory)
    (world : RedoxWorld) (disk : CowDisk) (durable : DurableCowDisk)
    (after : RedoxWorld × CowDisk) (later : DurableCowDisk) : Prop where
  side : after.2.durable = some later
  became : Became durable.directory next world after.1
  sound : next.Sound
  frame : Directory.Frame (fun _ => False) directory next
  continues : Continues directory durable.names next later
  home : later.directory = durable.directory
  own : later.overlay = durable.overlay ∨ directory.nextInode ≤ later.overlay
  live : next.Live agree after.2 later
  visible : after.2.visibleBlocks = disk.visibleBlocks

theorem Directory.Live.proceeds (live : directory.Live agree disk durable) (sound : directory.Sound)
    {after : RedoxWorld × DurableCowDisk}
    (advances : Advances directory next world durable (!disk.writes.isEmpty) after)
    {later : CowDisk} (side : later.durable = some after.2)
    (visible : later.visibleBlocks = disk.visibleBlocks)
    (renewed : later.writes.isEmpty →
      disk.writes.isEmpty ∨ directory.nextInode ≤ after.2.overlay) :
    Proceeds agree directory next world disk durable (after.1, later) after.2 := by
  obtain ⟨became, soundNext, frame, continues, home, own, still⟩ := advances
  refine ⟨side, became, soundNext, frame, continues, home, own, ⟨continues.named, fun empty => ?_,
    continues.readable, ?_⟩, visible⟩
  · have fresh := continues.unused sound frame
    cases renewed empty with
    | inr new => exact fresh new
    | inl old =>
      cases still (by rw [old]; rfl) with
      | inr new => exact fresh new
      | inl same =>
        obtain ⟨blank, unlinked⟩ := live.unused old
        rw [same, frame.records not_false]
        exact ⟨blank, fun reads => unlinked
          (((Directory.readable_append.mp live.readable).1.reads_iff frame).mp reads)⟩
  · rw [visible, continues.replays]
    exact live.visible

section Sealed

variable (here : world.directories durable.directory = directory) (sound : directory.Sound)
  (side : disk.durable = some durable) (live : directory.Live agree disk durable)

include here sound side live

/-- Both branches of a fork are read back from their files and see the blocks of the source. So
does the source when the fork fails. -/
theorem ends_fork : Ends CowDisk.fork (world, disk) fun result after => ∃ next parent,
    Proceeds agree directory next world disk durable after parent ∧
      (∀ error, result = .error error → world.faults ≠ []) ∧
      ∀ child, result = .ok child → ∃ branch, child.durable = some branch ∧
        Branches directory next durable parent branch ∧ next.Live agree child branch := by
  simp only [CowDisk.fork, ends_bind, ends_get, side, ends_onDurable, ends_modify, ends_pure]
  refine ends_durableFork here sound live.named live.readable (fun unsealed => live.unused ?_) ?_ ?_
  · simpa using unsealed
  · intro child next after advances branches renewed
    have visible := visibleBlocks_sealWrites disk
    refine ⟨next, after.2, live.proceeds sound advances rfl visible fun _ => ?_,
      not_error, fun value returned => ?_⟩
    · cases empty : disk.writes.isEmpty with
      | true => exact .inl rfl
      | false => exact .inr (renewed (by rw [empty]; rfl))
    · cases returned
      exact ⟨child, rfl, branches, branches.continues.live sound advances.frame branches.new
        (visible.symm ▸ live.visible)⟩
  · intro error next after faulty advances
    exact ⟨next, after.2, live.proceeds sound advances rfl rfl .inl, fun _ _ => faulty,
      not_ok⟩

/-- A checkpoint returns a state that stands for the blocks of the disk, and leaves its
overlay to it. -/
theorem ends_durableState : Ends CowDisk.durableState (world, disk) fun result after =>
    ∃ next later, Proceeds agree directory next world disk durable after later ∧
      (∀ error, result = .error error → world.faults ≠ []) ∧
      ∀ state, result = .ok state → state.names = durable.names ∧
        directory.nextInode ≤ later.overlay := by
  simp only [CowDisk.durableState, ends_bind, ends_get, side, ends_onDurable, ends_modify,
    ends_pure]
  refine ends_checkpoint here sound live.named live.readable (fun unsealed => live.unused ?_)
    disk.size ?_ ?_
  · simpa using unsealed
  · intro next after advances new
    refine ⟨next, after.2, live.proceeds sound advances rfl (visibleBlocks_sealWrites disk)
      fun _ => .inr new, not_error, fun state returned => ?_⟩
    cases returned
    exact ⟨rfl, new⟩
  · intro error next after faulty advances
    exact ⟨next, after.2, live.proceeds sound advances rfl rfl .inl, fun _ _ => faulty,
      not_ok⟩

end Sealed

theorem ends_createDurable (quiet : world.faults = [])
    (here : world.directories path = directory) (sound : directory.Sound) (size : Nat) :
    Ends (CowDisk.createDurable path size) world fun result after => ∃ disk next side,
      result = .ok disk ∧ Became path next world after ∧ next.Sound ∧
        Directory.Frame (fun _ => False) directory next ∧ disk.durable = some side ∧
        side.directory = path ∧ directory.nextInode ≤ side.overlay ∧
        Continues directory [] next side ∧ disk.visibleBlocks = ∅ := by
  simp only [CowDisk.createDurable, DurableCowDisk.create, ends_bind, ends_pure]
  refine Host.ends_probe here (fun first probed => ?_) fun _ _ faulty => absurd quiet faulty
  refine Host.ends_createNumberedFile probed.directory .overlay
    (fun overlayId second free created => ?_)
    fun _ _ faulty => absurd (probed.quiet quiet) faulty
  have became := probed.trans created
  refine Host.ends_syncDirectory created.directory (fun after last => ?_)
    fun _ _ faulty => absurd (became.quiet quiet) faulty
  have layered : Layered directory [] directory [] :=
    ⟨sound, Directory.Frame.refl, (by rintro _ ⟨⟩), rfl, fun _ reads => reads⟩
  exact ⟨_, _, _, rfl, became.trans last, sound.create free, (layered.create free).frame, rfl, rfl,
    Nat.le_refl _, layered.continues free path, extend_empty ∅⟩

end Disk

end Minidox.Redox
