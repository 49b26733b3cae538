import Minidox.Redox.DiskLineage
import Minidox.Redox.DurableWrites

/-!
# Lineages that are read back from their files

The disks of a lineage append each to an overlay of their own, which no other disk and no state
reads. So what one disk does is not seen by the others, whether it fails or not.
-/

set_option autoImplicit false

namespace Minidox.Redox

open Foundation Attempt
open Directory (Continues)

namespace DiskLineage

def Names (lineage : DiskLineage) (path : DirectoryPath) (names : List FileName) : Prop :=
  (∃ index disk durable, lineage.disks index = some disk ∧ disk.durable = some durable ∧
    durable.directory = path ∧ durable.names = names) ∨
  ∃ entry ∈ lineage.taken, entry.directory = path ∧ entry.state.names = names

/-- A disk or a state of the lineage reads the file. -/
def Reads (lineage : DiskLineage) (path : DirectoryPath) (inode : Inode) : Prop :=
  ∃ names, lineage.Names path names ∧ (lineage.world.directories path).Reads names inode

/-- A disk or a state of the lineage reads the record. -/
def Recorded (lineage : DiskLineage) (path : DirectoryPath) (record : LayerRecord) : Prop :=
  ∃ inode, lineage.Reads path inode ∧ record ∈ (lineage.world.directories path).records inode

def Clear (lineage : DiskLineage) (path : DirectoryPath) (names : List FileName) : Prop :=
  ∀ index disk durable, lineage.disks index = some disk → disk.durable = some durable →
    durable.directory = path → ¬ (lineage.world.directories path).Reads names durable.overlay

/-- Every disk and every state of the lineage is read back from its files, and an overlay
is read by its own disk only. -/
structure Exact (agree : BlockMap → BlockMap → Prop) (lineage : DiskLineage) : Prop where
  bounded : lineage.world.nextBlockId < Word64.bound
  sound : ∀ path, (lineage.world.directories path).Sound
  live : ∀ index disk, lineage.disks index = some disk → ∃ durable, disk.durable = some durable ∧
    (lineage.world.directories durable.directory).Live agree disk durable
  held : ∀ entry ∈ lineage.taken,
    (lineage.world.directories entry.directory).Readable entry.state.names ∧
    agree entry.blocks ((lineage.world.directories entry.directory).replay entry.state.names)
  owned : ∀ index disk durable, lineage.disks index = some disk → disk.durable = some durable →
    ¬ (lineage.drop index).Reads durable.directory durable.overlay
  unborn : ∀ index, lineage.nextDisk ≤ index → lineage.disks index = none

variable {agree : BlockMap → BlockMap → Prop} {lineage : DiskLineage} {path : DirectoryPath}
  {names : List FileName} {index : Nat} {disk : CowDisk} {durable : DurableCowDisk}

theorem exact_initial : initial.Exact agree where
  bounded := show 1 < Word64.bound by decide
  sound _ := Directory.sound_empty
  live _ _ found := by cases found
  held _ member := by cases member
  owned _ _ _ found := by cases found
  unborn _ _ := rfl

/-!
## The files of a lineage
-/

theorem names_of_disk (found : lineage.disks index = some disk)
    (side : disk.durable = some durable) : lineage.Names durable.directory durable.names :=
  .inl ⟨index, disk, durable, found, side, rfl, rfl⟩

theorem names_of_entry {entry : Taken} (member : entry ∈ lineage.taken) :
    lineage.Names entry.directory entry.state.names :=
  .inr ⟨entry, member, rfl, rfl⟩

variable {inode : Inode}

theorem reads_mono {other : DiskLineage} (reads : lineage.Reads path inode)
    (disks : ∀ index disk, lineage.disks index = some disk → other.disks index = some disk)
    (world : lineage.world.directories = other.world.directories)
    (taken : lineage.taken = other.taken) : other.Reads path inode := by
  obtain ⟨names, member, read⟩ := reads
  rw [world] at read
  refine ⟨names, ?_, read⟩
  cases member with
  | inl ofDisk =>
    obtain ⟨index, disk, durable, found, rest⟩ := ofDisk
    exact .inl ⟨index, disk, durable, disks index disk found, rest⟩
  | inr ofEntry => exact .inr (taken ▸ ofEntry)

theorem drop_cases {other : Nat} (found : (lineage.drop index).disks other = some disk) :
    other ≠ index ∧ lineage.disks other = some disk := by
  simp only [drop, Function.update_apply] at found
  split at found
  next => cases found
  next apart => exact ⟨apart, found⟩

theorem put_cases {other : Nat} {found : CowDisk}
    (present : (lineage.put index disk).disks other = some found) :
    other = index ∧ found = disk ∨ other ≠ index ∧ lineage.disks other = some found := by
  simp only [put, Function.update_apply] at present
  split at present
  next same => exact .inl ⟨same, (Option.some.inj present).symm⟩
  next apart => exact .inr ⟨apart, present⟩

theorem reads_drop (reads : (lineage.drop index).Reads path inode) :
    lineage.Reads path inode :=
  reads_mono reads (fun _ _ found => (drop_cases found).2) rfl rfl

theorem reads_put (side : disk.durable = some durable)
    (reads : (lineage.put index disk).Reads path inode) : lineage.Reads path inode ∨
      durable.directory = path ∧ (lineage.world.directories path).Reads durable.names inode := by
  obtain ⟨names, member, read⟩ := reads
  cases member with
  | inr ofEntry => exact .inl ⟨names, .inr ofEntry, read⟩
  | inl ofDisk =>
    obtain ⟨other, found, otherSide, present, sided, home, same⟩ := ofDisk
    cases put_cases present with
    | inl new =>
      obtain ⟨rfl, rfl⟩ := new
      rw [side] at sided
      cases sided
      exact .inr ⟨home, same ▸ read⟩
    | inr old => exact .inl ⟨names, .inl ⟨other, found, otherSide, old.2, sided, home, same⟩, read⟩

theorem reads_take {entry : Taken} (reads : (lineage.take entry).Reads path inode) :
    lineage.Reads path inode ∨
      entry.directory = path ∧ (lineage.world.directories path).Reads entry.state.names inode := by
  obtain ⟨names, member, read⟩ := reads
  cases member with
  | inl ofDisk => exact .inl ⟨names, .inl ofDisk, read⟩
  | inr ofEntry =>
    obtain ⟨other, inside, home, same⟩ := ofEntry
    cases List.mem_append.mp inside with
    | inl old => exact .inl ⟨names, .inr ⟨other, old, home, same⟩, read⟩
    | inr new =>
      cases List.mem_singleton.mp new
      exact .inr ⟨home, same ▸ read⟩

theorem clear_put {later : DurableCowDisk} (clear : lineage.Clear path names)
    (side : disk.durable = some later)
    (unread : ¬ (lineage.world.directories path).Reads names later.overlay) :
    (lineage.put index disk).Clear path names := by
  intro other found otherSide present sided home
  cases put_cases present with
  | inr old => exact clear other found otherSide old.2 sided home
  | inl new =>
    obtain ⟨rfl, rfl⟩ := new
    rw [side] at sided
    cases sided
    exact unread

section Exact

variable (kept : lineage.Exact agree)

include kept

theorem Exact.live_of (found : lineage.disks index = some disk)
    (side : disk.durable = some durable) :
    (lineage.world.directories durable.directory).Live agree disk durable := by
  obtain ⟨other, sided, live⟩ := kept.live index disk found
  rw [side] at sided
  cases sided
  exact live

theorem Exact.readable (member : lineage.Names path names) :
    (lineage.world.directories path).Readable names := by
  cases member with
  | inl ofDisk =>
    obtain ⟨index, disk, durable, found, side, rfl, rfl⟩ := ofDisk
    exact (kept.live_of found side).readable
  | inr ofEntry =>
    obtain ⟨entry, inside, rfl, rfl⟩ := ofEntry
    exact (kept.held entry inside).1

theorem Exact.reads_lt (reads : lineage.Reads path inode) :
    inode < (lineage.world.directories path).nextInode :=
  reads.elim fun _ both => (kept.sound path).reads_lt both.2

theorem Exact.reads_overlay (found : lineage.disks index = some disk)
    (side : disk.durable = some durable) :
    (lineage.world.directories durable.directory).Reads durable.names durable.overlay :=
  Directory.reads_append.mpr (.inr
    ((Directory.reads_singleton (kept.live_of found side).named).mpr rfl))

theorem Exact.clear_entry {entry : Taken} (member : entry ∈ lineage.taken) :
    lineage.Clear entry.directory entry.state.names := by
  intro index disk durable found side home reads
  exact kept.owned index disk durable found side (home.symm ▸ ⟨_, names_of_entry member, reads⟩)

theorem Exact.clear_disk (found : lineage.disks index = some disk)
    (side : disk.durable = some durable) :
    (lineage.drop index).Clear durable.directory durable.names := by
  intro other otherDisk otherSide present sided home reads
  obtain ⟨apart, presentBefore⟩ := drop_cases present
  have still : (lineage.drop other).disks index = some disk :=
    (Function.update_of_ne apart.symm _ _).trans found
  exact kept.owned other otherDisk otherSide presentBefore sided
    (home.symm ▸ ⟨_, names_of_disk still side, reads⟩)

theorem Exact.drop (index : Nat) : (lineage.drop index).Exact agree where
  bounded := kept.bounded
  sound := kept.sound
  live other disk found := kept.live other disk (drop_cases found).2
  held := kept.held
  owned other disk durable found side reads := by
    refine kept.owned other disk durable (drop_cases found).2 side (reads_mono reads ?_ rfl rfl)
    intro place present inside
    obtain ⟨apart, before⟩ := drop_cases inside
    exact (Function.update_of_ne apart _ _).trans (drop_cases before).2
  unborn other later := by
    simp only [DiskLineage.drop, Function.update_apply]
    split
    next => rfl
    next => exact kept.unborn other later

theorem Exact.put (vacant : lineage.disks index = none) (old : index < lineage.nextDisk)
    (side : disk.durable = some durable)
    (live : (lineage.world.directories durable.directory).Live agree disk durable)
    (mine : ¬ lineage.Reads durable.directory durable.overlay)
    (theirs : lineage.Clear durable.directory durable.names) :
    (lineage.put index disk).Exact agree where
  bounded := kept.bounded
  sound := kept.sound
  held := kept.held
  live other found present := by
    cases put_cases present with
    | inl new => exact ⟨durable, new.2 ▸ side, new.2 ▸ live⟩
    | inr before => exact kept.live other found before.2
  owned other found otherSide present sided reads := by
    cases put_cases present with
    | inl new =>
      obtain ⟨rfl, rfl⟩ := new
      rw [side] at sided
      cases sided
      refine mine (reads_mono reads (fun place kept inside => ?_) rfl rfl)
      obtain ⟨apart, before⟩ := drop_cases inside
      exact (Function.update_of_ne apart _ _).symm.trans before
    | inr before =>
      have swapped : (lineage.put index disk).drop other = (lineage.drop other).put index disk := by
        simp only [DiskLineage.put, DiskLineage.drop,
          Function.update_comm before.1 none (some disk) lineage.disks]
      rw [swapped] at reads
      cases reads_put side reads with
      | inl others => exact kept.owned other found otherSide before.2 sided others
      | inr new => exact theirs other found otherSide before.2 sided new.1.symm (new.1 ▸ new.2)
  unborn other later := by
    simp only [DiskLineage.put, Function.update_apply]
    split
    next same => exact absurd (same ▸ later : lineage.nextDisk ≤ index) (Nat.not_le.mpr old)
    next => exact kept.unborn other later

theorem Exact.add (side : disk.durable = some durable)
    (live : (lineage.world.directories durable.directory).Live agree disk durable)
    (mine : ¬ lineage.Reads durable.directory durable.overlay)
    (theirs : lineage.Clear durable.directory durable.names) : (lineage.add disk).Exact agree := by
  have room : Exact agree { lineage with nextDisk := lineage.nextDisk + 1 } :=
    { kept with unborn := fun other later => kept.unborn other (Nat.le_of_succ_le later) }
  exact room.put (kept.unborn lineage.nextDisk (Nat.le_refl _)) (Nat.lt_succ_self _) side live mine
    theirs

theorem Exact.take {entry : Taken}
    (readable : (lineage.world.directories entry.directory).Readable entry.state.names)
    (agrees : agree entry.blocks
      ((lineage.world.directories entry.directory).replay entry.state.names))
    (clear : lineage.Clear entry.directory entry.state.names) :
    (lineage.take entry).Exact agree where
  bounded := kept.bounded
  sound := kept.sound
  live := kept.live
  held other member := by
    cases List.mem_append.mp member with
    | inl old => exact kept.held other old
    | inr new =>
      cases List.mem_singleton.mp new
      exact ⟨readable, agrees⟩
  owned index disk durable found side reads := by
    have swapped : (lineage.take entry).drop index = (lineage.drop index).take entry := rfl
    rw [swapped] at reads
    cases reads_take reads with
    | inl old => exact kept.owned index disk durable found side old
    | inr new => exact clear index disk durable found side new.1.symm (new.1 ▸ new.2)
  unborn := kept.unborn

section World

variable {world : RedoxWorld} {next : Directory} {changed : Inode → Prop}
  (moved : Moved path next lineage.world world)
  (frame : Directory.Frame changed (lineage.world.directories path) next)
  (unread : ∀ inode, changed inode → ¬ lineage.Reads path inode)

include moved frame unread

theorem Exact.stays {other : DirectoryPath} (member : lineage.Names other names) :
    (world.directories other).Readable names ∧
      (world.directories other).replay names = (lineage.world.directories other).replay names ∧
      ∀ inode, (world.directories other).Reads names inode →
        (lineage.world.directories other).Reads names inode := by
  have readable := kept.readable member
  by_cases here : other = path
  · subst here
    have steady : ∀ inode, (lineage.world.directories other).Reads names inode → ¬ changed inode :=
      fun inode reads different => unread inode different ⟨names, member, reads⟩
    rw [moved.directory]
    exact ⟨readable.keep frame steady, readable.replay_eq frame steady,
      fun _ reads => (readable.reads_iff frame).mp reads⟩
  · rw [moved.others other here]
    exact ⟨readable, rfl, fun _ reads => reads⟩

theorem Exact.reads_inWorld {other : DirectoryPath}
    (reads : (lineage.inWorld world).Reads other inode) : lineage.Reads other inode := by
  obtain ⟨names, member, read⟩ := reads
  exact ⟨names, member, (kept.stays moved frame unread member).2.2 inode read⟩

theorem Exact.inWorld (sound : next.Sound) : (lineage.inWorld world).Exact agree where
  bounded := moved.bounded
  sound other := by
    by_cases here : other = path
    · exact here ▸ moved.directory.symm ▸ sound
    · exact (moved.others other here).symm ▸ kept.sound other
  live index disk found := by
    obtain ⟨durable, side, live⟩ := kept.live index disk found
    have member := names_of_disk found side
    obtain ⟨readable, replays, -⟩ := kept.stays moved frame unread member
    refine ⟨durable, side, ?_⟩
    change (world.directories durable.directory).Live agree disk durable
    by_cases here : durable.directory = path
    · have steady : ¬ changed durable.overlay := fun different =>
        unread _ different (here ▸ ⟨_, member, kept.reads_overlay found side⟩)
      subst here
      rw [moved.directory] at readable replays ⊢
      refine ⟨frame.names _ _ live.named, fun empty => ?_, readable, replays ▸ live.visible⟩
      rw [frame.records steady, (Directory.readable_append.mp live.readable).1.reads_iff frame]
      exact live.unused empty
    · rw [moved.others _ here]
      exact live
  held entry member := by
    obtain ⟨readable, replays, -⟩ := kept.stays moved frame unread (names_of_entry member)
    exact ⟨readable, replays.symm ▸ (kept.held entry member).2⟩
  owned index disk durable found side reads :=
    kept.owned index disk durable found side ((kept.drop index).reads_inWorld moved frame
      (fun inode different read => unread inode different (reads_drop read)) reads)
  unborn := kept.unborn

end World

end Exact

/-!
## What the disks do
-/

structure Grows (before : DiskLineage) (path : DirectoryPath) (after : DiskLineage) : Prop where
  frame : Directory.Frame (fun _ => False) (before.world.directories path)
    (after.world.directories path)
  others : ∀ other, other ≠ path → after.world.directories other = before.world.directories other
  reads : ∀ other inode, after.Reads other inode → before.Reads other inode ∨
    other = path ∧ (before.world.directories path).nextInode ≤ inode

theorem Grows.trans {before middle after : DiskLineage} (first : before.Grows path middle)
    (second : middle.Grows path after) : before.Grows path after where
  frame := first.frame.trans second.frame
  others other apart := (second.others other apart).trans (first.others other apart)
  reads other inode reads := by
    cases second.reads other inode reads with
    | inl old => exact first.reads other inode old
    | inr new => exact .inr ⟨new.1, Nat.le_trans first.frame.grown new.2⟩

theorem grows_of_reads {after : DiskLineage} (world : after.world.directories =
    lineage.world.directories) (reads : ∀ other inode, after.Reads other inode →
      lineage.Reads other inode) : lineage.Grows path after :=
  ⟨world ▸ Directory.Frame.refl, fun _ _ => by rw [world], fun other inode read =>
    .inl (reads other inode read)⟩

theorem Grows.recorded {before after : DiskLineage} (grows : before.Grows path after)
    (sound : (before.world.directories path).Sound) {other : DirectoryPath} {record : LayerRecord}
    (recorded : after.Recorded other record) : before.Recorded other record := by
  obtain ⟨inode, reads, member⟩ := recorded
  by_cases here : other = path
  · subst here
    cases grows.reads other inode reads with
    | inl old => exact ⟨inode, old, grows.frame.records not_false ▸ member⟩
    | inr new =>
      rw [sound.fresh grows.frame new.2 not_false] at member
      cases member
  · cases grows.reads other inode reads with
    | inl old => exact ⟨inode, old, grows.others other here ▸ member⟩
    | inr new => exact absurd new.1 here

section Clear

variable {world : RedoxWorld} {next : Directory} (clear : lineage.Clear path names)
  (moved : Moved path next lineage.world world)

include clear moved

theorem Clear.inWorld {changed : Inode → Prop}
    (frame : Directory.Frame changed (lineage.world.directories path) next)
    (readable : (lineage.world.directories path).Readable names) :
    (lineage.inWorld world).Clear path names := by
  intro index disk durable found side home reads
  refine clear index disk durable found side home ((readable.reads_iff frame).mp ?_)
  rw [← moved.directory]
  exact reads

theorem Clear.continues (kept : lineage.Exact agree) {side : DurableCowDisk}
    (continues : Continues (lineage.world.directories path) names next side)
    (own : (lineage.world.directories path).Reads names side.overlay ∨
      (lineage.world.directories path).nextInode ≤ side.overlay) :
    (lineage.inWorld world).Clear path side.names := by
  intro index disk durable found sided home reads
  have before := clear index disk durable found sided home
  cases continues.reads (moved.directory ▸ reads) with
  | inl old => exact before old
  | inr same =>
    cases own with
    | inl mine => exact before (same ▸ mine)
    | inr new =>
      have older := kept.reads_lt ⟨_, names_of_disk found sided, kept.reads_overlay found sided⟩
      rw [home, same] at older
      exact absurd older (Nat.not_lt.mpr new)

end Clear

section Join

variable (kept : lineage.Exact agree) {world : RedoxWorld} {next : Directory}
  (moved : Moved path next lineage.world world) (sound : next.Sound)
  (frame : Directory.Frame (fun _ => False) (lineage.world.directories path) next)

include kept moved sound frame

/-- A disk with a new overlay joins the lineage. It goes on from files that were read before. -/
theorem Exact.join (side : disk.durable = some durable) (home : durable.directory = path)
    (clear : lineage.Clear path names)
    (continues : Continues (lineage.world.directories path) names next durable)
    (new : (lineage.world.directories path).nextInode ≤ durable.overlay)
    (visible : agree disk.visibleBlocks ((lineage.world.directories path).replay names))
    (known : ∀ inode, (lineage.world.directories path).Reads names inode →
      lineage.Reads path inode) :
    ((lineage.inWorld world).add disk).Exact agree ∧
      lineage.Grows path ((lineage.inWorld world).add disk) := by
  subst home
  have steady : ∀ inode, False → ¬ lineage.Reads durable.directory inode :=
    fun _ never => never.elim
  have live := continues.live (kept.sound _) frame new visible
  have back : ∀ other inode, (lineage.inWorld world).Reads other inode →
      lineage.Reads other inode := fun _ _ => kept.reads_inWorld moved frame steady
  refine ⟨(kept.inWorld moved frame steady sound).add side (moved.directory.symm ▸ live)
    (fun reads => ?_) (clear.continues moved kept continues (.inr new)), ?_, moved.others, ?_⟩
  · exact absurd (kept.reads_lt (back _ _ reads)) (Nat.not_lt.mpr new)
  · exact moved.directory.symm ▸ frame
  · intro other inode reads
    cases reads_put side reads with
    | inl old => exact .inl (back other inode old)
    | inr mine =>
      obtain ⟨rfl, read⟩ := mine
      cases continues.reads (moved.directory ▸ read) with
      | inl old => exact .inl (known inode old)
      | inr same => exact .inr ⟨rfl, same ▸ new⟩

end Join

section Operations

theorem put_drop (lineage : DiskLineage) (index : Nat) (world : RedoxWorld) (disk : CowDisk) :
    (lineage.inWorld world).put index disk =
      ((lineage.drop index).inWorld world).put index disk := by
  simp only [put, inWorld, drop, Function.update_idem]

variable (kept : lineage.Exact agree) (found : lineage.disks index = some disk)
  (side : disk.durable = some durable)

include kept found side

theorem Exact.write {next : Directory} {more : List LayerRecord} {after : RedoxWorld × CowDisk}
    (records : Records agree lineage.world (lineage.world.directories durable.directory)
      next durable
      more after) :
    ((lineage.inWorld after.1).put index after.2).Exact agree ∧
      ∀ other record, ((lineage.inWorld after.1).put index after.2).Recorded other record →
        lineage.Recorded other record ∨ other = durable.directory ∧ record ∈ more := by
  have owned := kept.owned index disk durable found side
  have unread : ∀ inode, inode = durable.overlay →
      ¬ (lineage.drop index).Reads durable.directory inode := fun _ same => same ▸ owned
  have readable := (kept.live_of found side).readable
  have back : ∀ other inode, ((lineage.drop index).inWorld after.1).Reads other inode →
      (lineage.drop index).Reads other inode :=
    fun _ _ => (kept.drop index).reads_inWorld records.moved records.frame unread
  rw [put_drop]
  refine ⟨((kept.drop index).inWorld records.moved records.frame unread records.sound).put
    (Function.update_self ..) ?_ records.side (records.moved.directory.symm ▸ records.live)
    (fun reads => owned (back _ _ reads))
    ((kept.clear_disk found side).inWorld records.moved records.frame readable), ?_⟩
  · by_contra late
    rw [kept.unborn index (Nat.not_lt.mp late)] at found
    cases found
  · rintro other record ⟨inode, reads, member⟩
    have known : lineage.Reads other inode := by
      cases reads_put records.side reads with
      | inl old => exact reads_drop (back other inode old)
      | inr mine =>
        obtain ⟨rfl, read⟩ := mine
        exact ⟨_, names_of_disk found side,
          (readable.reads_iff records.frame).mp (records.moved.directory ▸ read)⟩
    have member : record ∈ (after.1.directories other).records inode := member
    by_cases here : other = durable.directory
    · subst here
      rw [records.moved.directory] at member
      by_cases mine : inode = durable.overlay
      · rw [mine, records.records] at member
        exact (List.mem_append.mp member).imp (fun old => ⟨inode, known, mine ▸ old⟩)
          fun new => ⟨rfl, new⟩
      · exact .inl ⟨inode, known, records.frame.records mine ▸ member⟩
    · exact .inl ⟨inode, known, records.moved.others other here ▸ member⟩

variable {next : Directory} {later : DurableCowDisk} {after : RedoxWorld × CowDisk}
  (proceeds : Proceeds agree (lineage.world.directories durable.directory) next lineage.world disk
    durable after later)

include proceeds

omit found side in
theorem Exact.aside (index : Nat) : Moved durable.directory next lineage.world after.1 ∧
    ((lineage.drop index).inWorld after.1).Exact agree ∧
    ∀ other inode, ((lineage.drop index).inWorld after.1).Reads other inode →
      (lineage.drop index).Reads other inode := by
  have moved : Moved durable.directory next lineage.world after.1 :=
    ⟨proceeds.became.directory, proceeds.became.others, proceeds.became.quiet,
      proceeds.became.blockIds ▸ kept.bounded⟩
  have steady : ∀ inode, False → ¬ (lineage.drop index).Reads durable.directory inode :=
    fun _ never => never.elim
  exact ⟨moved, (kept.drop index).inWorld moved proceeds.frame steady proceeds.sound,
    fun _ _ => (kept.drop index).reads_inWorld moved proceeds.frame steady⟩

theorem Exact.proceed : ((lineage.inWorld after.1).put index after.2).Exact agree ∧
    lineage.Grows durable.directory ((lineage.inWorld after.1).put index after.2) := by
  obtain ⟨moved, aside, back⟩ := kept.aside proceeds index
  have home := proceeds.home
  rw [put_drop]
  refine ⟨aside.put (Function.update_self ..) ?_ proceeds.side (home ▸ moved.directory.symm ▸
    proceeds.live) (fun reads => ?_) ?_, moved.directory.symm ▸ proceeds.frame, moved.others, ?_⟩
  · by_contra late
    rw [kept.unborn index (Nat.not_lt.mp late)] at found
    cases found
  · have read := back _ _ reads
    rw [home] at read
    cases proceeds.own with
    | inl same => exact kept.owned index disk durable found side (same ▸ read)
    | inr new => exact absurd (kept.reads_lt (reads_drop read)) (Nat.not_lt.mpr new)
  · rw [home]
    refine (kept.clear_disk found side).continues moved (kept.drop index) proceeds.continues
      (proceeds.own.imp (fun same => ?_) id)
    exact same ▸ kept.reads_overlay found side
  · intro other inode reads
    cases reads_put proceeds.side reads with
    | inl old => exact .inl (reads_drop (back other inode old))
    | inr mine =>
      obtain ⟨rfl, read⟩ := mine
      rw [home] at read ⊢
      have known : ∀ inode,
          (lineage.world.directories durable.directory).Reads durable.names inode →
          lineage.Reads durable.directory inode :=
        fun inode read => ⟨_, names_of_disk found side, read⟩
      cases proceeds.continues.reads (moved.directory ▸ read) with
      | inl old => exact .inl (known inode old)
      | inr mine =>
        subst mine
        refine proceeds.own.imp (fun same => known _ ?_) fun new => ⟨rfl, new⟩
        exact same ▸ kept.reads_overlay found side

theorem Exact.fork {child : CowDisk} {branch : DurableCowDisk} (sided : child.durable = some branch)
    (branches : Branches (lineage.world.directories durable.directory) next durable later branch)
    (live : next.Live agree child branch) :
    (((lineage.inWorld after.1).put index after.2).add child).Exact agree ∧
      lineage.Grows durable.directory
        (((lineage.inWorld after.1).put index after.2).add child) := by
  obtain ⟨moved, -, back⟩ := kept.aside proceeds index
  obtain ⟨parent, grows⟩ := kept.proceed found side proceeds
  have home := branches.home
  refine ⟨parent.add sided (home ▸ moved.directory.symm ▸ live) (fun reads => ?_) ?_,
    grows.frame, grows.others, ?_⟩
  · rw [put_drop, home] at reads
    have older : ∀ {inode}, lineage.Reads durable.directory inode → inode ≠ branch.overlay :=
      fun read same => absurd (kept.reads_lt (same ▸ read)) (Nat.not_lt.mpr branches.new)
    cases reads_put proceeds.side reads with
    | inl old => exact older (reads_drop (back _ _ old)) rfl
    | inr mine =>
      cases proceeds.continues.reads (moved.directory ▸ mine.2) with
      | inl old => exact older ⟨_, names_of_disk found side, old⟩ rfl
      | inr same => exact branches.apart same
  · rw [put_drop, home]
    refine clear_put ((kept.clear_disk found side).continues moved (kept.drop index)
      branches.continues (.inr branches.new)) proceeds.side ?_
    exact moved.directory.symm ▸ branches.beside
  · intro other inode reads
    cases reads_put sided reads with
    | inl old => exact grows.reads other inode old
    | inr mine =>
      obtain ⟨rfl, read⟩ := mine
      rw [home] at read ⊢
      cases branches.continues.reads (moved.directory ▸ read) with
      | inl old => exact .inl ⟨_, names_of_disk found side, old⟩
      | inr same => exact .inr ⟨rfl, same ▸ branches.new⟩

theorem Exact.checkpoint {state : DurableDiskState} (names : state.names = durable.names)
    (new : (lineage.world.directories durable.directory).nextInode ≤ later.overlay) :
    (((lineage.inWorld after.1).put index after.2).take
        ⟨durable.directory, state, disk.visibleBlocks⟩).Exact agree ∧
      lineage.Grows durable.directory (((lineage.inWorld after.1).put index after.2).take
        ⟨durable.directory, state, disk.visibleBlocks⟩) := by
  obtain ⟨moved, -⟩ := kept.aside proceeds index
  obtain ⟨parent, grows⟩ := kept.proceed found side proceeds
  have live := kept.live_of found side
  have readable := live.readable
  refine ⟨parent.take ?_ ?_ ?_, grows.frame, grows.others, ?_⟩
  · exact names ▸ moved.directory.symm ▸ readable.keep proceeds.frame fun _ _ => not_false
  · refine names ▸ moved.directory.symm ▸ ?_
    exact (readable.replay_eq proceeds.frame fun _ _ => not_false).symm ▸ live.visible
  · rw [put_drop]
    refine names ▸ clear_put ((kept.clear_disk found side).inWorld moved proceeds.frame readable)
      proceeds.side fun reads => ?_
    exact absurd ((kept.sound _).reads_lt ((readable.reads_iff proceeds.frame).mp
      (moved.directory ▸ reads))) (Nat.not_lt.mpr new)
  · intro other inode reads
    cases reads_take reads with
    | inl old => exact grows.reads other inode old
    | inr mine =>
      obtain ⟨rfl, read⟩ := mine
      refine .inl ⟨_, names_of_disk found side, (readable.reads_iff proceeds.frame).mp ?_⟩
      exact names ▸ moved.directory ▸ read

end Operations

theorem world_foldl_add (disks : List CowDisk) (lineage : DiskLineage) :
    (disks.foldl add lineage).world = lineage.world := by
  induction disks generalizing lineage with
  | nil => rfl
  | cons disk rest ih => exact ih (lineage.add disk)

/-- Restoring states gives their blocks, and disks that join the lineage. The states share
their block objects, so that it succeeds when no two records have one id and other bytes. -/
theorem Exact.restoreAll [Agreement agree] (kept : lineage.Exact agree)
    (quiet : lineage.world.faults = []) (entries : List Taken)
    (members : ∀ entry ∈ entries, entry ∈ lineage.taken ∧ entry.directory = path)
    {source : LayerRecord → Prop} (covered : ∀ record, lineage.Recorded path record → source record)
    {objects : BlockMap} (knows : Knows source objects) :
    Ends (CowDisk.restoreAll path (entries.map Taken.state) objects) lineage.world
      fun result after => (Uniform source → ∃ disks, result = .ok disks) ∧
        (∃ next, Moved path next lineage.world after ∧ next.Sound ∧
          Directory.Frame (fun _ => False) (lineage.world.directories path) next) ∧
        ∀ disks, result = .ok disks →
          List.Forall₂ (fun entry disk => agree entry.blocks disk.visibleBlocks) entries disks ∧
          (disks.foldl DiskLineage.add (lineage.inWorld after)).Exact agree ∧
          lineage.Grows path (disks.foldl DiskLineage.add (lineage.inWorld after)) := by
  induction entries generalizing lineage objects with
  | nil =>
    refine ⟨fun _ => ⟨[], rfl⟩, ⟨_, ⟨rfl, fun _ _ => rfl, id, kept.bounded⟩, kept.sound path,
      Directory.Frame.refl⟩, fun disks returned => ?_⟩
    cases returned
    exact ⟨.nil, kept, grows_of_reads rfl fun _ _ reads => reads⟩
  | cons entry rest ih =>
    obtain ⟨member, rfl⟩ := members entry List.mem_cons_self
    obtain ⟨readable, agrees⟩ := kept.held entry member
    have known : ∀ inode, (lineage.world.directories entry.directory).Reads entry.state.names
        inode → lineage.Reads entry.directory inode :=
      fun inode reads => ⟨_, names_of_entry member, reads⟩
    simp only [List.map_cons, CowDisk.restoreAll, ends_bind]
    refine (ends_restore quiet (kept.sound _) kept.bounded knows readable
      fun record inside => covered record ?_).mono fun result middle restores => ?_
    · obtain ⟨inode, reads, recorded⟩ := Directory.reads_of_mem_recordsIn inside
      exact ⟨inode, known inode reads, recorded⟩
    obtain ⟨next, moved, sound, frame⟩ := restores.moved
    cases result with
    | error error =>
      refine ⟨fun uniform => ?_, ⟨next, moved, sound, frame⟩, not_ok⟩
      obtain ⟨value, returned⟩ := restores.succeeds uniform
      cases returned
    | ok value =>
      obtain ⟨disk, more⟩ := value
      obtain ⟨knowsMore, visible, durable, side, home, new, continues⟩ :=
        restores.restored disk more rfl
      rw [moved.directory] at continues
      obtain ⟨joined, grows⟩ := kept.join moved sound frame side home (kept.clear_entry member)
        continues new (visible ▸ Agreement.refl _) known
      refine (ih joined (moved.quiet quiet)
        (fun other inside => members other (List.mem_cons_of_mem _ inside))
        (fun record recorded => covered record (grows.recorded (kept.sound _) recorded))
        knowsMore).mono ?_
      rintro result after ⟨succeeds, ⟨last, later, soundLast, frameLast⟩, returned⟩
      have all : ∃ next, Moved entry.directory next lineage.world after ∧ next.Sound ∧
          Directory.Frame (fun _ => False) (lineage.world.directories entry.directory) next :=
        ⟨last, moved.trans later, soundLast, grows.frame.trans frameLast⟩
      cases result with
      | error error =>
        refine ⟨fun uniform => ?_, all, not_ok⟩
        obtain ⟨value, impossible⟩ := succeeds uniform
        cases impossible
      | ok disks =>
        obtain ⟨blocks, exact, grown⟩ := returned disks rfl
        refine ⟨fun _ => ⟨_, rfl⟩, all, fun _ value => ?_⟩
        cases value
        exact ⟨.cons (visible ▸ agrees) blocks, exact, grows.trans grown⟩

end DiskLineage

end Minidox.Redox
