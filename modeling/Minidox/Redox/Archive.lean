import Minidox.Redox.Disk

/-!
# What layer files hold

Reading the files of a directory back. A file is a sequence of records; the layers
of a branch and its overlay, read one after another, give its blocks. Names are only
added, and only the overlay of a live branch grows.
-/

set_option autoImplicit false

namespace Minidox.Redox

open Foundation Attempt
open Std (ExtTreeMap)

/-- The last record of each address. -/
def blocksOf (records : List LayerRecord) : BlockMap :=
  records.foldl (fun blocks record => blocks.insert record.address record.block) ∅

theorem getElem?_foldl_insert (records : List LayerRecord) (blocks : BlockMap) (address : Nat) :
    (records.foldl (fun blocks record => blocks.insert record.address record.block)
      blocks)[address]? = (blocksOf records)[address]?.or blocks[address]? := by
  unfold blocksOf
  induction records generalizing blocks with
  | nil => simp
  | cons record rest ih =>
    rw [List.foldl_cons, List.foldl_cons, ih, ih (ExtTreeMap.insert ∅ _ _)]
    by_cases here : address = record.address
    · simp [here]
    · simp [TreeMap.getElem?_insert_ite, here]

theorem blocksOf_append (first second : List LayerRecord) :
    blocksOf (first ++ second) = TreeMap.extend (blocksOf first) (blocksOf second) := by
  apply ExtTreeMap.ext_getElem?
  intro address
  rw [TreeMap.getElem?_extend, blocksOf, List.foldl_append, getElem?_foldl_insert]
  rfl

theorem blocksOf_snoc (records : List LayerRecord) (record : LayerRecord) :
    blocksOf (records ++ [record]) = (blocksOf records).insert record.address record.block := by
  rw [blocksOf, List.foldl_append]
  rfl

/-- `overlay-N` or `layer-N`. -/
abbrev FileName := FileKind × Nat

def layerNames (layers : List Nat) : List FileName := layers.map fun layer => (.layer, layer)

/-- The files of a state in the order in which they are read. -/
def DurableDiskState.names (state : DurableDiskState) : List FileName :=
  layerNames state.layers ++ [(.overlay, state.overlay)]

def DurableCowDisk.names (durable : DurableCowDisk) : List FileName :=
  layerNames durable.layers ++ [(.overlay, durable.overlayId)]

namespace Directory

def find (directory : Directory) (name : FileName) : Option Inode :=
  (directory.entries name.1)[name.2]?

def records (directory : Directory) (inode : Inode) : List LayerRecord :=
  recordsOf (directory.contents inode)

def Whole (directory : Directory) (inode : Inode) : Prop :=
  ∃ records : List LayerRecord, (∀ record ∈ records, record.Fits) ∧
    directory.contents inode = encodeAll records

/-- Every file was made as an overlay, and files that were not made are empty. -/
structure Sound (directory : Directory) : Prop where
  inode_lt : ∀ name inode, directory.find name = some inode → inode < directory.nextInode
  made : ∀ inode, inode < directory.nextInode →
    ∃ id : Nat, directory.find (.overlay, id) = some inode
  unborn : ∀ inode, directory.nextInode ≤ inode → directory.contents inode = []

def Readable (directory : Directory) (names : List FileName) : Prop :=
  ∀ name ∈ names, ∃ inode, directory.find name = some inode ∧ directory.Whole inode

def Reads (directory : Directory) (names : List FileName) (inode : Inode) : Prop :=
  ∃ name ∈ names, directory.find name = some inode

def recordsIn (directory : Directory) (names : List FileName) : List LayerRecord :=
  names.flatMap fun name => (directory.find name).elim [] directory.records

/-- The blocks that reading the files gives. -/
def replay (directory : Directory) (names : List FileName) : BlockMap :=
  blocksOf (directory.recordsIn names)

structure Frame (changed : Inode → Prop) (before after : Directory) : Prop where
  names : ∀ name inode, before.find name = some inode → after.find name = some inode
  contents : ∀ inode, ¬ changed inode → after.contents inode = before.contents inode
  grown : before.nextInode ≤ after.nextInode

variable {directory before after last : Directory} {changed : Inode → Prop}

theorem Frame.refl : Frame changed directory directory :=
  ⟨fun _ _ named => named, fun _ _ => rfl, Nat.le_refl _⟩

theorem Frame.trans (first : Frame changed before after) (second : Frame changed after last) :
    Frame changed before last where
  names name inode named := second.names name inode (first.names name inode named)
  contents inode unchanged := by
    rw [second.contents inode unchanged, first.contents inode unchanged]
  grown := Nat.le_trans first.grown second.grown

variable {inode : Inode}

theorem Frame.records (frame : Frame changed before after) (steady : ¬ changed inode) :
    after.records inode = before.records inode :=
  congrArg recordsOf (frame.contents inode steady)

theorem Sound.fresh (sound : before.Sound) (frame : Frame changed before after)
    (new : before.nextInode ≤ inode) (steady : ¬ changed inode) : after.records inode = [] := by
  rw [frame.records steady, records, sound.unborn inode new, recordsOf, Words.chunksExact_nil]
  rfl

section Names

variable {names others : List FileName} {name : FileName} {inode : Inode}

theorem Sound.reads_lt (sound : directory.Sound) (reads : directory.Reads names inode) :
    inode < directory.nextInode := by
  obtain ⟨name, -, found⟩ := reads
  exact sound.inode_lt name inode found

theorem reads_of_mem_recordsIn {record : LayerRecord}
    (member : record ∈ directory.recordsIn names) :
    ∃ inode, directory.Reads names inode ∧ record ∈ directory.records inode := by
  obtain ⟨name, inside, recorded⟩ := List.mem_flatMap.mp member
  cases found : directory.find name with
  | none =>
    rw [found] at recorded
    cases recorded
  | some inode =>
    rw [found] at recorded
    exact ⟨inode, ⟨name, inside, found⟩, recorded⟩

theorem reads_append :
    directory.Reads (names ++ others) inode ↔
      directory.Reads names inode ∨ directory.Reads others inode := by
  simp only [Reads, List.mem_append, or_and_right, exists_or]

theorem readable_append :
    directory.Readable (names ++ others) ↔
      directory.Readable names ∧ directory.Readable others := by
  simp only [Readable, List.mem_append, or_imp, forall_and]

theorem reads_singleton {other : Inode} (found : directory.find name = some inode) :
    directory.Reads [name] other ↔ inode = other := by
  simp [Reads, found]

theorem readable_singleton (found : directory.find name = some inode) :
    directory.Readable [name] ↔ directory.Whole inode := by
  simp [Readable, found]

theorem replay_append (names others : List FileName) :
    directory.replay (names ++ others) =
      TreeMap.extend (directory.replay names) (directory.replay others) := by
  rw [replay, recordsIn, List.flatMap_append, blocksOf_append]
  rfl

theorem replay_singleton (found : directory.find name = some inode) :
    directory.replay [name] = blocksOf (directory.records inode) := by
  rw [replay, recordsIn, List.flatMap_singleton, found, Option.elim_some]

theorem getElem?_replay_append (names others : List FileName) (address : Nat) :
    (directory.replay (names ++ others))[address]? =
      (directory.replay others)[address]?.or (directory.replay names)[address]? := by
  rw [replay_append, TreeMap.getElem?_extend]

theorem replay_snoc_empty (found : directory.find name = some inode)
    (empty : directory.records inode = []) :
    directory.replay (names ++ [name]) = directory.replay names := by
  apply ExtTreeMap.ext_getElem?
  intro address
  rw [getElem?_replay_append, replay_singleton found, empty]
  simp [blocksOf]

theorem replay_snoc_twice {second : FileName} (same : directory.find second = directory.find name) :
    directory.replay (names ++ [name] ++ [second]) = directory.replay (names ++ [name]) := by
  apply ExtTreeMap.ext_getElem?
  intro address
  have again : directory.replay [second] = directory.replay [name] := by
    rw [replay, replay, recordsIn, recordsIn, List.flatMap_singleton, List.flatMap_singleton, same]
  rw [getElem?_replay_append, getElem?_replay_append, again, ← Option.or_assoc, Option.or_self]

variable (readable : before.Readable names) (frame : Frame changed before after)

include readable frame

theorem Readable.find_eq {name : FileName} (member : name ∈ names) :
    after.find name = before.find name := by
  obtain ⟨inode, found, -⟩ := readable name member
  rw [found, frame.names name inode found]

theorem Readable.reads_iff : after.Reads names inode ↔ before.Reads names inode :=
  exists_congr fun _ => and_congr_right fun member => by rw [readable.find_eq frame member]

variable (steady : ∀ inode, before.Reads names inode → ¬ changed inode)

include steady

theorem Readable.keep : after.Readable names := by
  intro name member
  obtain ⟨inode, found, records, fit, content⟩ := readable name member
  refine ⟨inode, frame.names name inode found, records, fit, ?_⟩
  rw [frame.contents inode (steady inode ⟨name, member, found⟩), content]

theorem Readable.replay_eq : after.replay names = before.replay names := by
  refine congrArg blocksOf (List.flatMap_congr fun name member => ?_)
  obtain ⟨inode, found, -⟩ := readable name member
  rw [readable.find_eq frame member, found, Option.elim_some, Option.elim_some,
    frame.records (steady inode ⟨name, member, found⟩)]

end Names

/-!
## New names
-/

theorem find_create (directory : Directory) (id : Nat) (name : FileName) :
    (directory.create .overlay id).find name =
      if name = (.overlay, id) then some directory.nextInode else directory.find name := by
  rw [find, entries_create]
  simp only [Prod.ext_iff]
  rfl

theorem find_link (directory : Directory) (id : Nat) (inode : Inode) (name : FileName) :
    (directory.link .layer id inode).find name =
      if name = (.layer, id) then some inode else directory.find name := by
  rw [find, entries_link]
  simp only [Prod.ext_iff]
  rfl

theorem frame_create {id : Nat} (sound : directory.Sound)
    (free : (directory.entries .overlay)[id]? = none) :
    Frame changed directory (directory.create .overlay id) where
  names name inode named := by
    rw [find_create, if_neg, named]
    rintro rfl
    exact absurd (free.symm.trans named) (by simp)
  contents inode _ := by
    by_cases new : inode = directory.nextInode
    · simp only [create, new, Function.update_self, sound.unborn _ (Nat.le_refl _)]
    · exact Function.update_of_ne new _ _
  grown := Nat.le_succ _

theorem frame_link {id : Nat} (free : (directory.entries .layer)[id]? = none) :
    Frame changed directory (directory.link .layer id inode) where
  names name other named := by
    rw [find_link, if_neg, named]
    rintro rfl
    exact absurd (free.symm.trans named) (by simp)
  contents _ _ := rfl
  grown := Nat.le_refl _

theorem Sound.create {id : Nat} (sound : directory.Sound)
    (free : (directory.entries .overlay)[id]? = none) : (directory.create .overlay id).Sound where
  inode_lt name inode named := by
    rw [find_create] at named
    split at named
    next =>
      cases named
      exact Nat.lt_succ_self _
    next => exact Nat.lt_succ_of_lt (sound.inode_lt name inode named)
  made inode old := by
    by_cases new : inode = directory.nextInode
    · exact ⟨id, by rw [find_create, if_pos rfl, new]⟩
    · obtain ⟨number, named⟩ := sound.made inode (Nat.lt_of_le_of_ne (Nat.le_of_lt_succ old) new)
      have frame : Frame (fun _ => False) directory (directory.create .overlay id) :=
        frame_create sound free
      exact ⟨number, frame.names _ _ named⟩
  unborn inode later := by
    have apart : inode ≠ directory.nextInode := Nat.ne_of_gt (Nat.lt_of_succ_le later)
    simp only [Directory.create, Function.update_of_ne apart]
    exact sound.unborn inode (Nat.le_of_succ_le later)

theorem Sound.link {id : Nat} (sound : directory.Sound) (old : inode < directory.nextInode) :
    (directory.link .layer id inode).Sound where
  inode_lt name other named := by
    rw [find_link] at named
    split at named
    next =>
      cases named
      exact old
    next => exact sound.inode_lt name other named
  made other below := by
    obtain ⟨number, named⟩ := sound.made other below
    exact ⟨number, by rw [find_link, if_neg (fun here => by cases here), named]⟩
  unborn := sound.unborn

theorem sound_empty : empty.Sound where
  inode_lt _ _ named := by simp [empty, find] at named
  made _ old := absurd old (Nat.not_lt_zero _)
  unborn _ _ := rfl

/-!
## Growing files
-/

theorem frame_append {data : List UInt8} (allowed : changed inode) :
    Frame changed directory (directory.append inode data) where
  names _ _ named := named
  contents other unchanged := by
    refine Function.update_of_ne ?_ _ _
    rintro rfl
    exact unchanged allowed
  grown := Nat.le_refl _

theorem Sound.append (sound : directory.Sound) (data : List UInt8)
    (old : inode < directory.nextInode) : (directory.append inode data).Sound where
  inode_lt := sound.inode_lt
  made := sound.made
  unborn other later := by
    have apart : other ≠ inode := Nat.ne_of_gt (Nat.lt_of_lt_of_le old later)
    simp only [Directory.append, Function.update_of_ne apart]
    exact sound.unborn other later

section Append

variable {inode : Inode} {record : LayerRecord}

theorem append_whole (whole : directory.Whole inode) (fits : record.Fits) :
    (directory.append inode record.encode).Whole inode ∧
      (directory.append inode record.encode).records inode =
        directory.records inode ++ [record] := by
  obtain ⟨records, fit, content⟩ := whole
  have longer : (directory.append inode record.encode).contents inode =
      encodeAll (records ++ [record]) := by
    simp only [append, Function.update_self]
    rw [content, encodeAll_append]
    simp [encodeAll]
  have fitAll : ∀ entry ∈ records ++ [record], entry.Fits := by
    intro entry member
    cases List.mem_append.mp member with
    | inl old => exact fit entry old
    | inr new => exact List.mem_singleton.mp new ▸ fits
  refine ⟨⟨_, fitAll, longer⟩, ?_⟩
  rw [Directory.records, longer, recordsOf_encodeAll fitAll, Directory.records, content,
    recordsOf_encodeAll fit]

theorem Readable.append {names : List FileName} (readable : directory.Readable names)
    (fits : record.Fits) : (directory.append inode record.encode).Readable names := by
  intro name member
  obtain ⟨other, found, whole⟩ := readable name member
  refine ⟨other, found, ?_⟩
  by_cases here : other = inode
  · subst here
    exact (append_whole whole fits).1
  · obtain ⟨records, fit, content⟩ := whole
    exact ⟨records, fit, (Function.update_of_ne here _ _).trans content⟩

/-- A record is seen at its own address only, however often its file is read. -/
theorem Readable.getElem?_replay_append_record {names : List FileName}
    (readable : directory.Readable names) (fits : record.Fits) {address : Nat}
    (apart : address ≠ record.address) :
    ((directory.append inode record.encode).replay names)[address]? =
      (directory.replay names)[address]? := by
  induction names with
  | nil => rfl
  | cons name rest ih =>
    obtain ⟨other, found, whole⟩ := readable name List.mem_cons_self
    have foundAfter : (directory.append inode record.encode).find name = some other := found
    have first : ((directory.append inode record.encode).replay [name])[address]? =
        (directory.replay [name])[address]? := by
      rw [replay_singleton found, replay_singleton foundAfter]
      by_cases here : other = inode
      · subst here
        rw [(append_whole whole fits).2, blocksOf_snoc, TreeMap.getElem?_insert_ite, if_neg apart]
      · have frame : Frame (fun changed => changed = inode) directory
            (directory.append inode record.encode) := frame_append rfl
        rw [frame.records here]
    rw [← List.singleton_append, getElem?_replay_append, getElem?_replay_append, first,
      ih fun name member => readable name (List.mem_cons_of_mem _ member)]

theorem Readable.replay_append_record {names : List FileName} {name : FileName}
    (readable : directory.Readable (names ++ [name])) (found : directory.find name = some inode)
    (fits : record.Fits) :
    (directory.append inode record.encode).replay (names ++ [name]) =
      (directory.replay (names ++ [name])).insert record.address record.block := by
  apply ExtTreeMap.ext_getElem?
  intro address
  rw [TreeMap.getElem?_insert_ite]
  split
  next here =>
    subst here
    have whole := (readable_singleton found).mp (readable_append.mp readable).2
    have foundAfter : (directory.append inode record.encode).find name = some inode := found
    rw [getElem?_replay_append, replay_singleton foundAfter, (append_whole whole fits).2,
      blocksOf_snoc, ExtTreeMap.getElem?_insert_self, Option.some_or]
  next apart => exact readable.getElem?_replay_append_record fits apart

end Append

end Directory

end Minidox.Redox
