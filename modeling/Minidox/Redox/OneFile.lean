import Minidox.Redox.BranchStore

/-!
# A filesystem with room for one file

The smallest filesystem that keeps to the contract. The first two bytes of the disk are zero
while there is no file, and otherwise the length of the file plus one. As the header of
RedoxFS they are kept in memory too, and read again when a disk is opened. The file is in the
second and the third block.
-/

set_option autoImplicit false

namespace Minidox.Redox

open Foundation
open Cache (NodeId)

/-- What is kept in memory: the first two bytes of the disk. -/
structure OneFile where
  low : UInt8
  high : UInt8
  deriving DecidableEq, Repr

namespace OneFile

def node : NodeId := 2

def head (mount : OneFile) : Nat := mount.low.toNat + 256 * mount.high.toNat

/-- The header of a file that is one byte shorter. -/
def ofHead (head : Nat) : OneFile := ⟨UInt8.ofNat head, UInt8.ofNat (head / 256)⟩

def fileLen (mount : OneFile) (other : NodeId) : Option Nat :=
  if other = node ∧ mount.head ≠ 0 then some (mount.head - 1) else none

def fileByte (mount : OneFile) (disk : ByteMap) (other : NodeId) : ByteMap := fun position =>
  if other = node ∧ position < mount.head - 1 then disk (blockSize + position) else 0

def answer {α : Type} (length : Option Nat) (found : Nat → α) : Except Nat α :=
  match length with
  | none => .error 2
  | some length => .ok (found length)

instance : RedoxFs OneFile where
  create size := if 3 * blockSize ≤ size ∧ size < Word64.bound then .ok ([], ⟨0, 0⟩) else .error 28
  mount disk _ := .ok ⟨disk 0, disk 1⟩
  block _ := 0
  len mount _ other := answer (fileLen mount other) id
  readNode mount disk other offset count := answer (fileLen mount other) fun length =>
    (fileByte mount disk other).read offset (min count (length - offset))
  writeNode other offset data mount disk :=
    if other = node ∧ mount.head ≠ 0 ∧ offset + data.length ≤ mount.head - 1 then
      .ok ([(1, disk.read blockSize offset ++ data)], mount, data.length)
    else .error 22
  createNode _ size mount _ :=
    if mount.head = 0 ∧ size ≤ 2 * blockSize then
      let next := ofHead (size + 1)
      .ok ([(1, List.replicate size 0), (0, [next.low, next.high])], next, node)
    else .error 28
  onOpenNode _ mount _ := .ok ([], mount, ())
  onCloseNode _ mount _ := .ok ([], mount, ())

instance : RedoxFiles OneFile where
  fileLen mount _ := fileLen mount
  fileByte := fileByte
  Saved size mount disk := (3 * blockSize ≤ size ∧ size < Word64.bound) ∧
    mount.head ≤ 2 * blockSize + 1 ∧ disk 0 = mount.low ∧ disk 1 = mount.high

theorem answer_eq_ok {α : Type} {length : Option Nat} {found : Nat → α} {value : α} :
    answer length found = .ok value ↔ ∃ known, length = some known ∧ value = found known := by
  cases length with
  | none => simp [answer]
  | some known => simp [answer, eq_comm]

variable {size : Nat} {disk : ByteMap} {mount next : OneFile}

theorem head_ofHead {head : Nat} (small : head ≤ 2 * blockSize + 1) :
    (ofHead head).head = head := by
  rw [OneFile.head, ofHead, UInt8.toNat_ofNat', UInt8.toNat_ofNat']
  unfold blockSize at small
  omega

theorem writeNode_eq_ok {other : NodeId} {offset written : Nat} {data : List UInt8}
    {writes : BlockWrites}
    (computed : RedoxFs.writeNode other offset data mount disk = .ok (writes, next, written)) :
    other = node ∧ offset + data.length ≤ mount.head - 1 ∧
      writes = [(1, disk.read blockSize offset ++ data)] ∧ mount = next ∧
      written = data.length := by
  simp only [RedoxFs.writeNode] at computed
  split at computed
  next accepted =>
    cases computed
    exact ⟨accepted.1, accepted.2.2, rfl, rfl, rfl⟩
  next => cases computed

theorem applyWrites_writeNode (disk : ByteMap) (offset : Nat) (data : List UInt8) :
    applyWrites [(1, disk.read blockSize offset ++ data)] disk =
      disk.write (blockSize + offset) data := by
  have parts := ByteMap.write_append disk blockSize (disk.read blockSize offset) data
  rw [ByteMap.length_read, ByteMap.write_read] at parts
  simp only [applyWrites, List.foldl_cons, List.foldl_nil, Nat.one_mul]
  exact parts.symm

theorem createNode_eq_ok {name : String} {length : Nat} {other : NodeId} {writes : BlockWrites}
    (computed : RedoxFs.createNode name length mount disk = .ok (writes, next, other)) :
    mount.head = 0 ∧ length ≤ 2 * blockSize ∧
      writes = [(1, List.replicate length 0), (0, [next.low, next.high])] ∧
      next = ofHead (length + 1) ∧ other = node := by
  simp only [RedoxFs.createNode] at computed
  split at computed
  next accepted =>
    cases computed
    exact ⟨accepted.1, accepted.2, rfl, rfl, rfl⟩
  next => cases computed

theorem applyWrites_createNode (disk : ByteMap) (length : Nat) (low high : UInt8) :
    let after := applyWrites [(1, List.replicate length 0), (0, [low, high])] disk
    after 0 = low ∧ after 1 = high ∧ ∀ position < length, after (blockSize + position) = 0 := by
  simp only [applyWrites, List.foldl_cons, List.foldl_nil, Nat.one_mul, Nat.zero_mul]
  refine ⟨?_, ?_, ?_⟩
  · rw [ByteMap.write_inside le_rfl (by simp)]
    rfl
  · rw [ByteMap.write_inside (Nat.zero_le 1) (by simp)]
    rfl
  · intro position below
    rw [ByteMap.write_outside (by simp [blockSize]; omega),
      ByteMap.write_inside (by omega) (by simp; omega)]
    simp [List.getD, below]

theorem commits_nothing (saved : RedoxFiles.Saved size mount disk) :
    CommitsNothing size mount disk [] mount where
  inside := by rintro _ ⟨⟩
  saved := saved
  kept _ present := present
  fileLen := rfl
  fileByte := rfl

instance : LawfulRedoxFs OneFile where
  create_saved {size writes mount} computed := by
    simp only [RedoxFs.create] at computed
    split at computed
    next fits =>
      cases computed
      exact ⟨(by rintro _ ⟨⟩), fits, Nat.zero_le _, rfl, rfl⟩
    next => cases computed
  mount_saved {size mount next disk} saved opened := by
    cases opened
    have same : (⟨disk 0, disk 1⟩ : OneFile) = mount := by rw [saved.2.2.1, saved.2.2.2]
    rw [same]
    exact ⟨saved, rfl, rfl⟩
  len_file {size mount disk other length given} _ file found := by
    obtain ⟨known, same, rfl⟩ := answer_eq_ok.mp found
    exact Option.some.inj (same.symm.trans file)
  readNode_file {size mount disk other offset count length data} _ file found := by
    obtain ⟨known, same, rfl⟩ := answer_eq_ok.mp found
    cases same.symm.trans file
    rfl
  writeNode_commits {size mount next disk other offset written length data writes} saved file
      computed := by
    obtain ⟨⟨large, bounded⟩, short, low, high⟩ := saved
    obtain ⟨rfl, inside, rfl, rfl, rfl⟩ := writeNode_eq_ok computed
    rw [applyWrites_writeNode]
    have untouched : ∀ position < blockSize,
        disk.write (blockSize + offset) data position = disk position :=
      fun position below => ByteMap.write_outside (by omega)
    refine ⟨⟨?_, ⟨⟨large, bounded⟩, short, ?_, ?_⟩, fun _ present => present⟩,
      fun _ => ⟨rfl, ?_, le_rfl, ?_⟩⟩
    · intro write member
      rw [List.mem_singleton] at member
      subst member
      have total : (disk.read blockSize offset ++ data).length = offset + data.length := by simp
      have start : 1 * blockSize + (offset + data.length) ≤ 3 * blockSize := by omega
      unfold InRange
      rw [total]
      exact ⟨by omega, by omega⟩
    · rw [applyWrites_writeNode, untouched 0 (by decide), low]
    · rw [applyWrites_writeNode, untouched 1 (by decide), high]
    · intro other position outside
      change fileByte mount _ other position = fileByte mount disk other position
      unfold fileByte
      by_cases here : other = node ∧ position < mount.head - 1
      · rw [if_pos here, if_pos here]
        exact ByteMap.write_outside (by omega)
      · rw [if_neg here, if_neg here]
    · intro position low high
      change fileByte mount _ node position = _
      rw [fileByte, if_pos ⟨rfl, by omega⟩, ByteMap.write_inside (by omega) (by omega),
        Nat.add_sub_add_left]
  createNode_commits {size length mount next disk name other writes} saved computed := by
    obtain ⟨⟨large, bounded⟩, -⟩ := saved
    obtain ⟨absent, small, rfl, made, rfl⟩ := createNode_eq_ok computed
    obtain ⟨low, high, body⟩ := applyWrites_createNode disk length next.low next.high
    have count : next.head = length + 1 := by rw [made, head_ofHead (by omega)]
    have before : ∀ other, fileLen mount other = none := by
      intro other
      rw [fileLen, if_neg fun found => found.2 absent]
    refine ⟨⟨?_, ⟨⟨large, bounded⟩, by omega, low, high⟩, ?_⟩, by decide, before node, ?_, ?_, ?_⟩
    · intro write member
      rw [List.mem_cons, List.mem_singleton] at member
      cases member with
      | inl file =>
        subst file
        unfold InRange
        rw [List.length_replicate]
        exact ⟨by omega, by omega⟩
      | inr first =>
        subst first
        unfold InRange
        rw [List.length_cons, List.length_singleton]
        have room : 2 ≤ blockSize := by decide
        exact ⟨by omega, by omega⟩
    · intro other known
      exact absurd (before other) known
    · change fileLen _ node = some length
      rw [fileLen, if_pos ⟨rfl, by omega⟩, count, Nat.add_sub_cancel]
    · funext position
      change fileByte _ _ node position = 0
      rw [fileByte, count]
      by_cases below : position < length
      · rw [if_pos ⟨rfl, by omega⟩]
        exact body position below
      · rw [if_neg (by omega)]
    · intro other different
      constructor
      · change fileLen _ other = fileLen mount other
        rw [before other, fileLen, if_neg fun found => different found.1]
      · funext position
        change fileByte _ _ other position = fileByte mount disk other position
        rw [fileByte, fileByte, if_neg fun found => different found.1,
          if_neg fun found => different found.1]
  onOpenNode_commits {size mount next disk other writes value} saved computed := by
    cases computed
    exact commits_nothing saved
  onCloseNode_commits {size mount next disk other writes value} saved computed := by
    cases computed
    exact commits_nothing saved

/-!
## A new branch
-/

def newBranch : RedoxBranch OneFile where
  disk := CowDisk.new (3 * blockSize)
  mount := ⟨0, 0⟩
  identities := { IdentityBranch.new with files := IdentityBranch.new.files.insert rootNode 1 }

/-- The process that `RedoxBranch::create` leaves. -/
def world : RedoxWorld := { RedoxWorld.initial with nextFileObjectId := 2 }

theorem create_eq : (RedoxBranch.create (3 * blockSize)).exec RedoxWorld.initial =
    (.ok newBranch, world) := rfl

theorem coherent_new : ∃ sound : newBranch.Mounted,
    Cache.Coherent world [(⟨newBranch, sound⟩ : MountedBranch OneFile)] :=
  RedoxBranch.coherent_format rfl (by decide) Nat.one_pos (CowDisk.content_new _ none) create_eq

/-- The branch that `RedoxBranch::create` returns. -/
def branch : MountedBranch OneFile := ⟨newBranch, coherent_new.1⟩

theorem coherent : Cache.Coherent world [branch] := coherent_new.2

/-!
## A durable branch
-/

def durableDisk : CowDisk where
  size := 3 * blockSize
  base := []
  writes := ∅
  durable := some { directory := 0, layers := [], overlayId := 1, overlay := 0 }

def diskWorld : RedoxWorld :=
  ((CowDisk.createDurable 0 (3 * blockSize)).exec RedoxWorld.initial).2

/-- The process that `RedoxBranch::create_durable` leaves, and what its next host calls end with. -/
def durableWorld (faults : Cache.Faults) : RedoxWorld :=
  { diskWorld with nextFileObjectId := 2, faults }

def durableBranch : RedoxBranch OneFile := { newBranch with disk := durableDisk }

theorem createDurable_eq : (RedoxBranch.createDurable 0 (3 * blockSize)).exec RedoxWorld.initial =
    (.ok durableBranch, durableWorld []) := rfl

theorem coherent_durable : ∃ sound : durableBranch.Mounted, ∀ faults,
    Cache.Coherent (durableWorld faults) [(⟨durableBranch, sound⟩ : MountedBranch OneFile)] := by
  have formatted : (RedoxBranch.format durableDisk).exec diskWorld =
      (.ok durableBranch, durableWorld []) := rfl
  obtain ⟨sound, coherent⟩ := RedoxBranch.coherent_format rfl (by decide) Nat.one_pos
    (CowDisk.content_new _ _) formatted
  exact ⟨sound, fun _ => ⟨coherent.registered, coherent.issued, coherent.agrees⟩⟩

def mountedDurable : MountedBranch OneFile := ⟨durableBranch, coherent_durable.1⟩

end OneFile

end Minidox.Redox
