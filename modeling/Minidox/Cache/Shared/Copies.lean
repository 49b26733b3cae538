import Minidox.Cache.Shared.LineageBranches

/-!
# Private copies

What every branch of a lineage sees, as files of its own.
-/

set_option autoImplicit false

namespace Minidox.Cache

open Foundation

abbrev Files := NodeId → Option (List UInt8)

/-- Overwrite bytes of a file from a position on. The file keeps its length. -/
def overwrite (file : List UInt8) (position : Nat) (data : List UInt8) : List UInt8 :=
  ((ByteMap.ofList file).write position data).read 0 file.length

/-- A file of the same length. -/
def Files.patch (files : Files) (node position : Nat) (data : List UInt8) : Files :=
  Function.update files node ((files node).map fun file => overwrite file position data)

theorem overwrite_read (bytes : ByteMap) (length position : Nat) (data : List UInt8) :
    overwrite (bytes.read 0 length) position data = (bytes.write position data).read 0 length := by
  unfold overwrite
  rw [ByteMap.length_read]
  refine ByteMap.read_congr fun index inside => ?_
  by_cases within : position ≤ 0 + index ∧ 0 + index < position + data.length
  · rw [ByteMap.write_inside within.1 within.2, ByteMap.write_inside within.1 within.2]
  · rw [ByteMap.write_outside within, ByteMap.write_outside within, ByteMap.ofList]
    rw [Nat.zero_add, ByteMap.getD_read _ inside, Nat.zero_add]

namespace Lineage

variable {Identity : Type} {origin : Origin Identity} {held : List DaxPageMapping}
  {lineage : Lineage Identity}

def filesOf (lineage : Lineage Identity) (branch : LineageBranch Identity) : Files :=
  fun node => (branch.len node).map fun length => ByteMap.read (lineage.byteAt branch node) 0 length

def copies (lineage : Lineage Identity) (id : CacheBranchId) : Option Files :=
  (lineage.branches id).map lineage.filesOf

theorem copies_of_found {id : CacheBranchId} {branch : LineageBranch Identity}
    (found : lineage.branches id = some branch) :
    lineage.copies id = some (lineage.filesOf branch) := by
  rw [copies, found, Option.map_some]

theorem filesOf_congr {before after : Lineage Identity} {old new : LineageBranch Identity}
    (len : new.len = old.len)
    (bytes : ∀ node length position, old.len node = some length → position < length →
      after.byteAt new node position = before.byteAt old node position) :
    after.filesOf new = before.filesOf old := by
  funext node
  unfold filesOf
  rw [len]
  cases known : old.len node with
  | none => rfl
  | some length =>
    refine congrArg some (ByteMap.read_congr fun index inside => ?_)
    rw [Nat.zero_add]
    exact bytes node length index known inside

theorem SameView.copies {before after : Lineage Identity} (same : SameView before after) :
    after.copies = before.copies := by
  funext id
  have live := same.live id
  cases foundOld : before.branches id with
  | none =>
    rw [foundOld, Option.isSome_none, Option.isSome_eq_false_iff, Option.isNone_iff_eq_none] at live
    rw [Lineage.copies, Lineage.copies, foundOld, live]
    rfl
  | some old =>
    rw [foundOld, Option.isSome_some, Option.isSome_iff_exists] at live
    obtain ⟨new, foundNew⟩ := live
    obtain ⟨len, bytes⟩ := same.sees id old new foundOld foundNew
    rw [copies_of_found foundOld, copies_of_found foundNew, filesOf_congr len bytes]

theorem SoundFrom.copies_fork {source : CacheBranchId}
    {branch parent child : LineageBranch Identity} (sound : SoundFrom origin held lineage)
    (found : lineage.branches source = some branch) (parentCopy : CopyOf branch parent)
    (childCopy : CopyOf branch child) :
    (lineage.fork source parent child).copies =
      Function.update lineage.copies lineage.nextBranch (lineage.copies source) := by
  have older : source ≠ lineage.nextBranch := Nat.ne_of_lt (sound.branch_lt found)
  have seen : ∀ copy, CopyOf branch copy →
      (lineage.fork source parent child).filesOf copy = lineage.filesOf branch :=
    fun copy same => filesOf_congr same.len fun node _ position _ _ => by
      unfold byteAt
      rw [same.ident, same.byte]
      rfl
  funext id
  by_cases new : id = lineage.nextBranch
  · subst new
    rw [Function.update_self, copies_of_found found, Lineage.copies]
    simp only [Lineage.fork, Function.update_self, Option.map_some]
    exact congrArg some (seen child childCopy)
  · rw [Function.update_of_ne new, Lineage.copies]
    simp only [Lineage.fork, Function.update_of_ne new]
    by_cases here : id = source
    · subst here
      rw [Function.update_self, copies_of_found found]
      exact congrArg some (seen parent parentCopy)
    · rw [Function.update_of_ne here]
      rfl

theorem copies_remove (lineage : Lineage Identity) (id : CacheBranchId) :
    (lineage.remove id).copies = Function.update lineage.copies id none := by
  funext other
  by_cases here : other = id
  · subst here
    simp [Lineage.copies, remove]
  · simp only [Lineage.copies, remove, Function.update_of_ne here]
    rfl

theorem SoundFrom.copies_newFile {id : CacheBranchId} {old new : LineageBranch Identity}
    {issued : Identity → Prop} {node size : Nat} (sound : SoundFrom origin held lineage)
    (found : lineage.branches id = some old) (file : NewFile lineage issued node old new)
    (length : new.len node = some size) (zero : new.byte node = ByteMap.zero) :
    ({ lineage.setBranch id new with issued } : Lineage Identity).copies =
      Function.update lineage.copies id
        (some (Function.update (lineage.filesOf old) node (some (List.replicate size 0)))) := by
  funext other
  by_cases here : other = id
  · subst here
    rw [Function.update_self]
    simp only [Lineage.copies, setBranch, Function.update_self, Option.map_some]
    refine congrArg some (funext fun otherNode => ?_)
    by_cases there : otherNode = node
    · subst there
      rw [Function.update_self]
      simp only [filesOf, length, Option.map_some]
      refine congrArg some ?_
      refine (ByteMap.read_congr fun index _ =>
        (sound.byteAt_created file (0 + index)).trans (congrFun zero _)).trans ?_
      simp [ByteMap.read, ByteMap.zero]
    · rw [Function.update_of_ne there]
      simp only [filesOf, file.len otherNode there]
      refine congrArg (fun bytes => (old.len otherNode).map fun size => ByteMap.read bytes 0 size)
        (funext fun position => ?_)
      exact byteAt_newFile file there other position
  · rw [Function.update_of_ne here]
    simp only [Lineage.copies, setBranch, Function.update_of_ne here]
    rfl

section Store

variable {mapping : DaxPageMapping} {place : Nat} {data : List UInt8}

theorem SoundFrom.byteAt_store (sound : SoundFrom origin held lineage) (member : mapping ∈ held)
    (writable : mapping.flags.write) (inside : place + data.length ≤ pageSize) {id : CacheBranchId}
    {branch : LineageBranch Identity} (found : lineage.branches id = some branch)
    (node position : Nat) :
    (lineage.setPage mapping.page ((lineage.contents mapping.page).write place data)).byteAt
        branch node position =
      if id = mapping.branch ∧ node = mapping.key.1 then
        ByteMap.write (lineage.byteAt branch node) (mapping.key.2 + place) data position
      else lineage.byteAt branch node position := by
  obtain ⟨aligned, -, owner, identity, foundOwner, resolved, resident, -⟩ :=
    sound.held_backed mapping member
  rw [sound.byteAt_setPage member writable _ found node position]
  by_cases page : id = mapping.branch ∧ (node, pageOf position) = mapping.key
  · obtain ⟨rfl, here⟩ := page
    obtain rfl : branch = owner := Option.some.inj (found.symm.trans foundOwner)
    obtain ⟨sameNode, lower, upper⟩ := (pageOf_eq_key aligned).mp here
    have start : pageOf position = mapping.key.2 := congrArg Prod.snd here
    rw [if_pos ⟨rfl, here⟩, if_pos ⟨rfl, sameNode⟩, start]
    by_cases stored : mapping.key.2 + place ≤ position ∧
        position < mapping.key.2 + place + data.length
    · rw [ByteMap.write_inside (by omega) (by omega), ByteMap.write_inside stored.1 stored.2]
      congr 1
      omega
    · rw [ByteMap.write_outside (by omega), ByteMap.write_outside stored, byteAt, here, resolved,
        Option.bind_some, resident, start]
  · rw [if_neg page]
    by_cases file : id = mapping.branch ∧ node = mapping.key.1
    · -- The position is in another page of the file.
      have outside : ¬ (mapping.key.2 + place ≤ position ∧
          position < mapping.key.2 + place + data.length) := by
        intro stored
        exact page ⟨file.1, (pageOf_eq_key aligned).mpr ⟨file.2, by omega, by omega⟩⟩
      rw [if_pos file, ByteMap.write_outside outside]
    · rw [if_neg file]

theorem SoundFrom.copies_store (sound : SoundFrom origin held lineage) (member : mapping ∈ held)
    (writable : mapping.flags.write) (inside : place + data.length ≤ pageSize) {files : Files}
    (copy : lineage.copies mapping.branch = some files) :
    (lineage.setPage mapping.page ((lineage.contents mapping.page).write place data)).copies =
      Function.update lineage.copies mapping.branch
        (some (files.patch mapping.key.1 (mapping.key.2 + place) data)) := by
  funext other
  cases found : lineage.branches other with
  | none =>
    have away : other ≠ mapping.branch := by
      rintro rfl
      rw [Lineage.copies, found] at copy
      cases copy
    rw [Function.update_of_ne away]
    simp only [Lineage.copies, Lineage.setPage, found]
    rfl
  | some branch =>
    have seen := sound.byteAt_store member writable inside found
    have after : (lineage.setPage mapping.page
        ((lineage.contents mapping.page).write place data)).branches other = some branch := found
    rw [copies_of_found after]
    by_cases here : other = mapping.branch
    · subst here
      rw [copies_of_found found] at copy
      cases copy
      rw [Function.update_self]
      refine congrArg some (funext fun node => ?_)
      by_cases file : node = mapping.key.1
      · subst file
        simp only [Files.patch, Function.update_self, filesOf, Option.map_map]
        refine congrArg (fun change => (branch.len mapping.key.1).map change)
          (funext fun length => ?_)
        simp only [Function.comp_apply, overwrite_read]
        refine ByteMap.read_congr fun index _ => ?_
        rw [seen, if_pos ⟨rfl, rfl⟩]
      · simp only [Files.patch, Function.update_of_ne file, filesOf]
        refine congrArg (fun bytes => (branch.len node).map fun length =>
          ByteMap.read bytes 0 length) (funext fun position => ?_)
        rw [seen, if_neg fun both => file both.2]
    · rw [Function.update_of_ne here, copies_of_found found]
      refine congrArg some (filesOf_congr rfl fun node _ position _ _ => ?_)
      rw [seen, if_neg fun both => here both.1]

end Store

end Lineage

end Minidox.Cache
