import Minidox.Cache.PageCacheProperties

/-!
# Reads and mappings

What `read` returns for a range whose pages are mapped. It reads the shared backing
file when every page of the range is current, and the store otherwise, also when the
backing file holds mapped stores that the store has not seen.
-/

set_option autoImplicit false

namespace Minidox.Cache.PageCache.Session

open Foundation Attempt

variable {World Store : Type}

def rangePages (offset count : Nat) : List Nat :=
  pageOffsets (pageOf offset) (Word64.nextMultipleOf (offset + count) pageSize)

def Covered (session : Session World Store) (node offset count : Nat) : Prop :=
  ∀ page ∈ rangePages offset count, ∃ mapping ∈ session.live,
    mapping.node = node ∧ page ∈ mapping.pages

def shown (session : Session World Store) (node offset count : Nat) : List UInt8 :=
  match session.cache.files[node]? with
  | none => []
  | some info => info.backing.read offset count

instance (session : Session World Store) (node offset count : Nat) :
    Decidable (session.Covered node offset count) := by
  unfold Covered
  infer_instance

theorem last_mem_rangePages {offset count : Nat} (nonempty : 0 < count) :
    Word64.nextMultipleOf (offset + count) pageSize - pageSize ∈ rangePages offset count := by
  rw [rangePages, mem_pageOffsets]
  refine ⟨(offset + count - 1) / pageSize - offset / pageSize, ?_, ?_⟩
  · unfold Word64.nextMultipleOf pageOf pageSize
    omega
  · unfold Word64.nextMultipleOf pageSize
    omega

theorem Covered.entry {session : Session World Store} (valid : session.Valid)
    {node offset count : Nat} (nonempty : 0 < count) (covered : session.Covered node offset count) :
    (∃ info, session.cache.files[node]? = some info ∧ offset + count ≤ info.size) ∧
      Word64.nextMultipleOf (offset + count) pageSize < Word64.bound := by
  obtain ⟨mapping, held, rfl, inside⟩ := covered _ (last_mem_rangePages nonempty)
  have mapped := valid.mapped mapping held
  obtain ⟨info, found, sized⟩ := mapped.sized
  have whole : (mapping.offset + mapping.len - mapping.offset) % pageSize = 0 := by
    rw [Nat.add_sub_cancel_left]
    exact mapped.whole
  have reaches := (add_le_of_mem_pageOffsets whole inside).2
  have bounded : mapping.offset + mapping.len < Word64.bound := by
    have accepted := mapped.bounded
    unfold Word64.checkedAdd at accepted
    split at accepted
    next below => exact below
    next => cases accepted
  have rounded : offset + count ≤ Word64.nextMultipleOf (offset + count) pageSize := by
    unfold Word64.nextMultipleOf pageSize
    omega
  exact ⟨⟨info, found, by omega⟩, by omega⟩

variable [NodeStore World Store]

theorem Reachable.run {session : Session World Store} (reachable : session.Reachable)
    (actions : List Action) : (Foundation.run step session actions).Reachable := by
  obtain ⟨id, world, store, faults, first, rfl⟩ := reachable
  exact ⟨id, world, store, faults, first ++ actions, (run_append ..).symm⟩

theorem Reachable.afterStore {session : Session World Store} (reachable : session.Reachable)
    (mapping : DaxMapping) (position : Nat) (byte : UInt8) (later : List Action) :
    (session.afterStore mapping position byte later).Reachable :=
  (reachable.run [.store mapping position byte]).run later

variable {cache : PageCache World Store} {node offset count length : Nat} {info : FileMmapInfo}

theorem ends_read_quiet (quiet : Quiet cache)
    (answered : NodeStore.len World cache.store node = .ok length)
    (inside : offset + count ≤ length) (nonempty : 0 < count) {data : List UInt8}
    (stored : NodeStore.readNode World cache.store node offset count = .ok data)
    (found : cache.files[node]? = some info) (sized : offset + count ≤ info.size)
    (bounded : Word64.nextMultipleOf (offset + count) pageSize < Word64.bound) :
    Ends (PageCache.read node offset count) cache fun result _ => ∃ bytes, result = .ok bytes := by
  simp only [PageCache.read, ends_bind]
  refine ends_askStore_quiet quiet answered ?_
  have capped : min (length - offset) count = count := by omega
  dsimp only
  rw [if_neg (by simp; omega)]
  simp only [ends_bind, ends_get, found, capped]
  rw [show Word64.checkedNextMultipleOf (offset + count) pageSize = some _ from if_pos bounded]
  simp only [orInvalid, ends_pure]
  rw [ends_ite]
  constructor
  · intro _
    simp only [ends_bind]
    refine ends_probe_quiet quiet.tail ?_
    dsimp only
    rw [show info.readExactAt offset count = .ok (info.backing.read offset count) from if_pos sized]
    exact ⟨_, rfl⟩
  · intro _
    exact ends_askStore_quiet quiet.tail stored ⟨_, rfl⟩

theorem ends_read_empty (cache : PageCache World Store) (node offset : Nat) :
    Ends (PageCache.read node offset 0) cache fun result _ =>
      (∀ bytes, result = .ok bytes → bytes = []) ∧
      (Quiet cache → ∀ length, NodeStore.len World cache.store node = .ok length →
        result = .ok []) := by
  refine Ends.and ?_ fun quiet length answered => ?_
  · simp only [PageCache.read, ends_bind]
    refine ends_askStore (fun same _ => ?_) fun _ => not_ok
    simp only [decide_true, Bool.or_true, if_true, ends_pure]
    intro bytes returned
    exact (Except.ok.inj returned).symm
  · suffices Ends (PageCache.read node offset 0) cache fun result _ => result = .ok [] from this
    simp only [PageCache.read, ends_bind]
    refine ends_askStore_quiet quiet answered ?_
    simp only [decide_true, Bool.or_true, if_true, ends_pure]

variable [FileView Store]

/-- No page of the range is stale, or the store holds what the backing file holds there. -/
def ReadsCurrent (session : Session World Store) (node offset count : Nat) : Prop :=
  match session.cache.files[node]? with
  | none => True
  | some info => (∀ page ∈ rangePages offset count, ¬ info.mustLoad page) ∨
      ∀ index < count, storedByte session.cache.store node (offset + index) =
        info.backing (offset + index)

instance (session : Session World Store) (node offset count : Nat) :
    Decidable (session.ReadsCurrent node offset count) := by
  unfold ReadsCurrent
  split <;> infer_instance

variable [LawfulNodeStore World Store]

theorem readNode_eq_shown_iff {store : Store}
    {node offset count length : Nat} {data : List UInt8} {backing : ByteMap}
    (known : FileView.fileLen store node = some length) (inside : offset + count ≤ length)
    (returned : NodeStore.readNode World store node offset count = .ok data) :
    data = backing.read offset count ↔
      ∀ index < count, storedByte store node (offset + index) = backing (offset + index) := by
  obtain ⟨same, knownSame, rfl⟩ := LawfulNodeStore.readNode_ok returned
  obtain rfl : length = same := Option.some.inj (known.symm.trans knownSame)
  rw [show min count (length - offset) = count by omega]
  have stored : ∀ index < count, storedByte store node (offset + index) =
      FileView.fileByte store node (offset + index) := by
    intro index below
    simp only [storedByte, known]
    rw [if_pos (by omega)]
  constructor
  · intro equal index below
    have bytes := congrArg (fun list : List UInt8 => list.getD index 0) equal
    simp only [ByteMap.getD_read _ below] at bytes
    rw [stored index below, bytes]
  · intro equal
    refine ByteMap.read_congr fun index below => ?_
    rw [← stored index below, equal index below]

theorem ends_read (known : FileView.fileLen cache.store node = some length)
    (inside : offset + count ≤ length) (nonempty : 0 < count)
    (found : cache.files[node]? = some info) (sized : offset + count ≤ info.size) :
    Ends (PageCache.read node offset count) cache fun result _ => ∀ bytes, result = .ok bytes →
      (bytes = info.backing.read offset count ↔
        (∀ page ∈ rangePages offset count, ¬ info.mustLoad page) ∨
          ∀ index < count, storedByte cache.store node (offset + index) =
            info.backing (offset + index)) := by
  simp only [PageCache.read, ends_bind]
  refine ends_askStore ?_ fun _ => not_ok
  intro same answered
  obtain rfl : length = same :=
    Option.some.inj (known.symm.trans (LawfulNodeStore.len_ok answered))
  have capped : min (length - offset) count = count := by omega
  dsimp only
  rw [if_neg (by simp; omega)]
  simp only [ends_bind, ends_get, found, capped]
  refine ends_orInvalid ?_ not_ok
  intro stop rounded
  obtain rfl : stop = Word64.nextMultipleOf (offset + count) pageSize := by
    unfold Word64.checkedNextMultipleOf at rounded
    split at rounded
    next => exact (Option.some.inj rounded).symm
    next => cases rounded
  dsimp only
  rw [ends_ite]
  constructor
  · intro current
    have fresh : ∀ page ∈ rangePages offset count, ¬ info.mustLoad page := by
      intro page member stale
      have listed := List.all_eq_true.mp current page member
      simp [stale] at listed
    simp only [ends_bind]
    refine ends_probe ?_ fun _ => not_ok
    dsimp only
    rw [show info.readExactAt offset count = .ok (info.backing.read offset count) from if_pos sized]
    intro bytes returned
    cases returned
    exact ⟨fun _ => .inl fresh, fun _ => rfl⟩
  · intro stale
    refine ends_askStore ?_ fun _ => not_ok
    intro data returned bytes same
    cases same
    rw [readNode_eq_shown_iff known inside returned]
    refine ⟨.inr, fun either => either.resolve_left fun fresh => stale ?_⟩
    rw [List.all_eq_true]
    intro page member
    simpa using fresh page member

/-- For an in-file range whose pages are all mapped, `read` returns what the mappings show
exactly when no page of the range is stale, or the store holds the same bytes. With no
failing host or store call it does return. -/
theorem read_shows_mapped_bytes_iff {session : Session World Store}
    (reachable : session.Reachable) {node offset count length : Nat}
    (known : FileView.fileLen session.cache.store node = some length)
    (inside : offset + count ≤ length) (covered : session.Covered node offset count) :
    (∀ bytes, ((PageCache.read node offset count).exec session.cache).1 = .ok bytes →
      (bytes = session.shown node offset count ↔ session.ReadsCurrent node offset count)) ∧
    (Quiet session.cache → NodeStore.len World session.cache.store node = .ok length →
      (∃ data, NodeStore.readNode World session.cache.store node offset count = .ok data) →
      ∃ bytes, ((PageCache.read node offset count).exec session.cache).1 = .ok bytes) := by
  cases Nat.eq_zero_or_pos count with
  | inl empty =>
    subst empty
    obtain ⟨nothing, returns⟩ := ends_read_empty session.cache node offset
    refine ⟨fun bytes returned => ?_, fun quiet answered _ => ⟨[], returns quiet length answered⟩⟩
    rw [nothing bytes returned, shown, ReadsCurrent]
    cases session.cache.files[node]? with
    | none => simp
    | some info => simp [ByteMap.read]
  | inr nonempty =>
    obtain ⟨⟨info, found, sized⟩, bounded⟩ := covered.entry reachable.valid nonempty
    constructor
    · intro bytes returned
      have read := ends_read known inside nonempty found sized bytes returned
      simpa only [shown, ReadsCurrent, found] using read
    · intro quiet answered stored
      obtain ⟨data, returned⟩ := stored
      exact ends_read_quiet quiet answered inside nonempty returned found sized bounded

/-- The client stored a byte, and no page was written since. -/
theorem read_shows_mapped_bytes_iff_stored :
    ((PageCache.read 7 0 1).exec (firstPageSession.step (.store firstPage 0 5)).cache).1 =
        .ok [5] ∧
      ([5] = (firstPageSession.step (.store firstPage 0 5)).shown 7 0 1 ↔
        (firstPageSession.step (.store firstPage 0 5)).ReadsCurrent 7 0 1) := by
  have reachable : (firstPageSession.step (.store firstPage 0 5)).Reachable :=
    firstPageSession_reachable.run [.store firstPage 0 5]
  have known : FileView.fileLen (firstPageSession.step (.store firstPage 0 5)).cache.store 7 =
      some 1 := by decide +kernel
  have returned : ((PageCache.read 7 0 1).exec
      (firstPageSession.step (.store firstPage 0 5)).cache).1 = .ok [5] := by decide +kernel
  exact ⟨returned, (read_shows_mapped_bytes_iff reachable known (by decide)
    (by decide +kernel)).1 [5] returned⟩

/-- A write to the second page leaves the first one stale, so that a read of the first page
returns the old byte of the store, while the mapping shows the stored one. -/
theorem read_misses_mapped_store :
    (firstPageSession.afterStore firstPage 0 5 [.write 7 pageSize [9]]).Reachable ∧
      (firstPageSession.afterStore firstPage 0 5 [.write 7 pageSize [9]]).Covered 7 0 1 ∧
      (firstPageSession.afterStore firstPage 0 5 [.write 7 pageSize [9]]).shown 7 0 1 = [5] ∧
      ((PageCache.read 7 0 1).exec
        (firstPageSession.afterStore firstPage 0 5 [.write 7 pageSize [9]]).cache).1 =
        .ok [0] := by
  refine ⟨firstPageSession_reachable.afterStore firstPage 0 5 _, ?_, ?_, ?_⟩
  · decide +kernel
  · decide +kernel
  · decide +kernel

end Minidox.Cache.PageCache.Session
