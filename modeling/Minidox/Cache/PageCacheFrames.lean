import Mathlib.Algebra.Group.Nat.Defs
import Mathlib.Algebra.Group.Pi.Basic
import Minidox.Cache.PageCache

/-! Frame conditions of the single-branch cache operations. Every operation is
followed through the entries of `files`: an entry is never removed, and what an
operation may do to one entry is a relation on `FileMmapInfo`. -/

set_option autoImplicit false

namespace Minidox.Cache.PageCache

open Foundation Attempt

variable {World Store : Type} {α : Type}
variable {cache : PageCache World Store}

def Follows (relation : NodeId → FileMmapInfo → FileMmapInfo → Prop)
    (before after : PageCache World Store) : Prop :=
  before.id = after.id ∧ ∀ node info, before.files[node]? = some info →
    ∃ next, after.files[node]? = some next ∧ relation node info next

section Follows

variable {relation : NodeId → FileMmapInfo → FileMmapInfo → Prop}
  [∀ node, Std.Refl (relation node)]

instance : Std.Refl (@Follows World Store relation) :=
  ⟨fun _ => ⟨rfl, fun _ info found => ⟨info, found, Std.Refl.refl info⟩⟩⟩

omit [∀ node, Std.Refl (relation node)] in
instance [∀ node, IsTrans FileMmapInfo (relation node)] :
    IsTrans (PageCache World Store) (Follows relation) := by
  refine ⟨fun first second third before after => ⟨before.1.trans after.1, ?_⟩⟩
  intro node info found
  obtain ⟨middle, foundMiddle, toMiddle⟩ := before.2 node info found
  obtain ⟨last, foundLast, toLast⟩ := after.2 node middle foundMiddle
  exact ⟨last, foundLast, IsTrans.trans _ _ _ toMiddle toLast⟩

omit [∀ node, Std.Refl (relation node)] in
theorem Follows.modify (cache : PageCache World Store) (node : NodeId)
    {change : FileMmapInfo → FileMmapInfo}
    (changed : ∀ info, cache.files[node]? = some info → relation node info (change info))
    (others : ∀ other info, other ≠ node → relation other info info) :
    Follows relation cache { cache with files := cache.files.modify node change } := by
  refine ⟨rfl, ?_⟩
  intro other info found
  simp only [Std.ExtTreeMap.getElem?_modify]
  by_cases same : node = other
  · subst same
    exact ⟨change info, by simp [found], changed info found⟩
  · exact ⟨info, by simpa [same] using found, others other info (Ne.symm same)⟩

theorem Follows.keep {before after : PageCache World Store} (sameId : before.id = after.id)
    (files : after.files = before.files) : Follows relation before after := by
  refine ⟨sameId, ?_⟩
  intro node info found
  exact ⟨info, by rw [files, found], Std.Refl.refl info⟩

end Follows

@[simp] theorem ends_nextFault
    {post : Except CacheError (Option Fault) → PageCache World Store → Prop} :
    Ends nextFault cache post ↔
      post (.ok cache.faults.head?.join) { cache with faults := cache.faults.tail } := Iff.rfl

theorem ends_probe {post : Except CacheError Unit → PageCache World Store → Prop}
    (passed : post (.ok ()) { cache with faults := cache.faults.tail })
    (failed : ∀ fault, post (.error (.io fault)) { cache with faults := cache.faults.tail }) :
    Ends probe cache post := by
  simp only [probe, ends_bind, ends_nextFault]
  cases cache.faults.head?.join with
  | none => exact passed
  | some fault => exact failed fault.error

theorem ends_fileInfo {node : NodeId}
    {post : Except CacheError FileMmapInfo → PageCache World Store → Prop}
    (present : ∀ info, cache.files[node]? = some info → post (.ok info) cache)
    (absent : cache.files[node]? = none → post (.error (.nodeNotOpen node)) cache) :
    Ends (fileInfo node) cache post := by
  simp only [fileInfo, ends_bind, ends_get]
  cases found : cache.files[node]? with
  | none => exact absent found
  | some info => exact present info found

theorem ends_fileInfo_of {node : NodeId} {info : FileMmapInfo}
    (found : cache.files[node]? = some info)
    {post : Except CacheError FileMmapInfo → PageCache World Store → Prop}
    (present : post (.ok info) cache) : Ends (fileInfo node) cache post := by
  simp only [fileInfo, ends_bind, ends_get, found]
  exact present

@[simp] theorem ends_modifyInfo {node : NodeId} {change : FileMmapInfo → FileMmapInfo}
    {post : Except CacheError Unit → PageCache World Store → Prop} :
    Ends (modifyInfo node change) cache post ↔
      post (.ok ()) { cache with files := cache.files.modify node change } := Iff.rfl

theorem ends_askStore {question : Store → Except IoError α}
    {post : Except CacheError α → PageCache World Store → Prop}
    (returned : ∀ value, question cache.store = .ok value →
      post (.ok value) { cache with faults := cache.faults.tail })
    (failed : ∀ error, post (.error (.io error)) { cache with faults := cache.faults.tail }) :
    Ends (askStore question) cache post := by
  simp only [askStore, ends_bind]
  refine ends_probe ?_ failed
  simp only [ends_get]
  exact ends_orIo returned failed

theorem ends_callStore {operation : Attempt (World × Store) IoError α}
    {post : Except CacheError α → PageCache World Store → Prop}
    (called : Ends operation (cache.world, cache.store) fun result after =>
      post (result.mapError CacheError.io)
        { cache with world := after.1, store := after.2, faults := cache.faults.tail })
    (failed : ∀ error, post (.error (.io error)) { cache with faults := cache.faults.tail }) :
    Ends (callStore operation) cache post := by
  simp only [callStore, ends_bind]
  refine ends_probe ?_ failed
  simp only [ends_within]
  exact called

section Walks

/-- A preorder that holds when nothing but a fault is spent. -/
class SpendsFaults (relation : PageCache World Store → PageCache World Store → Prop) : Prop
    extends Std.Refl relation, IsTrans _ relation where
  tail : ∀ cache, relation cache { cache with faults := cache.faults.tail }

variable {relation : PageCache World Store → PageCache World Store → Prop}
  [SpendsFaults relation]

theorem moves_fileInfo (node : NodeId) :
    Moves relation (fileInfo node : PageCacheM World Store FileMmapInfo) :=
  fun cache => ends_fileInfo (fun _ _ => Std.Refl.refl cache) fun _ => Std.Refl.refl cache

theorem moves_nextFault : Moves relation (nextFault : PageCacheM World Store (Option Fault)) :=
  fun cache => ends_nextFault.mpr (SpendsFaults.tail cache)

theorem moves_probe : Moves relation (probe : PageCacheM World Store Unit) :=
  fun cache => ends_probe (SpendsFaults.tail cache) fun _ => SpendsFaults.tail cache

theorem moves_askStore (question : Store → Except IoError α) :
    Moves relation (askStore question : PageCacheM World Store α) :=
  fun cache => ends_askStore (fun _ _ => SpendsFaults.tail cache) fun _ => SpendsFaults.tail cache

theorem moves_writeAllAt_of {node offset count : Nat} {source : ByteMap}
    (blits : ∀ length ≤ count, Moves relation (modifyInfo node fun info =>
      { info with backing := info.backing.blit offset length source } :
        PageCacheM World Store Unit)) :
    Moves relation (writeAllAt node offset count source : PageCacheM World Store Unit) := by
  refine moves_bind moves_nextFault fun fault => ?_
  cases fault with
  | none => exact blits count (le_refl _)
  | some fault => exact moves_bind (blits _ (min_le_right _ _)) fun _ => moves_throw _

theorem moves_ensureSize_of {node size : Nat}
    (grows : ∀ (cache : PageCache World Store) (info : FileMmapInfo),
      cache.files[node]? = some info → info.size < size → relation cache
        { cache with files := cache.files.modify node fun info => { info with size } }) :
    Moves relation (ensureSize node size : PageCacheM World Store Unit) := by
  intro cache
  simp only [ensureSize, ends_bind, ends_onlyIf]
  refine ends_fileInfo (fun info found => ?_) fun _ => Std.Refl.refl cache
  refine ⟨fun larger => ?_, fun _ => Std.Refl.refl cache⟩
  refine ends_probe ?_ fun _ => SpendsFaults.tail cache
  simp only [ends_modifyInfo]
  exact IsTrans.trans _ _ _ (SpendsFaults.tail cache) (grows _ info found larger)

variable [NodeStore World Store]

theorem moves_loadPage_of {node offset : Nat} (writes : ∀ source,
      Moves relation (writeAllAt node offset pageSize source : PageCacheM World Store Unit)) :
    Moves relation (loadPage node offset : PageCacheM World Store Unit) :=
  moves_bind (moves_askStore _) fun _ => writes _

theorem moves_read (node offset capacity : Nat) :
    Moves relation (read node offset capacity : PageCacheM World Store (List UInt8)) := by
  refine moves_bind (moves_askStore _) fun fileLen => ?_
  refine moves_ite (moves_pure _) ?_
  refine moves_bind moves_get fun cache => ?_
  cases cache.files[node]? with
  | none => exact moves_askStore _
  | some info =>
    refine moves_bind (moves_orInvalid _ _) fun stop => ?_
    refine moves_ite ?_ (moves_askStore _)
    exact moves_bind moves_probe fun _ => moves_orIo _

theorem moves_write_of {node offset : Nat} {data : List UInt8}
    (writes : Moves relation (callStore (NodeStore.writeNode node offset data) :
      PageCacheM World Store Nat))
    (counts : Moves relation (modifyInfo node fun info =>
      { info with version := Word64.wrappingAdd info.version 1 } : PageCacheM World Store Unit))
    (updates : ∀ written stop page,
      Word64.checkedAdd offset (data.take written).length = some stop →
      Moves relation (updateCachedPage node offset stop (data.take written) page :
        PageCacheM World Store Unit)) :
    Moves relation (write node offset data : PageCacheM World Store Nat) := by
  refine moves_bind writes fun written => ?_
  refine moves_bind moves_get fun cache => ?_
  cases cache.files[node]? with
  | none => exact moves_pure _
  | some info =>
    refine moves_bind counts fun _ => moves_bind ?_ fun _ => moves_pure _
    intro state
    rw [updateCachedPages, ends_bind]
    refine ends_orInvalid (fun stop accepted => ?_) (Std.Refl.refl state)
    exact moves_bind (moves_fileInfo node) (fun current => moves_forM fun page _ =>
      updates written stop page accepted) state

theorem moves_syncPage {node offset : Nat}
    (writes : ∀ page, Moves relation (callStore (NodeStore.writeNode node offset page) :
      PageCacheM World Store Nat))
    (stamps : Moves relation (modifyInfo node fun info => info.setVersion offset :
      PageCacheM World Store Unit)) :
    Moves relation (syncPage node offset : PageCacheM World Store Unit) := by
  refine moves_bind (moves_askStore _) fun _ => moves_onlyIf ?_
  refine moves_bind (moves_fileInfo node) fun info => ?_
  refine moves_bind moves_probe fun _ => ?_
  refine moves_bind (moves_orIo _) fun page => ?_
  refine moves_bind (writes page) fun written => ?_
  exact moves_bind moves_require fun _ => stamps

theorem moves_sync_of {node : NodeId} (syncs : ∀ page,
      Moves relation (syncPage node page : PageCacheM World Store Unit)) :
    Moves relation (sync node : PageCacheM World Store Unit) :=
  moves_bind (moves_fileInfo node) fun _ => moves_forM fun page _ => syncs page

end Walks

section Moves

variable {relation : NodeId → FileMmapInfo → FileMmapInfo → Prop}
  [∀ node, Std.Refl (relation node)]

instance [∀ node, IsTrans FileMmapInfo (relation node)] :
    SpendsFaults (@Follows World Store relation) where
  tail _ := .keep rfl rfl

theorem moves_callStore (operation : Attempt (World × Store) IoError α) :
    Moves (Follows relation) (callStore operation : PageCacheM World Store α) :=
  fun _ => ends_callStore (.keep rfl rfl) fun _ => .keep rfl rfl

theorem moves_modifyInfo (node : NodeId) {change : FileMmapInfo → FileMmapInfo}
    (changed : ∀ info, relation node info (change info)) :
    Moves (Follows relation) (modifyInfo node change : PageCacheM World Store Unit) :=
  fun cache => Follows.modify cache node (fun info _ => changed info)
    fun _ info _ => Std.Refl.refl info

end Moves

/-!
## Protected bytes
-/

/-- An entry keeps its size, its cached pages with their write access, and its
bytes at the protected positions. Its mapping counts grow by at least `gain` and
shrink by at most `loss`. -/
structure Keeps (guarded : NodeId → Nat → Prop) (gain loss : NodeId → Nat → Nat)
    (node : NodeId) (info next : FileMmapInfo) : Prop where
  size : info.size ≤ next.size
  pages : ∀ (page : Nat) (fmap : Fmap), info.pages[page]? = some fmap →
    ∃ later, next.pages[page]? = some later ∧ (fmap.flags.write → later.flags.write)
  counts : ∀ page, info.rcOf page + gain node page ≤ next.rcOf page + loss node page
  bytes : ∀ position, guarded node position → next.backing position = info.backing position

abbrev Steady (guarded : NodeId → Nat → Prop) : NodeId → FileMmapInfo → FileMmapInfo → Prop :=
  Keeps guarded 0 0

variable {guarded : NodeId → Nat → Prop} {gain loss : NodeId → Nat → Nat}

theorem steady_of_pages {node : NodeId} {info next : FileMmapInfo} (size : info.size ≤ next.size)
    (pages : next.pages = info.pages)
    (bytes : ∀ position, guarded node position →
      next.backing position = info.backing position) :
    Steady guarded node info next := by
  refine ⟨size, ?_, ?_, bytes⟩
  · intro page fmap found
    exact ⟨fmap, by rw [pages, found], fun writable => writable⟩
  · intro page
    simp [FileMmapInfo.rcOf, pages]

theorem Keeps.compose {node : NodeId} {first second third : FileMmapInfo}
    {nextGain nextLoss : NodeId → Nat → Nat} (before : Keeps guarded gain loss node first second)
    (after : Keeps guarded nextGain nextLoss node second third) :
    Keeps guarded (gain + nextGain) (loss + nextLoss) node first third := by
  refine ⟨le_trans before.size after.size, ?_, ?_, ?_⟩
  · intro page fmap found
    obtain ⟨middle, foundMiddle, toMiddle⟩ := before.pages page fmap found
    obtain ⟨last, foundLast, toLast⟩ := after.pages page middle foundMiddle
    exact ⟨last, foundLast, toLast ∘ toMiddle⟩
  · intro page
    have counted := before.counts page
    have countedAfter := after.counts page
    simp only [Pi.add_apply]
    omega
  · intro position inside
    rw [after.bytes position inside, before.bytes position inside]

instance (node : NodeId) : Std.Refl (Steady guarded node) :=
  ⟨fun _ => steady_of_pages (le_refl _) rfl fun _ _ => rfl⟩

instance (node : NodeId) : IsTrans FileMmapInfo (Steady guarded node) :=
  ⟨fun _ _ _ before after => by simpa using before.compose after⟩

theorem Follows.compose {first second third : PageCache World Store}
    {nextGain nextLoss : NodeId → Nat → Nat}
    (before : Follows (Keeps guarded gain loss) first second)
    (after : Follows (Keeps guarded nextGain nextLoss) second third) :
    Follows (Keeps guarded (gain + nextGain) (loss + nextLoss)) first third := by
  refine ⟨before.1.trans after.1, ?_⟩
  intro node info found
  obtain ⟨middle, foundMiddle, toMiddle⟩ := before.2 node info found
  obtain ⟨last, foundLast, toLast⟩ := after.2 node middle foundMiddle
  exact ⟨last, foundLast, toMiddle.compose toLast⟩

def single (node : NodeId) (page : Nat) : NodeId → Nat → Nat :=
  fun other position => if other = node ∧ position = page then 1 else 0

theorem keeps_addMapping (node : NodeId) (info : FileMmapInfo) (page : Nat) (flags : MapFlags) :
    Keeps guarded (single node page) 0 node info (info.addMapping page flags) := by
  refine ⟨le_refl _, ?_, ?_, fun _ _ => rfl⟩
  · intro other fmap found
    simp only [FileMmapInfo.addMapping, Std.ExtTreeMap.getElem?_alter]
    by_cases same : page = other
    · subst same
      simp only [found, Std.compare_self, ↓reduceIte]
      exact ⟨_, rfl, fun writable => by simp [MapFlags.union, writable]⟩
    · exact ⟨fmap, by simpa [same] using found, fun writable => writable⟩
  · intro other
    simp only [FileMmapInfo.rcOf, FileMmapInfo.addMapping, Std.ExtTreeMap.getElem?_alter, single]
    by_cases same : page = other
    · subst same
      cases found : info.pages[page]? <;> simp
    · simp [same, Ne.symm same]

theorem steady_addMapping (node : NodeId) (info : FileMmapInfo) (page : Nat) (flags : MapFlags) :
    Steady guarded node info (info.addMapping page flags) := by
  have kept : Keeps guarded (single node page) 0 node info (info.addMapping page flags) :=
    keeps_addMapping node info page flags
  exact ⟨kept.size, kept.pages, fun other => by
    have counted := kept.counts other
    simp only [Pi.zero_apply] at counted ⊢
    omega, kept.bytes⟩

private theorem pages_modify {info : FileMmapInfo} {page other : Nat} (change : Fmap → Fmap)
    (flags : ∀ fmap, (change fmap).flags = fmap.flags) {fmap : Fmap}
    (found : info.pages[other]? = some fmap) :
    ∃ later, (info.pages.modify page change)[other]? = some later ∧
      (fmap.flags.write → later.flags.write) := by
  simp only [Std.ExtTreeMap.getElem?_modify]
  by_cases same : page = other
  · subst same
    exact ⟨change fmap, by simp [found], by simp [flags]⟩
  · exact ⟨fmap, by simpa [same] using found, fun writable => writable⟩

theorem steady_setVersion (node : NodeId) (info : FileMmapInfo) (page : Nat) :
    Steady guarded node info (info.setVersion page) := by
  refine ⟨le_refl _, fun _ _ found => ?_, ?_, fun _ _ => rfl⟩
  · exact pages_modify (fun fmap => { fmap with version := info.version }) (fun _ => rfl) found
  intro other
  simp only [FileMmapInfo.rcOf, FileMmapInfo.setVersion, Std.ExtTreeMap.getElem?_modify]
  by_cases same : page = other
  · subst same
    cases found : info.pages[page]? <;> simp
  · simp [same]

theorem keeps_setRc (node : NodeId) {info : FileMmapInfo} {page rc : Nat}
    (counted : info.rcOf page ≤ rc + 1) :
    Keeps guarded 0 (single node page) node info (info.setRc page rc) := by
  refine ⟨le_refl _, fun _ _ found => ?_, ?_, fun _ _ => rfl⟩
  · exact pages_modify (fun fmap => { fmap with rc }) (fun _ => rfl) found
  intro other
  simp only [FileMmapInfo.rcOf, FileMmapInfo.setRc, Std.ExtTreeMap.getElem?_modify, single] at *
  by_cases same : page = other
  · subst same
    cases found : info.pages[page]? <;> simp_all
  · simp [same, Ne.symm same]

theorem steady_blit (node : NodeId) (info : FileMmapInfo) {offset count : Nat} (source : ByteMap)
    (apart : ∀ position, guarded node position →
      ¬ (offset ≤ position ∧ position < offset + count)) :
    Steady guarded node info { info with backing := info.backing.blit offset count source } :=
  steady_of_pages (le_refl _) rfl fun position inside =>
    ByteMap.blit_outside (apart position inside)

theorem moves_writeAllAt (node offset count : Nat) (source : ByteMap)
    (apart : ∀ position, guarded node position →
      ¬ (offset ≤ position ∧ position < offset + count)) :
    Moves (Follows (Steady guarded))
      (writeAllAt node offset count source : PageCacheM World Store Unit) := by
  have shorter : ∀ length ≤ count, ∀ info, Steady guarded node info
      { info with backing := info.backing.blit offset length source } := by
    intro length bounded info
    refine steady_blit node info source ?_
    rintro position inside ⟨lower, upper⟩
    exact apart position inside ⟨lower, by omega⟩
  exact moves_writeAllAt_of fun length bounded => moves_modifyInfo node (shorter length bounded)

theorem moves_ensureSize (node size : Nat) :
    Moves (Follows (Steady guarded)) (ensureSize node size : PageCacheM World Store Unit) := by
  refine moves_ensureSize_of fun cache info found larger =>
    Follows.modify _ node (fun old there => ?_) fun _ old _ => Std.Refl.refl old
  obtain rfl : info = old := Option.some.inj (found.symm.trans there)
  exact steady_of_pages (le_of_lt larger) rfl fun _ _ => rfl

theorem moves_entry (node : NodeId) :
    Moves (Follows (Steady guarded)) (entry node : PageCacheM World Store FileMmapInfo) := by
  intro cache
  simp only [entry, ends_bind, ends_get]
  cases found : cache.files[node]? with
  | some info => exact Std.Refl.refl cache
  | none =>
    simp only [ends_bind]
    refine ends_probe ?_ fun _ => Follows.keep rfl rfl
    simp only [ends_modify, ends_pure]
    refine ⟨rfl, ?_⟩
    intro other info there
    have different : node ≠ other := by
      rintro rfl
      rw [found] at there
      cases there
    exact ⟨info, by simpa [Std.ExtTreeMap.getElem?_insert, different] using there,
      Std.Refl.refl info⟩

theorem moves_updateCachedPage (node offset stop : Nat) (data : List UInt8) (page : Nat)
    (apart : ∀ position, guarded node position → ¬ (offset ≤ position ∧ position < stop)) :
    Moves (Follows (Steady guarded))
      (updateCachedPage node offset stop data page : PageCacheM World Store Unit) := by
  refine moves_onlyIf ?_
  refine moves_bind (moves_writeAllAt node _ _ _ ?_) fun _ => ?_
  · rintro position inside ⟨lower, upper⟩
    exact apart position inside ⟨by omega, by omega⟩
  · exact moves_modifyInfo node fun info => steady_setVersion node info page

section Store

variable [NodeStore World Store]

theorem moves_openNode (node : NodeId) :
    Moves (Follows (Steady guarded)) (openNode node : PageCacheM World Store Unit) := by
  refine moves_bind (moves_entry node) fun info => ?_
  refine moves_bind (moves_onlyIf (moves_callStore _)) fun _ => ?_
  refine moves_bind (moves_orInvalid _ _) fun openFds => ?_
  exact moves_modifyInfo node fun _ => steady_of_pages (le_refl _) rfl fun _ _ => rfl

theorem moves_close (node : NodeId) :
    Moves (Follows (Steady guarded)) (close node : PageCacheM World Store Unit) := by
  refine moves_bind (moves_fileInfo node) fun info => ?_
  refine moves_bind (moves_orInvalid _ _) fun openFds => ?_
  refine moves_bind (moves_modifyInfo node fun _ =>
    steady_of_pages (le_refl _) rfl fun _ _ => rfl) fun _ => ?_
  exact moves_onlyIf (moves_callStore _)

theorem moves_loadPage (node offset : Nat) (apart : ∀ position, guarded node position →
      ¬ (offset ≤ position ∧ position < offset + pageSize)) :
    Moves (Follows (Steady guarded)) (loadPage node offset : PageCacheM World Store Unit) :=
  moves_loadPage_of fun source => moves_writeAllAt node offset pageSize source apart

theorem moves_mapOne (node : NodeId) (flags : MapFlags) (page : Nat)
    (apart : ∀ position, guarded node position →
      ¬ (page ≤ position ∧ position < page + pageSize)) :
    Moves (Follows (Steady guarded)) (mapOne node flags page : PageCacheM World Store Unit) := by
  refine moves_bind (moves_fileInfo node) fun info => ?_
  refine moves_bind (moves_onlyIf (moves_loadPage node page apart)) fun _ => ?_
  exact moves_modifyInfo node fun info => steady_addMapping node info page flags

theorem moves_map (node offset len : Nat) (flags : MapFlags)
    (apart : ∀ position, guarded node position →
      ¬ (offset ≤ position ∧ position < offset + Word64.nextMultipleOf len pageSize)) :
    Moves (Follows (Steady guarded))
      (map node offset len flags : PageCacheM World Store DaxMapping) := by
  refine moves_bind moves_require fun _ => ?_
  refine moves_bind moves_require fun _ => ?_
  refine moves_bind moves_require fun _ => ?_
  intro cache
  rw [ends_bind]
  refine ends_orInvalid ?_ (Follows.keep rfl rfl)
  intro alignedLen rounded
  dsimp only
  rw [ends_bind]
  refine ends_orInvalid ?_ (Follows.keep rfl rfl)
  intro stop added
  obtain rfl := Word64.checkedAdd_eq_some added
  obtain ⟨rfl, whole⟩ := Word64.checkedNextMultipleOf_eq_some rounded
  refine moves_bind (moves_ensureSize node _) (fun _ => ?_) cache
  refine moves_bind (moves_forM fun page member => ?_) fun _ =>
    moves_bind moves_get fun _ => moves_pure _
  refine moves_mapOne node flags page ?_
  rintro position inside ⟨lower, upper⟩
  have inRange := add_le_of_mem_pageOffsets (by rwa [Nat.add_sub_cancel_left]) member
  exact apart position inside ⟨by omega, by omega⟩

theorem moves_write (node offset : Nat) (data : List UInt8)
    (apart : ∀ position, guarded node position →
      ¬ (offset ≤ position ∧ position < offset + data.length)) :
    Moves (Follows (Steady guarded)) (write node offset data : PageCacheM World Store Nat) := by
  refine moves_write_of (moves_callStore _)
    (moves_modifyInfo node fun _ => steady_of_pages (le_refl _) rfl fun _ _ => rfl) ?_
  intro written stop page accepted
  have stopAt := Word64.checkedAdd_eq_some accepted
  have short : (data.take written).length ≤ data.length := List.length_take_le' _ _
  refine moves_updateCachedPage node offset stop _ page ?_
  rintro position inside ⟨lower, upper⟩
  exact apart position inside ⟨lower, by omega⟩

theorem moves_sync (node : NodeId) :
    Moves (Follows (Steady guarded)) (sync node : PageCacheM World Store Unit) :=
  moves_sync_of fun page => moves_syncPage (fun _ => moves_callStore _)
    (moves_modifyInfo node fun info => steady_setVersion node info page)

end Store

end Minidox.Cache.PageCache
