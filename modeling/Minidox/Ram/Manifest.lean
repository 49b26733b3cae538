import Minidox.Foundation.Validation
import Minidox.Foundation.Word64
import Minidox.Ram.Generations

/-!
# Manifests of RAM

What a checkpoint says of the RAM of a guest, and how the branches of a lineage are mapped from
their durable generations again.
-/

set_option autoImplicit false

namespace Minidox.Ram

open Foundation Attempt
open Std (ExtTreeMap ExtTreeSet)

structure RamPageState where
  id : Nat
  generation : Nat
  offset : Nat
  deriving DecidableEq, Repr

def RamPage.state (page : RamPage) : RamPageState := ⟨page.id, page.generation.id, page.offset⟩

structure RamState where
  len : Nat
  pages : List RamPageState
  deriving DecidableEq, Repr

namespace KvmGuestRam

/-- The loop of `durable_state` over the pages. -/
def persistPages : List RamPage → ExtTreeSet Nat → HostM Unit
  | [], _ => pure ()
  | page :: rest, persisted =>
    if page.generation.id ∈ persisted then persistPages rest persisted
    else do
      persistGeneration page.generation
      persistPages rest (persisted.insert page.generation.id)

/-- `self.pages`. -/
def pageList (ram : KvmGuestRam) : List RamPage := (List.range ram.pageCount).map ram.pages

def manifest (ram : KvmGuestRam) : RamState where
  len := ram.len
  pages := ram.pageList.map RamPage.state

/-- To open the directory and to sync it fail alike. -/
def durableState (ram : KvmGuestRam) : HostM RamState := do
  call "create RAM generation directory"
  persistPages ram.pageList ∅
  call "sync RAM generation directory"
  pure ram.manifest

/-- `reserve` refuses an empty range. -/
def fromPages (len : Nat) (pages : List RamPage) : HostM KvmGuestRam := do
  call "reserve KVM RAM"
  require (len ≠ 0) (.backend "reserve KVM RAM" (.os einval))
  let table := fun index => pages.getD index default
  let (_, memory) ← withLocal ⟨fun _ => none, fun _ => none⟩ (mapAllPages pages.length table)
  pure { memory, len, pages := table, hostDirty := ∅, isPrivate := true, sealed := true }

def enoent : Nat := 2

def openGenerations :
    List Nat → ExtTreeMap Nat RamGeneration → HostM (ExtTreeMap Nat RamGeneration)
  | [], generations => pure generations
  | id :: rest, generations => do
    call "open durable RAM generation"
    let host ← get
    let file ← orThrow (.backend "open durable RAM generation" (.os enoent)) host.generations[id]?
    openGenerations rest (generations.insert id { id, file })

def invalidBranch (message : String) : RamError :=
  .backend "restore durable RAM branch" (.invalidData message)

/-- The checks of one page of a manifest. Pages with one id are one page. -/
def restorePage (generations : ExtTreeMap Nat RamGeneration) (pages : ExtTreeMap Nat RamPage)
    (page : RamPageState) : HostM (RamPage × ExtTreeMap Nat RamPage) := do
  let generation ← orThrow (invalidBranch s!"missing RAM generation {page.generation}")
    generations[page.generation]?
  call "inspect durable RAM generation"
  let host ← get
  require (page.offset % ramPageSize = 0 ∧
      Word64.saturatingAdd page.offset ramPageSize ≤ (host.files generation.file).len)
    (invalidBranch
      s!"RAM page {page.id} references an invalid range in generation {page.generation}")
  match pages[page.id]? with
  | some existing => do
    require (existing.generation.id = page.generation ∧ existing.offset = page.offset)
      (invalidBranch s!"RAM page {page.id} has conflicting references")
    pure (existing, pages)
  | none =>
    let restored : RamPage := { id := page.id, generation, offset := page.offset }
    pure (restored, pages.insert page.id restored)

def restorePages (generations : ExtTreeMap Nat RamGeneration) :
    List RamPageState → ExtTreeMap Nat RamPage → HostM (List RamPage × ExtTreeMap Nat RamPage)
  | [], pages => pure ([], pages)
  | page :: rest, pages => do
    let (restored, pages) ← restorePage generations pages page
    let (behind, pages) ← restorePages generations rest pages
    pure (restored :: behind, pages)

def restoreBranches (generations : ExtTreeMap Nat RamGeneration) :
    List RamState → ExtTreeMap Nat RamPage → HostM (List KvmGuestRam)
  | [], _ => pure []
  | state :: rest, pages => do
    require (state.pages.length * ramPageSize = state.len)
      (invalidBranch "RAM page manifest length does not match branch size")
    let (branchPages, pages) ← restorePages generations state.pages pages
    let ram ← fromPages state.len branchPages
    let behind ← restoreBranches generations rest pages
    pure (ram :: behind)

/-- The greatest ids are those of all pages: they are looked at only at the end. -/
def restore (states : List RamState) : HostM (List KvmGuestRam) := do
  let pages := states.flatMap RamState.pages
  let generations ← openGenerations (ExtTreeSet.ofList (pages.map (·.generation))).toList ∅
  let restored ← restoreBranches generations states ∅
  modify fun host => { host with
    nextPageId := max host.nextPageId
      (Word64.saturatingAdd ((pages.map (·.id)).foldr max 0) 1)
    nextGenerationId := max host.nextGenerationId
      (Word64.saturatingAdd ((pages.map (·.generation)).foldr max 0) 1) }
  pure restored

end KvmGuestRam

/-!
## Manifests that are accepted
-/

open KvmGuestRam

section Accepted

variable {disk : RamHost} {seen : List RamPageState}

/-- A page is in the durable file of its generation. -/
def RamPageState.Valid (disk : RamHost) (page : RamPageState) : Prop :=
  ∃ file, disk.generations[page.generation]? = some file ∧ page.offset % ramPageSize = 0 ∧
    Word64.saturatingAdd page.offset ramPageSize ≤ (disk.files file).len

def RamPageState.page (disk : RamHost) (state : RamPageState) : RamPage where
  id := state.id
  generation := { id := state.generation, file := (disk.generations[state.generation]?).getD 0 }
  offset := state.offset

/-- Entries with one id are the same. -/
def Agree (pages : List RamPageState) : Prop :=
  ∀ left ∈ pages, ∀ right ∈ pages, left.id = right.id → left = right

def RamState.Sound (disk : RamHost) (state : RamState) : Prop :=
  state.len ≠ 0 ∧ state.pages.length * ramPageSize = state.len ∧
    ∀ page ∈ state.pages, page.Valid disk

def Acceptable (disk : RamHost) (states : List RamState) : Prop :=
  (∀ state ∈ states, state.Sound disk) ∧ Agree (states.flatMap RamState.pages)

/-- The RAM has the pages that the manifest lists, each mapped from its place in the durable
file and not written yet. -/
structure Restored (disk : RamHost) (state : RamState) (ram : KvmGuestRam) : Prop where
  len : ram.len = state.len
  clean : ram.hostDirty = ∅ ∧ ram.isPrivate = true ∧ ram.sealed = true
  pages : ∀ index page, state.pages[index]? = some page → ram.pages index = page.page disk ∧
    ram.memory.own index = none ∧ ram.memory.place index = some (page.page disk).place

def Reads (disk host : RamHost) : Prop := Answered disk host ∧ host.replies ⊆ disk.replies

def HostFailed (disk : RamHost) (error : RamError) : Prop :=
  ∃ operation errno, .failed errno ∈ disk.replies ∧ error = .backend operation (.os errno)

/-- An operation that only reads the disk decides a condition on it. -/
def Checks {α : Type} (disk : RamHost) (condition : Prop) (claim : α → Prop) (operation : HostM α) :
    Prop :=
  Decides (Reads disk) (HostFailed disk) condition claim operation

def TableOf (disk : RamHost) (seen : List RamPageState) (table : ExtTreeMap Nat RamPage) : Prop :=
  ∀ id, table[id]? = (seen.find? (·.id = id)).map (RamPageState.page disk)

theorem decides_call (operation : String) : Checks disk True (fun _ => True) (call operation) := by
  intro host reads
  refine (ends_call operation host).mono ?_
  intro result after ended
  obtain ⟨answered, fewer, failed⟩ := ended
  refine ⟨⟨IsTrans.trans _ _ _ reads.1 answered, List.Subset.trans fewer reads.2⟩,
    fun _ _ => ⟨trivial, trivial⟩, fun error same => ?_⟩
  obtain ⟨errno, member, named⟩ := failed error same
  exact .inr ⟨operation, errno, reads.2 member, named⟩

theorem agree_append_singleton {page : RamPageState} (agree : Agree seen) :
    Agree (seen ++ [page]) ↔ ∀ earlier ∈ seen, earlier.id = page.id → earlier = page := by
  simp only [Agree, List.mem_append, List.mem_singleton] at agree ⊢
  grind

theorem decides_ask {α : Type} {operation : String} {next : RamHost → HostM α} {condition : Prop}
    {claim : α → Prop}
    (tail : ∀ host, host.files = disk.files → host.generations = disk.generations →
      Checks disk condition claim (next host)) :
    Checks disk condition claim (do
      call operation
      let host ← get
      next host) := by
  refine (decides_bind (decides_call operation) fun _ _ _ => decides_bind decides_get
    fun host _ reads => tail host ?_ ?_).iff (by simp)
  all_goals rw [reads.1]

def Opened (disk : RamHost) (opened : ExtTreeMap Nat RamGeneration) (id : Nat) : Prop :=
  opened[id]? = (disk.generations[id]?).map (RamGeneration.mk id)

theorem decides_openGenerations (ids : List Nat) (generations : ExtTreeMap Nat RamGeneration) :
    Checks disk (∀ id ∈ ids, id ∈ disk.generations)
      (fun opened => ∀ id, id ∈ ids ∨ Opened disk generations id → Opened disk opened id)
      (openGenerations ids generations) := by
  induction ids generalizing generations with
  | nil => exact (decides_pure (by simp)).iff (by simp)
  | cons id rest ih =>
    rw [List.forall_mem_cons]
    refine decides_ask fun host _ same => ?_
    rw [same]
    cases found : disk.generations[id]? with
    | none =>
      intro host reads
      exact ⟨reads, not_ok, fun _ _ => .inl fun all => TreeMap.not_mem_of_getElem? found all.1⟩
    | some file =>
      refine ((ih (generations.insert id ⟨id, file⟩)).mono fun opened known other member =>
        known other ?_).iff (and_iff_right (TreeMap.mem_of_getElem? found)).symm
      rw [List.mem_cons, or_assoc] at member
      rw [Opened, TreeMap.getElem?_insert_ite]
      rcases member with rfl | member | before
      · exact .inr (by rw [if_pos rfl, found, Option.map_some])
      · exact .inl member
      · refine .inr ?_
        split
        next here => rw [here, found, Option.map_some]
        next => exact before

theorem decides_restorePage {opened : ExtTreeMap Nat RamGeneration} {table : ExtTreeMap Nat RamPage}
    {page : RamPageState} (known : Opened disk opened page.generation) (agree : Agree seen)
    (tableOf : TableOf disk seen table) :
    Checks disk (page.Valid disk ∧ Agree (seen ++ [page]))
      (fun found => found.1 = page.page disk ∧ TableOf disk (seen ++ [page]) found.2)
      (restorePage opened table page) := by
  rw [restorePage, known, RamPageState.Valid, agree_append_singleton agree]
  cases found : disk.generations[page.generation]? with
  | none =>
    intro host reads
    exact ⟨reads, not_ok, fun _ _ => .inl (by simp)⟩
  | some file =>
    have own : page.page disk = ⟨page.id, ⟨page.generation, file⟩, page.offset⟩ := by
      rw [RamPageState.page, found, Option.getD_some]
    simp only [Option.map_some, orThrow, pure_bind, Option.some.injEq, exists_eq_left']
    refine decides_ask fun host same _ => ?_
    rw [same]
    refine decides_bind decides_require fun _ _ _ => ?_
    -- an entry with the id decides: earlier entries agree, so it stands for all of them
    cases entry : seen.find? (·.id = page.id) with
    | some state =>
      have member := List.mem_of_find?_eq_some entry
      have id : state.id = page.id := by simpa using List.find?_some entry
      have equal : (state.generation = page.generation ∧ state.offset = page.offset) ↔
          ∀ earlier ∈ seen, earlier.id = page.id → earlier = page := by
        constructor
        · intro same earlier inSeen ids
          rw [agree earlier inSeen state member (ids.trans id.symm)]
          cases state
          cases page
          simp_all
        · intro all
          rw [all state member id]
          exact ⟨rfl, rfl⟩
      have later : TableOf disk (seen ++ [page]) table := by
        intro other
        rw [tableOf, List.find?_append]
        by_cases here : page.id = other
        · rw [← here, entry, Option.some_or]
        · simp [here]
      rw [tableOf, entry, Option.map_some]
      refine (decides_bind decides_require fun _ same _ => decides_pure ⟨?_, later⟩).iff
        (by rw [and_true]; exact equal)
      rw [equal.mp same state member id]
    | none =>
      have later : TableOf disk (seen ++ [page]) (table.insert page.id (page.page disk)) := by
        intro other
        rw [TreeMap.getElem?_insert_ite, List.find?_append]
        split
        next here => simp [here, entry]
        next apart => simp [tableOf other, Ne.symm apart]
      rw [tableOf, entry, Option.map_none, ← own]
      refine (decides_pure ⟨rfl, later⟩).iff ?_
      simp only [List.find?_eq_none, decide_eq_true_eq] at entry
      exact ⟨fun _ earlier member ids => absurd ids (entry earlier member), fun _ => trivial⟩

theorem decides_restorePages {opened : ExtTreeMap Nat RamGeneration} {pages : List RamPageState}
    (known : ∀ page ∈ pages, Opened disk opened page.generation) {table : ExtTreeMap Nat RamPage}
    (agree : Agree seen) (tableOf : TableOf disk seen table) :
    Checks disk ((∀ page ∈ pages, page.Valid disk) ∧ Agree (seen ++ pages))
      (fun found => found.1 = pages.map (RamPageState.page disk) ∧
        TableOf disk (seen ++ pages) found.2)
      (restorePages opened pages table) := by
  -- the table grows with what was seen, which agrees as long as the checks go on
  induction pages generalizing seen table with
  | nil =>
    rw [List.append_nil]
    exact (decides_pure ⟨rfl, tableOf⟩).iff (by simp [agree])
  | cons page rest ih =>
    rw [List.forall_mem_cons] at known
    rw [restorePages, List.append_cons]
    refine (decides_bind (decides_restorePage known.1 agree tableOf) fun found both made =>
      decides_bind (ih known.2 both.2 made.2) fun behind _ others => decides_pure ?_).iff ?_
    · exact ⟨by rw [made.1, others.1, List.map_cons], others.2⟩
    · rw [List.forall_mem_cons]
      refine ⟨fun all => ⟨⟨all.1.1, all.2.1.1⟩, all.2.1.2⟩,
        fun all => ⟨⟨all.1.1, fun left inLeft right inRight => ?_⟩, ⟨all.1.2, all.2⟩, trivial⟩⟩
      exact all.2 left (List.mem_append_left _ inLeft) right (List.mem_append_left _ inRight)

theorem ends_mapAllPages (count : Nat) (table : Nat → RamPage) (host : RamHost)
    (memory : PrivateMapping Inode) :
    Ends (mapAllPages count table) (host, memory) fun result after => Answered host after.1 ∧
      Maps count table (List.range count) host memory result after := by
  have inRuns : MapsInRuns count table (List.range count) (mapAllPages count table) := by
    rw [mapAllPages, mapAllFrom_eq, Nat.sub_zero, ← List.range_eq_range']
    exact mapsInRuns_selected List.nodup_range (Nat.le_of_eq List.length_range)
      fun index => List.mem_range.mp
  refine Ends.and ?_ (inRuns.mapped host memory)
  obtain ⟨runs, same, -⟩ := inRuns.issued
  rw [same]
  refine ends_forM (fun state : RamHost × _ => Answered host state.1) (Std.Refl.refl host) ?_
  intro run _ before answered
  simp only [PageRun.map, mapRun, MapM.onHost, ends_bind, ends_within]
  refine (moves_call _ before.1).mono fun result after further => ?_
  have answered := IsTrans.trans _ _ _ answered further
  cases result with
  | ok value => exact answered
  | error error => exact answered

theorem decides_fromPages (len : Nat) (pages : List RamPageState) :
    Checks disk (len ≠ 0) (Restored disk ⟨len, pages⟩)
      (fromPages len (pages.map (RamPageState.page disk))) := by
  refine (decides_bind (decides_call _) fun _ _ _ => decides_bind decides_require fun _ _ _ =>
    (?_ : Checks disk True _ _)).iff (by simp)
  intro host reads
  generalize filled : (fun index => (pages.map (RamPageState.page disk)).getD index default) = table
  have entry : ∀ index page, pages[index]? = some page → table index = page.page disk := by
    intro index page found
    simp [← filled, found]
  have telling : Telling pages.length table := by
    intro left inLeft right inRight ids
    rw [entry left _ (List.getElem?_eq_getElem inLeft),
      entry right _ (List.getElem?_eq_getElem inRight)] at ids ⊢
    have same : pages[left].generation = pages[right].generation := ids
    simp only [RamPageState.page, same]
  rw [List.length_map, ends_bind, ends_withLocal]
  refine (ends_mapAllPages _ table host _).mono ?_
  intro result after ended
  obtain ⟨answered, fewer, -, backed, failed⟩ := ended
  have readsAfter : Reads disk after.1 :=
    ⟨IsTrans.trans _ _ _ reads.1 answered, List.Subset.trans fewer reads.2⟩
  cases result with
  | error error =>
    refine ⟨readsAfter, not_ok, fun _ same => .inr ?_⟩
    cases same
    obtain ⟨errno, member, named⟩ := failed error rfl
    exact ⟨_, errno, reads.2 member, named⟩
  | ok value =>
    refine ⟨readsAfter, fun ram same => ⟨trivial, ?_⟩, not_error⟩
    cases same
    refine ⟨rfl, ⟨rfl, rfl, rfl⟩, fun index page found => ⟨entry index page found, ?_⟩⟩
    obtain ⟨inside, -⟩ := List.getElem?_eq_some_iff.mp found
    obtain ⟨own, generation, -, same, place⟩ := backed rfl index (List.mem_range.mpr inside)
    refine ⟨own, ?_⟩
    rw [place, same telling, ← entry index page found]
    rfl

theorem decides_restoreBranches {opened : ExtTreeMap Nat RamGeneration} {states : List RamState}
    (known : ∀ state ∈ states, ∀ page ∈ state.pages, Opened disk opened page.generation)
    {table : ExtTreeMap Nat RamPage} (agree : Agree seen) (tableOf : TableOf disk seen table) :
    Checks disk ((∀ state ∈ states, state.Sound disk) ∧
      Agree (seen ++ states.flatMap RamState.pages)) (List.Forall₂ (Restored disk) states)
        (restoreBranches opened states table) := by
  induction states generalizing seen table with
  | nil =>
    rw [List.flatMap_nil, List.append_nil]
    exact (decides_pure .nil).iff (by simp [agree])
  | cons state rest ih =>
    rw [List.forall_mem_cons] at known
    rw [restoreBranches, List.flatMap_cons, ← List.append_assoc]
    refine (decides_bind decides_require fun _ _ _ =>
      decides_bind (decides_restorePages known.1 agree tableOf) fun found both made =>
      decides_bind (made.1 ▸ decides_fromPages state.len state.pages) fun ram _ restored =>
      decides_bind (ih known.2 both.2 made.2) fun behind _ others =>
      decides_pure (.cons restored others)).iff ?_
    rw [List.forall_mem_cons]
    refine ⟨fun all => ⟨⟨⟨all.2.2.1, all.1, all.2.1.1⟩, all.2.2.2.1.1⟩, all.2.2.2.1.2⟩, fun all =>
      ⟨all.1.1.2.1, ⟨all.1.1.2.2, fun left inLeft right inRight => ?_⟩, all.1.1.1, ⟨all.1.2, all.2⟩,
        trivial⟩⟩
    exact all.2 left (List.mem_append_left _ inLeft) right (List.mem_append_left _ inRight)

theorem decides_restored (states : List RamState) :
    Checks disk (Acceptable disk states) (List.Forall₂ (Restored disk) states) (do
        let generations ← openGenerations
          (ExtTreeSet.ofList ((states.flatMap RamState.pages).map (·.generation))).toList ∅
        restoreBranches generations states ∅) := by
  have listed (id : Nat) : id ∈ (ExtTreeSet.ofList ((states.flatMap RamState.pages).map
      (·.generation))).toList ↔ ∃ page ∈ states.flatMap RamState.pages, page.generation = id := by
    rw [ExtTreeSet.mem_toList, ExtTreeSet.mem_ofList, List.contains_iff_mem, List.mem_map]
  refine (decides_bind (decides_openGenerations _ ∅) fun opened _ known =>
    @decides_restoreBranches disk [] opened states (fun state inStates page member => known _
      (.inl ((listed _).mpr ⟨page, List.mem_flatMap.mpr ⟨state, inStates, member⟩, rfl⟩))) ∅
      (by rintro _ ⟨⟩) fun _ => ExtTreeMap.getElem?_empty).iff ?_
  refine and_iff_right_of_imp fun acceptable id member => ?_
  obtain ⟨page, inPages, rfl⟩ := (listed id).mp member
  obtain ⟨state, inStates, inState⟩ := List.mem_flatMap.mp inPages
  obtain ⟨file, found, -⟩ := (acceptable.1 state inStates).2.2 page inState
  exact TreeMap.mem_of_getElem? found

theorem lt_reserved {ids : List Nat} {id next : Nat} (member : id ∈ ids)
    (fits : id + 1 < Word64.bound) :
    id < max next (Word64.saturatingAdd (ids.foldr max 0) 1) := by
  have largest := le_foldr_max member
  rw [Word64.saturatingAdd]
  omega

/-- Whatever a manifest says, and whichever host calls fail: branches are restored only from a
manifest in which every page is inside a durable generation and pages with one id agree, and then
every RAM has the pages that the manifest lists for it. A manifest of that form is refused only
if the host fails. No file changes, and no id of the manifest is given out again. -/
theorem restore_accepts_exactly_sound_manifests (states : List RamState) (disk : RamHost) :
    Ends (restore states) disk fun result after =>
      after.files = disk.files ∧
      (∀ rams, result = .ok rams → Acceptable disk states ∧
        List.Forall₂ (Restored disk) states rams ∧
        ∀ page ∈ states.flatMap RamState.pages,
          (page.id + 1 < Word64.bound → page.id < after.nextPageId) ∧
          (page.generation + 1 < Word64.bound → page.generation < after.nextGenerationId)) ∧
      ∀ error, result = .error error → ¬ Acceptable disk states ∨ HostFailed disk error := by
  rw [restore, ← bind_assoc, ends_bind]
  refine (decides_restored states disk ⟨Std.Refl.refl disk, List.Subset.refl _⟩).mono ?_
  intro result after ended
  obtain ⟨reads, returned, failed⟩ := ended
  have files := files_of_answered reads.1
  cases result with
  | error error => exact ⟨files, not_ok, fun _ same => by cases same; exact failed error rfl⟩
  | ok rams =>
    simp only [ends_bind, ends_modify]
    refine ⟨files, fun _ same => ?_, not_error⟩
    cases same
    obtain ⟨acceptable, restored⟩ := returned rams rfl
    exact ⟨acceptable, restored, fun page member => ⟨lt_reserved (List.mem_map_of_mem member),
      lt_reserved (List.mem_map_of_mem member)⟩⟩

end Accepted

/-!
## Round trips
-/

/-- A sealed RAM between two writes of its guest: every page shows its place in its generation. -/
structure AtRest (host : RamHost) (ram : KvmGuestRam) : Prop where
  sized : ram.len ≠ 0 ∧ ram.pageCount * ramPageSize = ram.len
  mapped : ∀ index < ram.pageCount, ram.memory.own index = none ∧
    ram.memory.place index = some (ram.pages index).place
  inside : ∀ page ∈ ram.pageList, page.offset % ramPageSize = 0 ∧
    page.offset + ramPageSize ≤ (host.files page.generation.file).len

/-- The disk has a copy of the generation of a page. -/
def Durable (host disk : RamHost) (page : RamPage) : Prop :=
  ∃ inode, disk.generations[page.generation.id]? = some inode ∧
    Complete inode (host.files page.generation.file) disk

variable {host disk : RamHost} {ram : KvmGuestRam} {rams : List KvmGuestRam}

theorem acceptable_manifests (rest : ∀ ram ∈ rams, AtRest host ram)
    (agree : Agree ((rams.map manifest).flatMap RamState.pages))
    (durable : ∀ page ∈ rams.flatMap pageList, Durable host disk page) :
    Acceptable disk (rams.map manifest) := by
  refine ⟨fun state inStates => ?_, agree⟩
  obtain ⟨ram, inRams, rfl⟩ := List.mem_map.mp inStates
  refine ⟨(rest ram inRams).sized.1, ?_, fun page inPages => ?_⟩
  · simpa [manifest, pageList] using (rest ram inRams).sized.2
  · obtain ⟨held, inRam, rfl⟩ := List.mem_map.mp inPages
    obtain ⟨inode, found, complete⟩ := durable held (List.mem_flatMap.mpr ⟨ram, inRams, inRam⟩)
    obtain ⟨aligned, fits⟩ := (rest ram inRams).inside held inRam
    exact ⟨inode, found, aligned, Nat.le_trans (Nat.min_le_left _ _) (complete.1 ▸ fits)⟩

theorem manifest_pages {index : Nat} (below : index < ram.pageCount) :
    ram.manifest.pages[index]? = some (ram.pages index).state := by
  simp [manifest, pageList, below]

theorem Restored.bytes_eq {copy : KvmGuestRam} (rest : AtRest host ram)
    (durable : ∀ page ∈ ram.pageList, Durable host disk page)
    (restored : Restored disk ram.manifest copy) {position : Nat} (inside : position < ram.len) :
    copy.bytes disk position = ram.bytes host position := by
  have below : position / ramPageSize < ram.pageCount := by
    rw [← rest.sized.2, Nat.mul_comm] at inside
    exact Nat.div_lt_of_lt_mul inside
  have listed : ram.pages (position / ramPageSize) ∈ ram.pageList :=
    List.mem_map_of_mem (List.mem_range.mpr below)
  obtain ⟨-, own, place⟩ := restored.pages _ _ (manifest_pages below)
  obtain ⟨ownHere, placeHere⟩ := rest.mapped _ below
  obtain ⟨inode, found, complete⟩ := durable _ listed
  obtain ⟨-, fits⟩ := rest.inside _ listed
  have within := Nat.mod_lt position (show 0 < ramPageSize by decide)
  simp only [KvmGuestRam.bytes, PrivateMapping.bytes, Pages.joined, PrivateMapping.page, own, place,
    ownHere, placeHere, FilePlace.bytes, RamPage.place, RamPageState.page, RamPage.state, found,
    Option.getD_some]
  exact complete.2 _ (by omega)

/-- What `durable_state` returns for the branches of a lineage restores each of them to the bytes
that it had, with the pages that it shares, on any disk with copies of their generations. There
`restore` fails only if the host does. -/
theorem restored_ram_has_saved_bytes (rams : List KvmGuestRam) (host disk : RamHost)
    (rest : ∀ ram ∈ rams, AtRest host ram)
    (agree : Agree ((rams.map manifest).flatMap RamState.pages))
    (durable : ∀ page ∈ rams.flatMap pageList, Durable host disk page) :
    (∀ ram ∈ rams, Returns (· = ram.manifest) ram.durableState) ∧
    Ends (restore (rams.map manifest)) disk fun result after =>
      (∀ copies, result = .ok copies → List.Forall₂ (fun ram copy => copy.len = ram.len ∧
        (∀ index < ram.pageCount, (copy.pages index).id = (ram.pages index).id) ∧
        ∀ position < ram.len, copy.bytes after position = ram.bytes host position) rams copies) ∧
      ∀ error, result = .error error → HostFailed disk error := by
  constructor
  · intro ram _
    exact returns_bind fun _ => returns_bind fun _ => returns_bind fun _ => returns_pure rfl
  rw [restore, ← bind_assoc, ends_bind]
  refine (decides_restored _ disk ⟨Std.Refl.refl disk, List.Subset.refl _⟩).mono ?_
  intro result after ended
  obtain ⟨reads, returned, failed⟩ := ended
  cases result with
  | error error =>
    refine ⟨not_ok, fun _ same => ?_⟩
    cases same
    exact (failed error rfl).resolve_left (not_not.mpr (acceptable_manifests rest agree durable))
  | ok copies =>
    simp only [ends_bind, ends_modify]
    refine ⟨fun _ same => ?_, not_error⟩
    cases same
    have restored := List.forall₂_map_left_iff.mp (returned copies rfl).2
    refine ((List.forall₂_and_left _ _).mpr ⟨fun _ inRams => inRams, restored⟩).imp
      fun ram copy both => ⟨both.2.len, fun index below =>
        by rw [(both.2.pages index _ (manifest_pages below)).1]; rfl, fun position inside => ?_⟩
    have bytes := both.2.bytes_eq (rest ram both.1)
      (fun page inRam => durable page (List.mem_flatMap.mpr ⟨ram, both.1, inRam⟩)) inside
    rw [← bytes, KvmGuestRam.bytes, KvmGuestRam.bytes]
    unfold RamHost.contents
    rw [files_of_answered reads.1]
    rfl

/-- Generation 1 has two pages and generation 2 has one. Each is there as the file of a process and
as a durable file. -/
def savedHost : RamHost :=
  { RamHost.initial with
    files := fun inode =>
      { len := if inode < 2 then 8192 else 4096
        bytes := if inode < 2 then (ByteMap.zero.write 1 [7]).write 4097 [8]
          else ByteMap.zero.write 1 [9]
        isData := fun _ => true }
    generations := ExtTreeMap.ofList [(1, 1), (2, 3)] }

/-- A RAM of two pages, the first one of which is the first of generation 1. -/
def savedRam (second : RamPage) : KvmGuestRam :=
  let pages index : RamPage := if index = 0 then ⟨5, ⟨1, 0⟩, 0⟩ else second
  { memory := { place := fun index => some (pages index).place, own := fun _ => none }
    len := 8192
    pages
    hostDirty := ∅
    isPrivate := true
    sealed := true }

def parentRam : KvmGuestRam := savedRam ⟨6, ⟨1, 0⟩, 4096⟩

def childRam : KvmGuestRam := savedRam ⟨7, ⟨2, 2⟩, 0⟩

theorem saved_byte_is_restored :
    ((restore ([parentRam, childRam].map manifest)).exec savedHost).1.isOk ∧
    Ends (restore ([parentRam, childRam].map manifest)) savedHost fun result after =>
      ∀ parent child, result = .ok [parent, child] →
        (parent.pages 0).id = 5 ∧ (child.pages 0).id = 5 ∧
        parent.bytes after 1 = 7 ∧ parent.bytes after 4097 = 8 ∧
        child.bytes after 1 = 7 ∧ child.bytes after 4097 = 9 := by
  have restParent : AtRest savedHost parentRam := ⟨by decide, fun _ _ => ⟨rfl, rfl⟩, by decide⟩
  have restChild : AtRest savedHost childRam := ⟨by decide, fun _ _ => ⟨rfl, rfl⟩, by decide⟩
  have durable : ∀ page ∈ [parentRam, childRam].flatMap pageList,
      Durable savedHost savedHost page := by
    have listed : [parentRam, childRam].flatMap pageList =
        [⟨5, ⟨1, 0⟩, 0⟩, ⟨6, ⟨1, 0⟩, 4096⟩, ⟨5, ⟨1, 0⟩, 0⟩, ⟨7, ⟨2, 2⟩, 0⟩] := by decide
    rw [listed]
    simp only [List.forall_mem_cons]
    exact ⟨⟨1, by decide, rfl, fun _ _ => rfl⟩, ⟨1, by decide, rfl, fun _ _ => rfl⟩,
      ⟨1, by decide, rfl, fun _ _ => rfl⟩, ⟨3, by decide, rfl, fun _ _ => rfl⟩, by simp⟩
  have restored := (restored_ram_has_saved_bytes [parentRam, childRam] savedHost savedHost
    (by simp [restParent, restChild]) (by unfold Agree; decide) durable).2
  refine ⟨by decide +kernel, restored.mono fun result after ended parent child returned => ?_⟩
  cases ended.1 _ returned with
  | cons first rest =>
    cases rest with
    | cons second _ =>
      have bytes : parentRam.bytes savedHost 1 = 7 ∧ parentRam.bytes savedHost 4097 = 8 ∧
          childRam.bytes savedHost 1 = 7 ∧ childRam.bytes savedHost 4097 = 9 := by decide +kernel
      refine ⟨first.2.1 0 (by decide), second.2.1 0 (by decide), ?_, ?_, ?_, ?_⟩
      · exact (first.2.2 1 (by decide)).trans bytes.1
      · exact (first.2.2 4097 (by decide)).trans bytes.2.1
      · exact (second.2.2 1 (by decide)).trans bytes.2.2.1
      · exact (second.2.2 4097 (by decide)).trans bytes.2.2.2

end Minidox.Ram
