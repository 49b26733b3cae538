import Minidox.Cache.Shared.Branching
import Minidox.Cache.Shared.Mapping
import Minidox.Cache.Shared.Reference
import Minidox.Cache.Shared.Sync
import Minidox.Foundation.Transition

/-!
# The shared cache refines private copies

Every step of the system is a step of the reference model, when a branch of the
reference owns what a branch of the cache sees.
-/

set_option autoImplicit false

namespace Minidox.Cache

open Foundation Attempt
open Std (ExtTreeMap)
open SharedPageCache (lineageOf Good grown_faults ends_askStore viewOf branches_lineageOf
  ends_mapPage ends_unmap Grown ends_fork)

def Call.forget (call : Call DaxPageMapping) : Call Unit :=
  { call with
    phase := match call.phase with
      | .measure => .measure
      | .map => .map
      | .copy _ => .copy ()
      | .unmap _ => .unmap () }

namespace System

variable {World Store Identity α : Type} {held : List (Holder × DaxPageMapping)}
  {mapping : DaxPageMapping} {branch : CacheBranchId} {reference : Reference} {thread : Thread}
  {call : Call DaxPageMapping}

theorem mappings_erase {holder : Holder} (member : (holder, mapping) ∈ held) :
    ((held.map Prod.snd).erase mapping).Perm ((held.erase (holder, mapping)).map Prod.snd) := by
  have listed := (List.perm_cons_erase member).map Prod.snd
  have included : mapping ∈ held.map Prod.snd := List.mem_map.mpr ⟨_, member, rfl⟩
  exact ((List.perm_cons_erase included).symm.trans listed).cons_inv

theorem mappings_abandon {holder : Holder} (member : (holder, mapping) ∈ held) :
    (held.map Prod.snd).Perm
      (((.nobody, mapping) :: held.erase (holder, mapping)).map Prod.snd) :=
  (List.perm_cons_erase member).map Prod.snd

theorem mem_passOn {other : Thread} (different : other ≠ thread)
    (member : (.call other, mapping) ∈ held) (old new : Option DaxPageMapping) :
    (.call other, mapping) ∈ passOn thread held old new := by
  cases old with
  | none =>
    cases new with
    | none => exact member
    | some gained => exact List.mem_cons_of_mem _ member
  | some lost =>
    cases new with
    | none => exact (List.mem_erase_of_ne (by simp [different])).mpr member
    | some kept => exact member

variable [Ord Identity] {system : System World Store Identity}
  {before after cache : SharedPageCache World Store Identity}

theorem mem_mappings {holder : Holder} (member : (holder, mapping) ∈ system.held) :
    mapping ∈ system.mappings :=
  List.mem_map.mpr ⟨_, member, rfl⟩

def SameStores (before after : SharedPageCache World Store Identity) : Prop :=
  after.id = before.id ∧ after.world = before.world ∧ after.branches = before.branches

variable [Std.TransOrd Identity] [ForkableNodeStore World Store Identity] [FileView Store]
  [IdentityLedger World Identity]

def referenceOf (system : System World Store Identity) : Reference where
  copies := system.cache.copies
  calls thread := system.calls[thread]?.map Call.forget

structure Keeps (before after : SharedPageCache World Store Identity) : Prop where
  next : before.nextBranch ≤ after.nextBranch
  lengths : ∀ branch < before.nextBranch, ∀ node files bytes, before.copies branch = some files →
    files node = some bytes → ∀ filesAfter, after.copies branch = some filesAfter →
    ∃ bytesAfter, filesAfter node = some bytesAfter ∧ bytesAfter.length = bytes.length
  gone : ∀ branch < before.nextBranch, before.copies branch = none → after.copies branch = none

/-- What the system knows of a running call: it holds the mapping that its phase
names, and once it is in the loop its range is inside the file. -/
structure CallSound (system : System World Store Identity) (thread : Thread)
    (call : Call DaxPageMapping) : Prop where
  holds : ∀ mapping, call.mapping? = some mapping → (.call thread, mapping) ∈ system.held ∧
    mapping.branch = call.branch ∧ mapping.key = (call.node, pageOf call.cursor) ∧
    mapping.flags = call.job.flags
  fresh : call.phase = .measure → call.cursor = call.offset
  started : call.phase ≠ .measure → call.branch < system.cache.nextBranch ∧
    call.cursor < call.stop ∧ ∀ files, system.cache.copies call.branch = some files →
      ∃ bytes, files call.node = some bytes ∧ call.stop ≤ bytes.length

/-!
## What stays the same
-/

theorem keeps_of_copies
    (next : after.nextBranch = before.nextBranch) (copies : after.copies = before.copies) :
    Keeps before after where
  next := Nat.le_of_eq next.symm
  lengths branch _ node files bytes found file filesAfter foundAfter := by
    rw [copies, found] at foundAfter
    cases foundAfter
    exact ⟨bytes, file, rfl⟩
  gone branch _ absent := by rw [copies, absent]

theorem keeps_of_sameView (same : (lineageOf before).SameView (lineageOf after)) :
    Keeps before after :=
  keeps_of_copies same.next same.copies

theorem keeps_of_update {files : Option Files} {old : Files}
    (next : after.nextBranch = before.nextBranch) (found : before.copies branch = some old)
    (copies : after.copies = Function.update before.copies branch files)
    (lengths : ∀ new node bytes, files = some new → old node = some bytes →
      ∃ bytesAfter, new node = some bytesAfter ∧ bytesAfter.length = bytes.length) :
    Keeps before after where
  next := Nat.le_of_eq next.symm
  lengths other _ node filesBefore bytes foundBefore file filesAfter foundAfter := by
    rw [copies] at foundAfter
    by_cases here : other = branch
    · subst here
      rw [Function.update_self] at foundAfter
      rw [found] at foundBefore
      cases foundBefore
      exact lengths filesAfter node bytes foundAfter file
    · rw [Function.update_of_ne here, foundBefore] at foundAfter
      cases foundAfter
      exact ⟨bytes, file, rfl⟩
  gone other _ absent := by
    rw [copies]
    by_cases here : other = branch
    · rw [here, found] at absent
      cases absent
    · rw [Function.update_of_ne here, absent]

theorem keeps_of_fork {files : Option Files} (next : after.nextBranch = before.nextBranch + 1)
    (copies : after.copies = Function.update before.copies before.nextBranch files) :
    Keeps before after where
  next := next ▸ Nat.le_succ _
  lengths branch older node filesBefore bytes found file filesAfter foundAfter := by
    rw [copies, Function.update_of_ne (Nat.ne_of_lt older), found] at foundAfter
    cases foundAfter
    exact ⟨bytes, file, rfl⟩
  gone branch older absent := by
    rw [copies, Function.update_of_ne (Nat.ne_of_lt older), absent]

theorem CallSound.keep {before after : System World Store Identity} {thread : Thread}
    {call : Call DaxPageMapping} (sound : CallSound before thread call)
    (keeps : Keeps before.cache after.cache)
    (held : ∀ mapping, (.call thread, mapping) ∈ before.held →
      (.call thread, mapping) ∈ after.held) :
    CallSound after thread call where
  holds mapping named := by
    obtain ⟨member, rest⟩ := sound.holds mapping named
    exact ⟨held mapping member, rest⟩
  fresh := sound.fresh
  started running := by
    obtain ⟨older, inside, file⟩ := sound.started running
    refine ⟨Nat.lt_of_lt_of_le older keeps.next, inside, fun filesAfter foundAfter => ?_⟩
    cases found : before.cache.copies call.branch with
    | none =>
      rw [keeps.gone call.branch older found] at foundAfter
      cases foundAfter
    | some files =>
      obtain ⟨bytes, present, within⟩ := file files found
      obtain ⟨bytesAfter, presentAfter, same⟩ :=
        keeps.lengths call.branch older call.node files bytes found present filesAfter foundAfter
      exact ⟨bytesAfter, presentAfter, same ▸ within⟩

theorem referenceOf_setCache (copies : cache.copies = system.cache.copies) :
    referenceOf { system with cache } = referenceOf system := by
  simp only [referenceOf, copies]

theorem referenceOf_setCopy {files : Option Files}
    (copies : cache.copies = Function.update system.cache.copies branch files) :
    referenceOf { system with cache } = (referenceOf system).setCopy branch files := by
  simp only [referenceOf, Reference.setCopy, copies]

theorem referenceOf_patch {files : Files} {node position : Nat} {data : List UInt8}
    (live : system.cache.copies branch = some files)
    (copies : cache.copies = Function.update system.cache.copies branch
      (some (files.patch node position data))) :
    referenceOf { system with cache } =
      (referenceOf system).patch branch node position data := by
  simp only [referenceOf, Reference.patch, Reference.setCopy, copies, live, Option.map_some]

theorem referenceOf_setCall {after : System World Store Identity} {thread : Thread}
    {next : Option (Call DaxPageMapping)}
    (viewed : referenceOf { system with cache := after.cache } = reference)
    (calls : ∀ other, after.calls[other]? = if other = thread then next else system.calls[other]?) :
    referenceOf after = reference.setCall thread (next.map Call.forget) := by
  subst viewed
  simp only [referenceOf, Reference.setCall, Reference.mk.injEq, true_and]
  funext other
  rw [calls, Function.update_apply]
  split <;> rfl

theorem file_of_copies {files : Files} {node : NodeId}
    (live : system.cache.copies branch = some files) :
    (referenceOf system).file branch node = files node := by
  simp only [Reference.file, referenceOf, live, Option.bind_some]

theorem CallSound.goesOn (sound : CallSound system thread call) (keeps : Keeps system.cache cache)
    (running : call.phase ≠ .measure) :
    call.branch < cache.nextBranch ∧ call.cursor < call.stop ∧
      ∀ files, cache.copies call.branch = some files →
        ∃ bytes, files call.node = some bytes ∧ call.stop ≤ bytes.length := by
  have kept : CallSound { system with cache } thread call := sound.keep keeps fun _ member => member
  exact kept.started running

theorem CallSound.copied (sound : CallSound system thread call) (keeps : Keeps system.cache cache)
    (phase : call.phase = .copy mapping) {collected : List UInt8}
    {calls : ExtTreeMap Thread (Call DaxPageMapping)} :
    CallSound { cache, held := passOn thread system.held call.mapping? (some mapping), calls }
      thread { call with collected, phase := .unmap mapping } where
  holds other renamed := by
    cases renamed
    have named : call.mapping? = some mapping := by simp only [Call.mapping?, phase]
    rw [named]
    exact sound.holds mapping named
  fresh := by rintro ⟨⟩
  started _ := sound.goesOn keeps (by rw [phase]; rintro ⟨⟩)

theorem started_callSound {files : Files} {bytes : List UInt8} {stop : Nat}
    (live : system.cache.copies call.branch = some files) (present : files call.node = some bytes)
    (same : (lineageOf system.cache).SameView (lineageOf cache))
    (older : call.branch < system.cache.nextBranch) (inside : call.cursor < stop)
    (fits : stop ≤ bytes.length) {calls : ExtTreeMap Thread (Call DaxPageMapping)} :
    CallSound { cache, held, calls } thread { call with stop, phase := .map } where
  holds := by rintro _ ⟨⟩
  fresh := by rintro ⟨⟩
  started _ := by
    refine ⟨Nat.lt_of_lt_of_eq older same.next.symm, inside, fun after found => ?_⟩
    rw [show cache.copies = _ from same.copies] at found
    obtain rfl : files = after := Option.some.inj (live.symm.trans found)
    exact ⟨bytes, present, fits⟩

theorem ends_writePage (cache : SharedPageCache World Store Identity) (page place : Nat)
    (data : List UInt8) :
    Ends (SharedPageCache.writePage page place data) cache fun result after =>
      SameStores cache after ∧
      ((result = .ok () ∧ lineageOf after =
          (lineageOf cache).setPage page ((cache.contents page).write place data)) ∨
        ∃ fault, cache.faults.head?.join = some fault ∧ result = .error (.io fault.error) ∧
          lineageOf after = (lineageOf cache).setPage page
            ((cache.contents page).write place (data.take fault.progress))) := by
  simp only [SharedPageCache.writePage, SharedPageCache.nextFault, ends_bind, ends_get, ends_set,
    ends_pure]
  cases cache.faults.head?.join with
  | none => exact ⟨⟨rfl, rfl, rfl⟩, .inl ⟨rfl, rfl⟩⟩
  | some fault => exact ⟨⟨rfl, rfl, rfl⟩, .inr ⟨fault, rfl, rfl, rfl⟩⟩

variable [StoreLedger World Store]

structure Consistent (system : System World Store Identity) : Prop where
  good : Good system.mappings system.cache
  calls : ∀ thread call, system.calls[thread]? = some call → CallSound system thread call

def Simulated [DecidableEq Identity] [FileMaker World Store]
    (system : System World Store Identity) (action : Action) : Prop :=
  Consistent (system.step action).1 ∧
    Reference.Step (referenceOf system) action (system.step action).2
      (referenceOf (system.step action).1)

theorem Consistent.setCache (consistent : Consistent system) (good : Good system.mappings cache)
    (keeps : Keeps system.cache cache) :
    Consistent { system with cache } where
  good := good
  calls thread call running :=
    (consistent.calls thread call running).keep keeps fun _ member => member

theorem file_of_len [LawfulForkableStore World Store Identity] {state : CacheBranch Store}
    {node length : Nat} (found : cache.branches[branch]? = some state)
    (measured : NodeStore.len World state.store node = .ok length) :
    ∃ files bytes, cache.copies branch = some files ∧ files node = some bytes ∧
      bytes.length = length := by
  have known := LawfulNodeStore.len_ok measured
  refine ⟨_, ByteMap.read ((lineageOf cache).byteAt
    (viewOf World state) node) 0 length,
    Lineage.copies_of_found (branches_lineageOf found), ?_,
    ByteMap.length_read _ _ _⟩
  simp only [Lineage.filesOf, viewOf, known, Option.map_some]

theorem ends_measure (call : Call DaxPageMapping) (cache : SharedPageCache World Store Identity)
    {post : Except CacheError (Progress DaxPageMapping) →
      SharedPageCache World Store Identity → Prop}
    (failed : ∀ error after, Grown cache after → post (.error error) after)
    (readNothing : ∀ capacity state length, call.job = .read capacity →
      cache.branches[call.branch]? = some state →
      NodeStore.len World state.store call.node = .ok length →
      length ≤ call.offset ∨ capacity = 0 →
      post (.ok (.finished (.read []))) { cache with faults := cache.faults.tail })
    (readStarts : ∀ capacity state length, call.job = .read capacity →
      cache.branches[call.branch]? = some state →
      NodeStore.len World state.store call.node = .ok length →
      call.offset < length ∧ 0 < capacity →
      post (.ok ({ call with stop := call.offset + min (length - call.offset) capacity }.loop))
        { cache with faults := cache.faults.tail })
    (writeStarts : ∀ data state length, call.job = .write data →
      cache.branches[call.branch]? = some state →
      NodeStore.len World state.store call.node = .ok length →
      call.offset + data.length ≤ length →
      post (.ok ({ call with stop := call.offset + data.length }.loop))
        { cache with faults := cache.faults.tail }) :
    Ends call.measure cache post := by
  have quiet := grown_faults cache cache.faults.tail
  unfold Call.measure
  split
  next capacity job =>
    simp only [ends_bind]
    refine ends_askStore (fun state length found measured => ?_)
      (fun fault => failed _ _ quiet) fun _ => failed _ _ (Std.Refl.refl cache)
    simp only [ends_ite]
    refine ⟨fun nothing => readNothing capacity state length job found measured nothing,
      fun something => ?_⟩
    rw [ends_bind]
    refine ends_orInvalid (fun stop added => ?_) (failed _ _ quiet)
    obtain rfl := Word64.checkedAdd_eq_some added
    exact readStarts capacity state length job found measured (by omega)
  next data job =>
    simp only [ends_bind]
    refine ends_orInvalid (fun stop added => ?_) (failed _ _ (Std.Refl.refl cache))
    obtain rfl := Word64.checkedAdd_eq_some added
    refine ends_askStore (fun state length found measured => ?_)
      (fun fault => failed _ _ quiet) fun _ => failed _ _ (Std.Refl.refl cache)
    simp only [ends_require]
    exact ⟨fun inside => writeStarts data state length job found measured inside,
      fun _ => failed _ _ quiet⟩

section Steps

variable (consistent : Consistent system)

include consistent

theorem stored_spec {holder : Holder} (member : (holder, mapping) ∈ system.held)
    (writable : mapping.flags.write) {place : Nat} {data : List UInt8}
    (inside : place + data.length ≤ pageSize) (cache : SharedPageCache World Store Identity)
    (written : lineageOf cache = (lineageOf system.cache).setPage
      mapping.page ((system.cache.contents mapping.page).write place data))
    (same : SameStores system.cache cache) :
    Good system.mappings cache ∧ Keeps system.cache cache ∧
      ∃ files, system.cache.copies mapping.branch = some files ∧
        cache.copies = Function.update system.cache.copies mapping.branch
          (some (files.patch mapping.key.1 (mapping.key.2 + place) data)) := by
  have included := mem_mappings member
  obtain ⟨origin, sound⟩ := consistent.good.sound
  obtain ⟨-, -, branch, -, found, -⟩ := sound.held_backed mapping included
  have live := Lineage.copies_of_found found
  have copies : cache.copies = _ :=
    (congrArg Lineage.copies written).trans (sound.copies_store included writable inside live)
  refine ⟨⟨⟨origin, ?_⟩, ?_, ?_⟩, ?_, _, live, copies⟩
  · rw [written]
    exact sound.setPage included writable _
  · rw [same.1]
    exact consistent.good.owner
  · rw [same.2.1, same.2.2]
    exact consistent.good.registered
  · refine keeps_of_update (congrArg Lineage.nextBranch written) live copies ?_
    intro new node bytes patched present
    cases patched
    by_cases here : node = mapping.key.1
    · subst here
      refine ⟨_, by rw [Files.patch, Function.update_self, present, Option.map_some], ?_⟩
      exact ByteMap.length_read _ _ _
    · exact ⟨bytes, by rw [Files.patch, Function.update_of_ne here, present], rfl⟩

theorem page_read (included : mapping ∈ system.mappings) (owner : mapping.branch = call.branch)
    (page : mapping.key = (call.node, pageOf call.cursor)) {files : Files} {bytes : List UInt8}
    (live : system.cache.copies call.branch = some files) (present : files call.node = some bytes)
    (fits : call.cursor + call.chunkLen ≤ bytes.length) :
    (system.cache.contents mapping.page).read call.withinPage call.chunkLen =
      (bytes.drop call.cursor).take call.chunkLen := by
  obtain ⟨origin, sound⟩ := consistent.good.sound
  obtain ⟨-, -, branch, identity, found, resolved, resident, -⟩ :=
    sound.held_backed mapping included
  rw [owner] at found
  rw [page] at resolved
  rw [show system.cache.copies call.branch = _ from Lineage.copies_of_found found] at live
  cases live
  simp only [Lineage.filesOf, Option.map_eq_some_iff] at present
  obtain ⟨length, known, rfl⟩ := present
  rw [ByteMap.length_read] at fits
  rw [ByteMap.take_drop_read _ fits]
  have lower := pageOf_le call.cursor
  have upper := lt_pageOf_add call.cursor
  refine List.map_congr_left fun index member => ?_
  have short : index < call.chunkLen := List.mem_range.mp member
  have inPage : call.withinPage + index < pageSize := by
    unfold Call.chunkLen at short
    omega
  have here : pageOf (call.cursor + index) = pageOf call.cursor := by
    refine pageOf_eq_of_mem (pageOf_mod _) (by omega) ?_
    unfold Call.withinPage at inPage
    omega
  rw [Lineage.byteAt, here, resolved, Option.bind_some, resident]
  refine congrArg (system.cache.contents mapping.page) ?_
  unfold Call.withinPage
  omega

theorem copying (active : system.calls[thread]? = some call) (phase : call.phase = .copy mapping) :
    (.call thread, mapping) ∈ system.held ∧ mapping.branch = call.branch ∧
      mapping.key = (call.node, pageOf call.cursor) ∧ mapping.flags = call.job.flags ∧
      ∃ files bytes, system.cache.copies call.branch = some files ∧
        files call.node = some bytes ∧ call.cursor + call.chunkLen ≤ bytes.length := by
  have sound := consistent.calls thread call active
  obtain ⟨member, owner, page, access⟩ :=
    sound.holds mapping (by simp only [Call.mapping?, phase])
  obtain ⟨origin, invariant⟩ := consistent.good.sound
  obtain ⟨-, -, branch, -, found, -⟩ := invariant.held_backed mapping (mem_mappings member)
  obtain ⟨-, inside, file⟩ := sound.started (by rw [phase]; rintro ⟨⟩)
  have live : system.cache.copies call.branch = _ := owner ▸ Lineage.copies_of_found found
  obtain ⟨bytes, present, fits⟩ := file _ live
  refine ⟨member, owner, page, access, _, bytes, live, present, ?_⟩
  unfold Call.chunkLen
  omega

variable [DecidableEq Identity] [FileMaker World Store]

/-!
## Calls of one critical section
-/

theorem simulated_failed {action : Action} {error : CacheError} (good : Good system.mappings cache)
    (same : (lineageOf system.cache).SameView (lineageOf cache))
    (single : ∀ thread, action ≠ .advance thread)
    (stepped : system.step action = ({ system with cache }, .failed error)) :
    Simulated system action := by
  rw [Simulated, stepped]
  refine ⟨consistent.setCache good (keeps_of_sameView same), ?_⟩
  rw [referenceOf_setCache same.copies]
  exact .failed action error single

/-- An operation of one critical section: when it fails it keeps every view, and when it
returns the private copies follow it. -/
theorem simulated_attempt {action : Action} {operation : SharedM World Store Identity α}
    {reply : α → Reply} (stepped : system.step action = system.attempt operation reply)
    (single : ∀ thread, action ≠ .advance thread)
    (ends : Ends operation system.cache fun result after =>
      Good system.mappings after ∧
        (∀ error, result = .error error →
          (lineageOf system.cache).SameView (lineageOf after)) ∧
        ∀ value, result = .ok value → Keeps system.cache after ∧
          Reference.Step (referenceOf system) action (reply value)
            (referenceOf { system with cache := after })) :
    Simulated system action := by
  rw [attempt] at stepped
  cases executed : operation.exec system.cache with
  | mk result cache =>
    obtain ⟨good, same, returned⟩ := ends.of_exec executed
    rw [executed] at stepped
    cases result with
    | ok value =>
      obtain ⟨keeps, step⟩ := returned value rfl
      rw [Simulated, stepped]
      exact ⟨consistent.setCache good keeps, step⟩
    | error error => exact simulated_failed consistent good (same error rfl) single stepped

theorem simulated_quiet {action : Action} {operation : SharedM World Store Identity Unit}
    (ends : Ends operation system.cache fun _ after =>
      Good system.mappings after ∧
        (lineageOf system.cache).SameView (lineageOf after))
    (quiet : Reference.Quiet action)
    (stepped : system.step action = system.attempt operation fun _ => .done) :
    Simulated system action := by
  refine simulated_attempt consistent stepped ?_ (ends.mono fun _ after kept => ?_)
  · rintro thread rfl
    exact quiet
  · obtain ⟨good, same⟩ := kept
    refine ⟨good, fun _ _ => same, fun _ _ => ⟨keeps_of_sameView same, ?_⟩⟩
    rw [referenceOf_setCache same.copies]
    exact .quiet quiet

theorem simulated_fork [LawfulForkableStore World Store Identity] (source : CacheBranchId) :
    Simulated system (.fork source) := by
  refine simulated_attempt consistent rfl (by rintro _ ⟨⟩)
    ((ends_fork consistent.good source).mono ?_)
  rintro _ cache ⟨good, same, forked⟩
  refine ⟨good, same, fun child returned => ?_⟩
  obtain ⟨rfl, next, copies, files, live⟩ := forked child returned
  refine ⟨keeps_of_fork next copies, ?_⟩
  rw [referenceOf_setCopy (copies.trans (by rw [live]))]
  exact .forked live consistent.good.copies_nextBranch

theorem simulated_removeBranch [Std.LawfulEqOrd Identity] (branch : CacheBranchId) :
    Simulated system (.removeBranch branch) := by
  refine simulated_attempt consistent rfl (by rintro _ ⟨⟩)
    ((SharedPageCache.ends_removeBranch consistent.good branch).mono ?_)
  rintro _ cache ⟨good, same, removed⟩
  refine ⟨good, same, fun _ returned => ?_⟩
  obtain ⟨next, copies, files, live⟩ := removed returned
  refine ⟨keeps_of_update next live copies (by rintro _ _ _ ⟨⟩), ?_⟩
  rw [referenceOf_setCopy copies]
  exact .removed live

theorem simulated_createFile [LawfulFileMaker World Store Identity] (branch : CacheBranchId)
    (name : String) (size : Nat) :
    Simulated system (.createFile branch name size) := by
  refine simulated_attempt consistent rfl (by rintro _ ⟨⟩)
    ((SharedPageCache.ends_createFile consistent.good branch name size).mono ?_)
  rintro _ cache ⟨good, same, created⟩
  refine ⟨good, same, fun node returned => ?_⟩
  obtain ⟨next, files, live, fresh, copies⟩ := created node returned
  refine ⟨keeps_of_update next live copies ?_, ?_⟩
  · intro new other bytes updated present
    cases updated
    by_cases here : other = node
    · rw [here, fresh] at present
      cases present
    · exact ⟨bytes, by rw [Function.update_of_ne here, present], rfl⟩
  · rw [referenceOf_setCopy copies]
    exact .created live fresh

theorem simulated_metadata [LawfulForkableStore World Store Identity] (branch : CacheBranchId)
    (node : NodeId) :
    Simulated system (.metadata branch node) := by
  have quiet := grown_faults system.cache system.cache.faults.tail
  have ends : Ends (SharedPageCache.askStore branch fun store => NodeStore.len World store node)
      system.cache fun result after => Good system.mappings after ∧
        (lineageOf system.cache).SameView (lineageOf after) ∧
        ∀ length, result = .ok length → ∃ bytes,
          (referenceOf system).file branch node = some bytes ∧ bytes.length = length := by
    refine ends_askStore (fun state length found measured => ?_)
      (fun _ => ⟨quiet.good consistent.good, quiet.sameView consistent.good, not_ok⟩)
      fun _ => ⟨consistent.good, Lineage.sameView_refl _, not_ok⟩
    refine ⟨quiet.good consistent.good, quiet.sameView consistent.good, fun _ returned => ?_⟩
    cases returned
    obtain ⟨files, bytes, live, present, same⟩ := file_of_len found measured
    exact ⟨bytes, by rw [file_of_copies live, present], same⟩
  refine simulated_attempt consistent rfl (by rintro _ ⟨⟩) (ends.mono ?_)
  rintro _ cache ⟨good, same, measured⟩
  refine ⟨good, fun _ _ => same, fun length returned => ⟨keeps_of_sameView same, ?_⟩⟩
  obtain ⟨bytes, file, rfl⟩ := measured length returned
  rw [referenceOf_setCache same.copies]
  exact .measured file

theorem simulated_mapPage [Std.LawfulEqOrd Identity] [LawfulForkableStore World Store Identity]
    (branch : CacheBranchId) (node offset : Nat) (flags : MapFlags) :
    Simulated system (.mapPage branch node offset flags) := by
  have ends := ends_mapPage consistent.good branch node offset flags
  unfold Ends at ends
  cases executed : (SharedPageCache.mapPage branch node offset flags).exec system.cache with
  | mk result cache =>
    rw [executed] at ends
    obtain ⟨same, failed, mapped⟩ := ends
    have stepped : system.step (.mapPage branch node offset flags) =
        system.mapPage branch node offset flags := rfl
    rw [mapPage, executed] at stepped
    cases result with
    | error error =>
      exact simulated_failed consistent (failed error rfl) same (fun _ => (by rintro ⟨⟩)) stepped
    | ok mapping =>
      obtain ⟨good, owner, page, access⟩ := mapped mapping rfl
      rw [Simulated, stepped]
      refine ⟨⟨good, fun thread call running => ?_⟩, ?_⟩
      · exact (consistent.calls thread call running).keep (keeps_of_sameView same)
          fun _ member => List.mem_cons_of_mem _ member
      · have after : referenceOf { system with
            cache, held := (.client, mapping) :: system.held } = referenceOf system :=
          referenceOf_setCache same.copies
        rw [after]
        exact .mapped owner page access

theorem simulated_unmap (branch : CacheBranchId)
    (mapping : DaxPageMapping) : Simulated system (.unmap branch mapping) := by
  have stepped : system.step (.unmap branch mapping) = system.unmap branch mapping := rfl
  by_cases member : (.client, mapping) ∈ system.held
  · rw [unmap, if_pos member] at stepped
    by_cases other : mapping.branch = branch
    · subst other
      have ends := ends_unmap consistent.good (mem_mappings member)
      unfold Ends at ends
      cases executed : (SharedPageCache.unmap mapping.branch mapping).exec system.cache with
      | mk result cache =>
        rw [executed] at ends stepped
        obtain ⟨rfl, good, same⟩ := ends
        rw [Simulated, stepped]
        refine ⟨⟨good.perm (mappings_erase member), fun thread call running => ?_⟩, ?_⟩
        · exact (consistent.calls thread call running).keep (keeps_of_sameView same)
            fun _ holds => (List.mem_erase_of_ne (by simp)).mpr holds
        · have after : referenceOf { system with
              cache, held := system.held.erase (.client, mapping) } = referenceOf system :=
            referenceOf_setCache same.copies
          rw [after]
          exact .quiet trivial
    · have ends := SharedPageCache.ends_unmap_other system.cache other
      unfold Ends at ends
      cases executed : (SharedPageCache.unmap branch mapping).exec system.cache with
      | mk result cache =>
        rw [executed] at ends stepped
        obtain ⟨rfl, rfl⟩ := ends
        rw [Simulated, stepped]
        refine ⟨⟨consistent.good.perm (mappings_abandon member), fun thread call running => ?_⟩,
          .failed _ _ fun _ => (by rintro ⟨⟩)⟩
        refine (consistent.calls thread call running).keep (keeps_of_copies rfl rfl) ?_
        intro _ holds
        exact List.mem_cons_of_mem _ ((List.mem_erase_of_ne (by simp)).mpr holds)
  · rw [unmap, if_neg member] at stepped
    rw [Simulated, stepped]
    exact ⟨consistent, .refused _⟩

theorem simulated_store (mapping : DaxPageMapping) (place : Nat)
    (data : List UInt8) : Simulated system (.store mapping place data) := by
  have stepped : system.step (.store mapping place data) = system.store mapping place data := rfl
  by_cases allowed : (.client, mapping) ∈ system.held ∧ mapping.flags.write ∧
      place + data.length ≤ pageSize
  · rw [store, if_pos allowed] at stepped
    obtain ⟨good, keeps, files, live, copies⟩ := stored_spec consistent allowed.1 allowed.2.1
      allowed.2.2 { system.cache with
        contents := Function.update system.cache.contents mapping.page
          ((system.cache.contents mapping.page).write place data) } rfl ⟨rfl, rfl, rfl⟩
    rw [Simulated, stepped]
    refine ⟨consistent.setCache good keeps, ?_⟩
    rw [referenceOf_patch live copies]
    exact .stored allowed.2.1
  · rw [store, if_neg allowed] at stepped
    rw [Simulated, stepped]
    exact ⟨consistent, .refused _⟩

theorem simulated_begin (thread : Thread) (job : Job) (branch : CacheBranchId) (node offset : Nat) :
    Simulated system (.begin thread job branch node offset) := by
  cases running : system.calls[thread]? with
  | some call =>
    have stepped : system.step (.begin thread job branch node offset) = (system, .refused) := by
      simp only [step, begin, running]
    rw [Simulated, stepped]
    exact ⟨consistent, .refused _⟩
  | none =>
    have stepped : system.step (.begin thread job branch node offset) =
        ({ system with calls := system.calls.insert thread (Call.new job branch node offset) },
          .running) := by
      simp only [step, begin, running]
    have after : referenceOf { system with
        calls := system.calls.insert thread (Call.new job branch node offset) } = _ :=
      referenceOf_setCall rfl fun _ => TreeMap.getElem?_insert_ite ..
    rw [Simulated, stepped, after]
    refine ⟨⟨consistent.good, fun other call found => ?_⟩, .begun (congrArg (Option.map _) running)⟩
    rw [TreeMap.getElem?_insert_ite] at found
    split at found
    next =>
      cases found
      exact ⟨(by rintro _ ⟨⟩), fun _ => rfl, fun started => absurd rfl started⟩
    next =>
      exact (consistent.calls other call found).keep (keeps_of_copies rfl rfl)
        fun _ member => member

/-!
## Running calls
-/

variable (active : system.calls[thread]? = some call)

include active

theorem simulated_call {after : System World Store Identity} {reply : Reply}
    (stepped : system.step (.advance thread) = (after, reply)) {next : Option (Call DaxPageMapping)}
    (calls : ∀ other, after.calls[other]? = if other = thread then next else system.calls[other]?)
    (good : Good after.mappings after.cache) (keeps : Keeps system.cache after.cache)
    (held : ∀ other mapping, other ≠ thread → (.call other, mapping) ∈ system.held →
      (.call other, mapping) ∈ after.held)
    (sound : ∀ call, next = some call → CallSound after thread call)
    (viewed : referenceOf { system with cache := after.cache } = reference)
    (step : Reference.CallStep (referenceOf system) thread call.forget reply
      (reference.setCall thread (next.map Call.forget))) :
    Simulated system (.advance thread) := by
  rw [Simulated, stepped, referenceOf_setCall viewed calls]
  refine ⟨⟨good, fun other otherCall found => ?_⟩, .advanced (congrArg (Option.map _) active) step⟩
  rw [calls] at found
  split at found
  next here => exact here ▸ sound otherCall found
  next different =>
    exact (consistent.calls other otherCall found).keep keeps fun mapping =>
      held other mapping different

theorem simulated_running {next : Call DaxPageMapping}
    (executed : call.advance.exec system.cache = (.ok (.running next), cache))
    (good : Good ((passOn thread system.held call.mapping? next.mapping?).map Prod.snd) cache)
    (keeps : Keeps system.cache cache)
    (sound : CallSound { cache
                         held := passOn thread system.held call.mapping? next.mapping?
                         calls := system.calls.insert thread next } thread next)
    (viewed : referenceOf { system with cache } = reference)
    (step : Reference.CallStep (referenceOf system) thread call.forget .running
      (reference.setCall thread (some next.forget))) :
    Simulated system (.advance thread) := by
  refine simulated_call consistent active (step_running active executed)
    (fun _ => TreeMap.getElem?_insert_ite ..) good keeps
    (fun _ _ different member => mem_passOn different member _ _) (fun _ same => ?_) viewed step
  cases same
  exact sound

theorem simulated_finished {reply : Reply}
    (executed : call.advance.exec system.cache = (.ok (.finished reply), cache))
    (good : Good ((passOn thread system.held call.mapping? none).map Prod.snd) cache)
    (keeps : Keeps system.cache cache) (viewed : referenceOf { system with cache } = reference)
    (step : Reference.CallStep (referenceOf system) thread call.forget reply
      (reference.setCall thread none)) :
    Simulated system (.advance thread) :=
  simulated_call consistent active (step_finished active executed)
    (fun _ => TreeMap.getElem?_erase_ite ..) good keeps
    (fun _ _ different member => mem_passOn different member _ _) (by rintro _ ⟨⟩) viewed step

/-- A step with which the call fails. A mapping that it had stays counted. -/
theorem simulated_stopped {error : CacheError}
    (executed : call.advance.exec system.cache = (.error error, cache))
    (good : Good system.mappings cache) (keeps : Keeps system.cache cache)
    (viewed : referenceOf { system with cache } = reference)
    (step : Reference.CallStep (referenceOf system) thread call.forget
      (call.failure system.cache.faults error) (reference.setCall thread none)) :
    Simulated system (.advance thread) := by
  have stepped : system.step (.advance thread) =
      ({ system with cache }.stop thread call, call.failure system.cache.faults error) := by
    simp only [System.step, advance, active, executed]
  rw [stop] at stepped
  cases named : call.mapping? with
  | none =>
    rw [named] at stepped
    exact simulated_call consistent active stepped (fun _ => TreeMap.getElem?_erase_ite ..) good
      keeps (fun _ _ _ member => member) (by rintro _ ⟨⟩) viewed step
  | some mapping =>
    rw [named] at stepped
    obtain ⟨member, -⟩ := (consistent.calls thread call active).holds mapping named
    refine simulated_call consistent active stepped (fun _ => TreeMap.getElem?_erase_ite ..)
      (good.perm (mappings_abandon member)) keeps (fun other _ different holds => ?_)
      (by rintro _ ⟨⟩) viewed step
    exact List.mem_cons_of_mem _ ((List.mem_erase_of_ne (by simp [different])).mpr holds)

theorem simulated_measure [LawfulForkableStore World Store Identity]
    (phase : call.phase = .measure) :
    Simulated system (.advance thread) := by
  have unfolded : (call.advance : SharedM World Store Identity _) = call.measure := by
    simp only [Call.advance, phase]
  have quiet := grown_faults system.cache system.cache.faults.tail
  have good := quiet.good consistent.good
  have same := quiet.sameView consistent.good
  have unmapped : call.mapping? = none := by simp only [Call.mapping?, phase]
  have start := (consistent.calls thread call active).fresh phase
  have forgotten : call.forget.phase = .measure := by simp only [Call.forget, phase]
  have older : ∀ state, system.cache.branches[call.branch]? = some state →
      call.branch < system.cache.nextBranch := by
    intro state found
    obtain ⟨origin, sound⟩ := consistent.good.sound
    exact sound.branch_lt (branches_lineageOf found)
  refine Ends.elim (ends_measure call system.cache ?_ ?_ ?_ ?_)
  · intro error after grown executed
    refine simulated_stopped consistent active (unfolded ▸ executed) (grown.good consistent.good)
      (keeps_of_sameView (grown.sameView consistent.good))
      (referenceOf_setCache (grown.sameView consistent.good).copies) ?_
    simp only [Call.failure, phase]
    exact .stopped error
  · intro capacity state length job found measured nothing executed
    obtain ⟨files, bytes, live, present, rfl⟩ := file_of_len found measured
    refine simulated_finished consistent active (unfolded ▸ executed) (by rw [unmapped]; exact good)
      (keeps_of_sameView same) (referenceOf_setCache same.copies) ?_
    exact .readNothing forgotten job ((file_of_copies live).trans present) nothing
  · intro capacity state length job found measured something executed
    obtain ⟨files, bytes, live, present, rfl⟩ := file_of_len found measured
    have inside : call.cursor < call.offset + min (bytes.length - call.offset) capacity := by omega
    rw [Call.loop, if_pos inside] at executed
    refine simulated_running consistent active (unfolded ▸ executed)
      (by rw [unmapped]; exact good) (keeps_of_sameView same)
      (started_callSound live present same (older state found) inside (by omega))
      (referenceOf_setCache same.copies) ?_
    exact .readStarts forgotten job ((file_of_copies live).trans present) something
  · intro data state length job found measured fits executed
    obtain ⟨files, bytes, live, present, rfl⟩ := file_of_len found measured
    by_cases inside : call.cursor < call.offset + data.length
    · rw [Call.loop, if_pos inside] at executed
      refine simulated_running consistent active (unfolded ▸ executed)
        (by rw [unmapped]; exact good) (keeps_of_sameView same)
        (started_callSound live present same (older state found) inside fits)
        (referenceOf_setCache same.copies) ?_
      exact .writeStarts forgotten job ((file_of_copies live).trans present) fits
    · obtain rfl : data = [] := List.eq_nil_of_length_eq_zero (by omega)
      rw [Call.loop, if_neg inside] at executed
      refine simulated_finished consistent active (unfolded ▸ executed)
        (by rw [unmapped]; exact good) (keeps_of_sameView same)
          (referenceOf_setCache same.copies) ?_
      simp only [job, Job.result]
      exact .writeNothing forgotten job ((file_of_copies live).trans present)

theorem simulated_map [Std.LawfulEqOrd Identity] [LawfulForkableStore World Store Identity]
    (phase : call.phase = .map) :
    Simulated system (.advance thread) := by
  have sound := consistent.calls thread call active
  have unmapped : call.mapping? = none := by simp only [Call.mapping?, phase]
  have forgotten : call.forget.phase = .map := by simp only [Call.forget, phase]
  have ends : Ends call.advance system.cache fun result after =>
      (lineageOf system.cache).SameView (lineageOf after) ∧
        (∀ error, result = .error error → Good system.mappings after) ∧
        ∀ progress, result = .ok progress → ∃ mapping : DaxPageMapping,
          progress = .running { call with phase := .copy mapping } ∧
          Good (mapping :: system.mappings) after ∧
          mapping.branch = call.branch ∧ mapping.key = (call.node, pageOf call.cursor) ∧
          mapping.flags = call.job.flags := by
    simp only [Call.advance, phase, ends_bind]
    refine (ends_mapPage consistent.good call.branch call.node
      (pageOf call.cursor) call.job.flags).mono ?_
    rintro result after ⟨same, failed, mapped⟩
    cases result with
    | error error => exact ⟨same, fun _ _ => failed error rfl, not_ok⟩
    | ok mapping =>
      refine ⟨same, not_error, fun progress returned => ?_⟩
      cases returned
      exact ⟨mapping, rfl, mapped mapping rfl⟩
  cases executed : call.advance.exec system.cache with
  | mk result cache =>
    obtain ⟨same, failed, mapped⟩ := ends.of_exec executed
    cases result with
    | error error =>
      refine simulated_stopped consistent active executed (failed error rfl)
        (keeps_of_sameView same) (referenceOf_setCache same.copies) ?_
      simp only [Call.failure, phase]
      exact .stopped error
    | ok progress =>
      obtain ⟨mapping, rfl, good, owner, page, access⟩ := mapped progress rfl
      refine simulated_running consistent active executed (by rw [unmapped]; exact good)
        (keeps_of_sameView same) ⟨?_, (by rintro ⟨⟩), fun _ => ?_⟩
        (referenceOf_setCache same.copies) (.mapped forgotten)
      · intro named same
        cases same
        rw [unmapped]
        exact ⟨List.mem_cons_self, owner, page, access⟩
      · exact sound.goesOn (keeps_of_sameView same) (by rw [phase]; rintro ⟨⟩)

theorem simulated_unmapping (phase : call.phase = .unmap mapping) :
    Simulated system (.advance thread) := by
  have sound := consistent.calls thread call active
  have named : call.mapping? = some mapping := by simp only [Call.mapping?, phase]
  have forgotten : call.forget.phase = .unmap () := by simp only [Call.forget, phase]
  obtain ⟨member, owner, page, access⟩ := sound.holds mapping named
  have ends : Ends call.advance system.cache fun result after =>
      result = .ok ({ call with cursor := call.cursor + call.chunkLen }.loop) ∧
        Good (system.mappings.erase mapping) after ∧
        (lineageOf system.cache).SameView (lineageOf after) := by
    simp only [Call.advance, phase, ends_bind]
    rw [← owner]
    refine (ends_unmap consistent.good (mem_mappings member)).mono ?_
    rintro result after ⟨rfl, good, same⟩
    exact ⟨by rw [owner]; rfl, good, same⟩
  cases executed : call.advance.exec system.cache with
  | mk result cache =>
    obtain ⟨rfl, good, same⟩ := ends.of_exec executed
    have goodErased := good.perm (mappings_erase member)
    by_cases more : call.cursor + call.chunkLen < call.stop
    · rw [Call.loop, if_pos more] at executed
      refine simulated_running consistent active executed (by rw [named]; exact goodErased)
        (keeps_of_sameView same) ⟨(by rintro _ ⟨⟩), (by rintro ⟨⟩), fun _ => ?_⟩
        (referenceOf_setCache same.copies) (.continues forgotten more)
      obtain ⟨older, -, file⟩ :=
        sound.goesOn (keeps_of_sameView same) (by rw [phase]; rintro ⟨⟩)
      exact ⟨older, more, file⟩
    · rw [Call.loop, if_neg more] at executed
      refine simulated_finished consistent active executed (by rw [named]; exact goodErased)
        (keeps_of_sameView same) (referenceOf_setCache same.copies) ?_
      exact .finished forgotten (Nat.le_of_not_lt more)

theorem simulated_fetch (phase : call.phase = .copy mapping) {capacity : Nat}
    (job : call.job = .read capacity) : Simulated system (.advance thread) := by
  have sound := consistent.calls thread call active
  obtain ⟨member, owner, page, access, files, bytes, live, present, fits⟩ :=
    copying consistent active phase
  have named : call.mapping? = some mapping := by simp only [Call.mapping?, phase]
  have forgotten : call.forget.phase = .copy () := by simp only [Call.forget, phase]
  have quiet := grown_faults system.cache system.cache.faults.tail
  have good := quiet.good consistent.good
  have same := quiet.sameView consistent.good
  have ends : Ends call.advance system.cache fun result after =>
      after = { system.cache with faults := system.cache.faults.tail } ∧
        ∀ progress, result = .ok progress → progress = .running { call with
          collected := call.collected ++ (bytes.drop call.cursor).take call.chunkLen
          phase := .unmap mapping } := by
    simp only [Call.advance, phase, Call.copyChunk, job, ends_bind]
    refine SharedPageCache.ends_probe ?_ fun _ => ⟨rfl, not_ok⟩
    refine ⟨rfl, fun progress returned => ?_⟩
    cases returned
    rw [← page_read consistent (mem_mappings member) owner page live present fits]
  cases executed : call.advance.exec system.cache with
  | mk result cache =>
    obtain ⟨rfl, fetched⟩ := ends.of_exec executed
    cases result with
    | error error =>
      refine simulated_stopped consistent active executed good (keeps_of_sameView same)
        (referenceOf_setCache same.copies) ?_
      simp only [Call.failure, phase, job]
      exact .stopped error
    | ok progress =>
      obtain rfl := fetched progress rfl
      exact simulated_running consistent active executed (by rw [named]; exact good)
        (keeps_of_sameView same) (sound.copied (keeps_of_sameView same) phase)
        (referenceOf_setCache same.copies)
        (.fetched forgotten job ((file_of_copies live).trans present))

theorem simulated_patch (phase : call.phase = .copy mapping) {data : List UInt8}
    (job : call.job = .write data) : Simulated system (.advance thread) := by
  have sound := consistent.calls thread call active
  obtain ⟨member, owner, page, access, files, bytes, live, present, fits⟩ :=
    copying consistent active phase
  have named : call.mapping? = some mapping := by simp only [Call.mapping?, phase]
  have forgotten : call.forget.phase = .copy () := by simp only [Call.forget, phase]
  have writable : mapping.flags.write := by
    rw [access, job]
    rfl
  have lower := pageOf_le call.cursor
  have upper := lt_pageOf_add call.cursor
  have place : mapping.key.2 + call.withinPage = call.cursor := by
    rw [page]
    unfold Call.withinPage
    omega
  have short : ∀ count, call.withinPage + ((call.chunk data).take count).length ≤ pageSize := by
    intro count
    have chunkLe : (call.chunk data).length ≤ call.chunkLen := List.length_take_le _ _
    rw [List.length_take]
    unfold Call.chunkLen at chunkLe
    unfold Call.withinPage at *
    omega
  -- What a store of the first bytes of the chunk does.
  have stores : ∀ (count : Nat) (cache : SharedPageCache World Store Identity),
      SameStores system.cache cache → lineageOf cache =
        (lineageOf system.cache).setPage mapping.page
          ((system.cache.contents mapping.page).write call.withinPage
            ((call.chunk data).take count)) →
      Good system.mappings cache ∧ Keeps system.cache cache ∧
        referenceOf { system with cache } = (referenceOf system).patch call.branch call.node
          call.cursor ((call.chunk data).take count) := by
    intro count cache same written
    obtain ⟨good, keeps, filesThere, liveThere, copies⟩ :=
      stored_spec consistent member writable (short count) cache written same
    have patched := referenceOf_patch liveThere copies
    rw [owner, place, page] at patched
    exact ⟨good, keeps, patched⟩
  have ends : Ends call.advance system.cache fun result after =>
      SameStores system.cache after ∧
      ((result = .ok (.running { call with phase := .unmap mapping }) ∧
          lineageOf after = (lineageOf system.cache).setPage
            mapping.page ((system.cache.contents mapping.page).write call.withinPage
              (call.chunk data))) ∨
        ∃ fault, system.cache.faults.head?.join = some fault ∧
          result = .error (.io fault.error) ∧
          lineageOf after = (lineageOf system.cache).setPage
            mapping.page ((system.cache.contents mapping.page).write call.withinPage
              ((call.chunk data).take fault.progress))) := by
    simp only [Call.advance, phase, Call.copyChunk, job, ends_bind]
    refine (ends_writePage system.cache mapping.page call.withinPage (call.chunk data)).mono ?_
    rintro result after ⟨same, ⟨rfl, written⟩ | ⟨fault, head, rfl, written⟩⟩
    · exact ⟨same, .inl ⟨by rw [← job]; rfl, written⟩⟩
    · exact ⟨same, .inr ⟨fault, head, rfl, written⟩⟩
  cases executed : call.advance.exec system.cache with
  | mk result cache =>
    obtain ⟨same, ⟨rfl, written⟩ | ⟨fault, head, rfl, written⟩⟩ := ends.of_exec executed
    · rw [← List.take_length (l := call.chunk data)] at written
      obtain ⟨good, keeps, patched⟩ := stores _ cache same written
      rw [List.take_length] at patched
      exact simulated_running consistent active executed (by rw [named]; exact good) keeps
        (sound.copied keeps phase) patched (.patched forgotten job)
    · obtain ⟨good, keeps, patched⟩ := stores fault.progress cache same written
      refine simulated_stopped consistent active executed good keeps patched ?_
      simp only [Call.failure, phase, job, head, Option.map_some, Option.getD_some]
      rw [List.take_eq_take_min]
      exact .torn (.io fault.error) forgotten job (Nat.min_le_right _ _)

end Steps

variable [Std.LawfulEqOrd Identity] [DecidableEq Identity]
  [LawfulForkableStore World Store Identity] [FileMaker World Store]

theorem simulated_advance (consistent : Consistent system) (thread : Thread) :
    Simulated system (.advance thread) := by
  cases active : system.calls[thread]? with
  | none =>
    have stepped : system.step (.advance thread) = (system, .refused) := by
      simp only [step, advance, active]
    rw [Simulated, stepped]
    exact ⟨consistent, .refused _⟩
  | some call =>
    cases phase : call.phase with
    | measure => exact simulated_measure consistent active phase
    | map => exact simulated_map consistent active phase
    | copy mapping =>
      cases job : call.job with
      | read capacity => exact simulated_fetch consistent active phase job
      | write data => exact simulated_patch consistent active phase job
    | unmap mapping => exact simulated_unmapping consistent active phase

theorem simulated [LawfulFileMaker World Store Identity] (system : System World Store Identity)
    (consistent : Consistent system) (action : Action) : Simulated system action := by
  have good := consistent.good
  have grown : ∀ {operation : SharedM World Store Identity Unit},
      Moves Grown operation →
      Ends operation system.cache fun _ after => Good system.mappings after ∧
        (lineageOf system.cache).SameView (lineageOf after) :=
    fun moves => (moves system.cache).mono fun _ _ grown => ⟨grown.good good, grown.sameView good⟩
  cases action with
  | fork source => exact simulated_fork consistent source
  | removeBranch branch => exact simulated_removeBranch consistent branch
  | openNode branch node =>
    exact simulated_quiet consistent (grown (SharedPageCache.moves_openNode branch node)) trivial
      rfl
  | close branch node =>
    exact simulated_quiet consistent (grown (SharedPageCache.moves_close branch node)) trivial rfl
  | createFile branch name size => exact simulated_createFile consistent branch name size
  | metadata branch node => exact simulated_metadata consistent branch node
  | mapPage branch node offset flags => exact simulated_mapPage consistent branch node offset flags
  | store mapping place data => exact simulated_store consistent mapping place data
  | unmap branch mapping => exact simulated_unmap consistent branch mapping
  | sync branch node =>
    refine simulated_quiet consistent ?_ trivial rfl
    rw [SharedPageCache.sync_eq]
    exact SharedPageCache.ends_syncWanted good branch fun key => decide (key.1 = node)
  | syncAll branch =>
    refine simulated_quiet consistent ?_ trivial rfl
    exact SharedPageCache.ends_syncWanted good branch fun _ => true
  | begin thread job branch node offset =>
    exact simulated_begin consistent thread job branch node offset
  | advance thread => exact simulated_advance consistent thread
  | otherPages count =>
    exact simulated_quiet consistent (grown (SharedPageCache.moves_otherPages count)) trivial rfl

end System

end Minidox.Cache
