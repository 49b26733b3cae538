import Minidox.Cache.MemoryStore
import Minidox.Cache.PageCacheHandles

/-!
# Failing maps and unmaps

`map` and `unmap` count one page at a time, and between two pages they call the store. A call of
the store that fails leaves the pages before it counted, or released, and the others not.
-/

set_option autoImplicit false

namespace Minidox.Cache

open Foundation Attempt
open Std (ExtTreeMap)

def FileMmapInfo.writes (info : FileMmapInfo) (page : Nat) : Bool :=
  info.pages[page]?.any fun fmap => fmap.flags.write

namespace PageCache

variable {World Store α : Type}
variable {info : FileMmapInfo}

def marks (cache : PageCache World Store) (node : NodeId) (page : Nat) : Option (Nat × MapFlags) :=
  cache.files[node]?.bind fun info => info.pages[page]?.map fun fmap => (fmap.rc, fmap.flags)

def countOf (cache : PageCache World Store) (node : NodeId) (page : Nat) : Nat :=
  (cache.files[node]?.map fun info => info.rcOf page).getD 0

variable {cache : PageCache World Store}

theorem countOf_of_found {node : NodeId} (found : cache.files[node]? = some info) (page : Nat) :
    cache.countOf node page = info.rcOf page := by
  rw [countOf, found, Option.map_some, Option.getD_some]

theorem countOf_eq_marks (cache : PageCache World Store) (node : NodeId) (page : Nat) :
    cache.countOf node page = ((cache.marks node page).map Prod.fst).getD 0 := by
  unfold countOf marks
  cases cache.files[node]? with
  | none => rfl
  | some info =>
    rw [Option.map_some, Option.getD_some, Option.bind_some, Option.map_map]
    rfl

structure SameCounts (before after : PageCache World Store) : Prop where
  marks : ∀ node page, after.marks node page = before.marks node page
  inUse : ∀ node, after.nodeInUse node = before.nodeInUse node

instance : @Std.Refl (PageCache World Store) SameCounts := ⟨fun _ => ⟨fun _ _ => rfl, fun _ => rfl⟩⟩

instance : IsTrans (PageCache World Store) SameCounts where
  trans _ _ _ before after :=
    ⟨fun node page => (after.marks node page).trans (before.marks node page),
    fun node => (after.inUse node).trans (before.inUse node)⟩

theorem sameCounts_of_files {before after : PageCache World Store}
    (files : after.files = before.files) : SameCounts before after :=
  ⟨fun node page => by rw [PageCache.marks, files]; rfl,
    fun node => by rw [nodeInUse, files]; rfl⟩

section Failures

instance : @SpendsFaults World Store SameCounts where
  tail _ := sameCounts_of_files rfl

theorem sameCounts_modifyInfo (node : NodeId) {change : FileMmapInfo → FileMmapInfo}
    (pages : ∀ info, (change info).pages = info.pages)
    (openFds : ∀ info, (change info).openFds = info.openFds) :
    Moves SameCounts (modifyInfo node change : PageCacheM World Store Unit) := by
  intro cache
  rw [ends_modifyInfo]
  refine ⟨fun other page => ?_, fun other => ?_⟩
  · simp only [PageCache.marks, ExtTreeMap.getElem?_modify]
    split
    next same =>
      rw [← Std.LawfulEqOrd.compare_eq_iff_eq.mp same, Option.bind_map]
      simp only [Function.comp_def, pages]
    next => rfl
  · rw [nodeInUse_modify]
    split
    next same =>
      subst same
      simp only [nodeInUse, FileMmapInfo.inUse, pages, openFds]
      rfl
    next => rfl

theorem sameCounts_loadPage [NodeStore World Store] (node page : Nat) :
    Moves SameCounts (loadPage node page : PageCacheM World Store Unit) :=
  moves_loadPage_of fun _ => moves_writeAllAt_of fun _ _ =>
    sameCounts_modifyInfo node (fun _ => rfl) fun _ => rfl

theorem sameCounts_ensureSize (node size : Nat) :
    Moves SameCounts (ensureSize node size : PageCacheM World Store Unit) := by
  have grows : Moves SameCounts (modifyInfo node fun info => { info with size } :
      PageCacheM World Store Unit) := sameCounts_modifyInfo node (fun _ => rfl) fun _ => rfl
  exact moves_ensureSize_of fun cache _ _ _ => grows cache

/-!
## What the calls of the store depend on
-/

/-- The caches go on alike as far as the store and the backing file of one node are
concerned. -/
structure Alike (node : NodeId) (left right : PageCache World Store) : Prop where
  world : left.world = right.world
  store : left.store = right.store
  faults : left.faults = right.faults
  backing : left.files[node]?.map (fun info => (info.backing, info.size)) =
    right.files[node]?.map fun info => (info.backing, info.size)

variable {node : NodeId}

theorem alike_refl (cache : PageCache World Store) : Alike node cache cache := ⟨rfl, rfl, rfl, rfl⟩

variable {left right : PageCache World Store}

theorem Alike.modify (alike : Alike node left right) {change : FileMmapInfo → FileMmapInfo}
    (backing : ∀ info, (change info).backing = info.backing)
    (size : ∀ info, (change info).size = info.size) :
    Alike node { left with files := left.files.modify node change } right := by
  refine ⟨alike.world, alike.store, alike.faults, Eq.trans ?_ alike.backing⟩
  rw [ExtTreeMap.getElem?_modify_self, Option.map_map]
  simp only [Function.comp_def, backing, size]

theorem lockstep_nextFault :
    Lockstep (Alike node) (nextFault : PageCacheM World Store (Option Fault)) nextFault := by
  intro left right alike
  refine ⟨congrArg (fun faults : Faults => Except.ok faults.head?.join) alike.faults, ?_⟩
  exact ⟨alike.world, alike.store, congrArg List.tail alike.faults, alike.backing⟩

theorem lockstep_probe : Lockstep (Alike node) (probe : PageCacheM World Store Unit) probe := by
  refine lockstep_bind lockstep_nextFault fun fault => ?_
  cases fault with
  | none => exact lockstep_pure ()
  | some fault => exact lockstep_throw _

theorem lockstep_askStore (question : Store → Except IoError α) :
    Lockstep (Alike node) (askStore question : PageCacheM World Store α) (askStore question) := by
  refine lockstep_bind lockstep_probe fun _ => lockstep_get fun left right alike => ?_
  rw [alike.store]
  exact lockstep_orIo _

theorem lockstep_callStore (operation : Attempt (World × Store) IoError α) :
    Lockstep (Alike node) (callStore operation : PageCacheM World Store α)
      (callStore operation) := by
  refine lockstep_bind lockstep_probe fun _ => lockstep_within ?_ ?_
  · intro left right alike
    rw [alike.world, alike.store]
  · intro left right inner alike
    exact ⟨rfl, rfl, alike.faults, alike.backing⟩

theorem lockstep_modifyInfo {change : FileMmapInfo → FileMmapInfo}
    (depends : ∀ left right : FileMmapInfo, left.backing = right.backing → left.size = right.size →
      (change left).backing = (change right).backing ∧ (change left).size = (change right).size) :
    Lockstep (Alike node) (modifyInfo node change : PageCacheM World Store Unit)
      (modifyInfo node change) := by
  refine lockstep_modify fun left right alike => ⟨alike.world, alike.store, alike.faults, ?_⟩
  have same := alike.backing
  simp only [ExtTreeMap.getElem?_modify_self, Option.map_map]
  cases foundLeft : left.files[node]? with
  | none =>
    cases foundRight : right.files[node]? with
    | none => rfl
    | some info => rw [foundLeft, foundRight] at same; cases same
  | some info =>
    cases foundRight : right.files[node]? with
    | none => rw [foundLeft, foundRight] at same; cases same
    | some other =>
      rw [foundLeft, foundRight] at same
      obtain ⟨backing, size⟩ := Prod.mk.inj (Option.some.inj same)
      obtain ⟨backingNow, sizeNow⟩ := depends info other backing size
      simp only [Option.map_some, Function.comp_apply, backingNow, sizeNow]

theorem lockstep_fileInfo {left right : FileMmapInfo → PageCacheM World Store α}
    (goesOn : ∀ info other : FileMmapInfo, info.backing = other.backing → info.size = other.size →
      Lockstep (Alike node) (left info) (right other)) :
    Lockstep (Alike node) (fileInfo node >>= left) (fileInfo node >>= right) := by
  rw [fileInfo, bind_assoc, bind_assoc]
  refine lockstep_get fun first second alike => ?_
  have same := alike.backing
  cases foundLeft : first.files[node]? with
  | none =>
    cases foundRight : second.files[node]? with
    | none => exact lockstep_throw _
    | some info => rw [foundLeft, foundRight] at same; cases same
  | some info =>
    cases foundRight : second.files[node]? with
    | none => rw [foundLeft, foundRight] at same; cases same
    | some other =>
      rw [foundLeft, foundRight] at same
      obtain ⟨backing, size⟩ := Prod.mk.inj (Option.some.inj same)
      rw [pure_bind, pure_bind]
      exact goesOn info other backing size

theorem lockstep_writeAllAt (offset count : Nat) (source : ByteMap) :
    Lockstep (Alike node) (writeAllAt node offset count source : PageCacheM World Store Unit)
      (writeAllAt node offset count source) := by
  refine lockstep_bind lockstep_nextFault fun fault => ?_
  cases fault with
  | none => exact lockstep_modifyInfo fun _ _ backing size => ⟨by rw [backing], size⟩
  | some fault =>
    refine lockstep_bind ?_ fun _ => lockstep_throw _
    exact lockstep_modifyInfo fun _ _ backing size => ⟨by rw [backing], size⟩

theorem ends_ensureSize_entry (found : cache.files[node]? = some info) (stop : Nat) :
    Ends (ensureSize node stop) cache fun _ after =>
      ∃ size, after.files[node]? = some { info with size } := by
  simp only [ensureSize, ends_bind]
  refine ends_fileInfo_of found ?_
  refine ends_onlyIf.mpr ⟨fun _ => ?_, fun _ => ⟨info.size, found⟩⟩
  rw [ends_bind]
  refine ends_probe ?_ fun _ => ⟨info.size, found⟩
  rw [ends_modifyInfo]
  exact ⟨stop, by simp [found]⟩

theorem SameCounts.countOf {before after : PageCache World Store} (same : SameCounts before after)
    (node : NodeId) (page : Nat) : after.countOf node page = before.countOf node page := by
  rw [countOf_eq_marks, countOf_eq_marks, same.marks]

variable [NodeStore World Store]

theorem lockstep_loadPage (page : Nat) :
    Lockstep (Alike node) (loadPage node page : PageCacheM World Store Unit) (loadPage node page) :=
  lockstep_bind (lockstep_askStore _) fun _ => lockstep_writeAllAt _ _ _

theorem lockstep_syncPage (page : Nat) :
    Lockstep (Alike node) (syncPage node page : PageCacheM World Store Unit)
      (syncPage node page) := by
  refine lockstep_bind (lockstep_askStore _) fun length => lockstep_onlyIf ?_
  refine lockstep_fileInfo fun info other backing size => ?_
  refine lockstep_bind lockstep_probe fun _ => ?_
  rw [FileMmapInfo.readExactAt, FileMmapInfo.readExactAt, backing, size]
  refine lockstep_bind (lockstep_orIo _) fun bytes => ?_
  refine lockstep_bind (lockstep_callStore _) fun written => ?_
  exact lockstep_bind lockstep_require fun _ => lockstep_modifyInfo fun _ _ backing size =>
    ⟨backing, size⟩

/-!
## Mapping
-/

theorem ends_loadPage_entry (found : cache.files[node]? = some info) (page : Nat) :
    Ends (loadPage node page) cache fun _ after =>
      ∃ backing, after.files[node]? = some { info with backing } := by
  simp only [loadPage, writeAllAt, ends_bind]
  refine ends_askStore (fun bytes _ => ?_) fun _ => ⟨info.backing, found⟩
  simp only [ends_nextFault]
  cases cache.faults.tail.head?.join with
  | none =>
    simp only [ends_modifyInfo]
    exact ⟨info.backing.blit page pageSize (ByteMap.ofList bytes), by simp [found]⟩
  | some fault =>
    simp only [ends_bind, ends_modifyInfo, ends_throw]
    exact ⟨info.backing.blit page (min fault.progress pageSize) (ByteMap.ofList bytes),
      by simp [found]⟩

theorem mustLoad_addMapping_of_ne (info : FileMmapInfo) (backing : ByteMap) {page other : Nat}
    (flags : MapFlags) (different : other ≠ page) :
    ({ info with backing }.addMapping page flags).mustLoad other = info.mustLoad other := by
  simp only [FileMmapInfo.mustLoad, FileMmapInfo.addMapping, ExtTreeMap.getElem?_alter]
  simp [different.symm]

theorem ends_mapPages_loads {pages : List Nat} (distinct : pages.Nodup) (flags : MapFlags)
    {loads : Nat → Bool} (found : left.files[node]? = some info) (alike : Alike node left right)
    (needed : ∀ page ∈ pages, info.mustLoad page = loads page) :
    Ends (forM pages (mapOne node flags)) left fun result _ =>
      result = ((forM (pages.filter loads) (loadPage node)).exec right).1 := by
  induction pages generalizing left right info with
  | nil => rfl
  | cons page rest ih =>
    obtain ⟨fresh, distinctRest⟩ := List.nodup_cons.mp distinct
    have goesOn : ∀ {middle other : PageCache World Store} {backing : ByteMap},
        middle.files[node]? = some { info with backing } → Alike node middle other →
        Ends (forM rest (mapOne node flags))
          { middle with files := middle.files.modify node fun info => info.addMapping page flags }
          fun result _ => result = ((forM (rest.filter loads) (loadPage node)).exec other).1 := by
      intro middle other backing foundMiddle alikeMiddle
      have counted : (middle.files.modify node fun info => info.addMapping page flags)[node]? =
          some ({ info with backing }.addMapping page flags) := by
        rw [ExtTreeMap.getElem?_modify_self, foundMiddle, Option.map_some]
      refine ih distinctRest counted (alikeMiddle.modify (fun _ => rfl) fun _ => rfl)
        fun later member => ?_
      have different : later ≠ page := fun same => fresh (same ▸ member)
      rw [mustLoad_addMapping_of_ne info backing flags different]
      exact needed later (List.mem_cons_of_mem _ member)
    have here := needed page List.mem_cons_self
    simp only [List.forM_cons, mapOne, ends_bind]
    refine ends_fileInfo_of found ?_
    cases loaded : loads page with
    | false =>
      rw [List.filter_cons_of_neg (by simp [loaded])]
      simp only [onlyIf, here, loaded, Bool.false_eq_true, if_false, ends_pure, ends_modifyInfo]
      exact goesOn found alike
    | true =>
      rw [List.filter_cons_of_pos loaded, List.forM_cons, exec_bind]
      simp only [onlyIf, here, loaded, if_true]
      have both : Ends (loadPage node page) left fun result after =>
          result = ((loadPage node page).exec right).1 ∧
            Alike node after ((loadPage node page).exec right).2 :=
        lockstep_loadPage page left right alike
      refine ((ends_loadPage_entry found page).and both).mono ?_
      rintro result middle ⟨⟨backing, foundMiddle⟩, same, alikeMiddle⟩
      cases executed : (loadPage node page).exec right with
      | mk outcome other =>
        rw [executed] at same alikeMiddle
        obtain rfl : result = outcome := same
        cases result with
        | error error => rfl
        | ok done => exact goesOn foundMiddle alikeMiddle

/-- The backing file can be made as long as the range, and the pages that are not cached can be
loaded. -/
def Loads (cache : PageCache World Store) (node stop : Nat) (pages : List Nat) : Prop :=
  ∃ info, cache.files[node]? = some info ∧
    Ends (do
      ensureSize node stop
      forM (pages.filter info.mustLoad) (loadPage node)) cache fun result _ => result = .ok ()

/-- A `map` that fails leaves all counts as they were. -/
def MapIsAtomic (cache : PageCache World Store) (node offset len : Nat) (flags : MapFlags) : Prop :=
  Ends (map node offset len flags) cache fun result after =>
    ∀ error, result = .error error → SameCounts cache after

/-- The first page of a range can be loaded only if all of its pages can. -/
def LoadsTogether (cache : PageCache World Store) (node offset len : Nat) (flags : MapFlags) :
    Prop :=
  ∀ stop, len ≠ 0 → offset % pageSize = 0 → flags.read || flags.write →
    mapEnd offset len = some stop →
    cache.Loads node stop [offset] → cache.Loads node stop (pageOffsets offset stop)

theorem ends_mapOne_counts (flags : MapFlags) (page : Nat) (cache : PageCache World Store)
    (present : node ∈ cache.files) :
    Ends (mapOne node flags page) cache fun result after =>
      match result with
      | .ok _ => cache.countOf node page < after.countOf node page
      | .error _ => SameCounts cache after := by
  have failing : Ends (mapOne node flags page) cache fun result after =>
      ∀ error, result = .error error → SameCounts cache after := by
    rw [mapOne, ends_bind]
    refine ends_fileInfo (fun info found => ?_) fun _ _ _ => Std.Refl.refl cache
    simp only [ends_bind]
    have loads : Moves SameCounts (onlyIf (info.mustLoad page) (loadPage node page) :
        PageCacheM World Store Unit) := moves_onlyIf (sameCounts_loadPage node page)
    refine (loads cache).mono fun result after same => ?_
    cases result with
    | ok done => exact fun _ => by rintro ⟨⟩
    | error error => exact fun _ _ => same
  refine (failing.and (ends_mapOne node flags page cache)).mono ?_
  rintro result after ⟨failed, -, counted⟩
  cases result with
  | error error => exact failed error rfl
  | ok done =>
    obtain ⟨info, found⟩ := Option.isSome_iff_exists.mp
      (ExtTreeMap.mem_iff_isSome_getElem?.mp present)
    obtain ⟨next, foundNext, kept⟩ := (counted rfl).1.2 node info found
    have more := kept.counts page
    rw [countOf_of_found found, countOf_of_found foundNext]
    simp only [single, and_self, if_true, Pi.zero_apply] at more
    omega

theorem ends_mapPages_counts (flags : MapFlags) (page : Nat) (rest : List Nat)
    (cache : PageCache World Store) (present : node ∈ cache.files) :
    Ends (forM (page :: rest) (mapOne node flags)) cache fun _ after =>
      match ((mapOne node flags page).exec cache).1 with
      | .ok _ => cache.countOf node page < after.countOf node page
      | .error _ => SameCounts cache after := by
  have first := (ends_mapOne_counts flags page cache present).and
    (ends_mapOne node flags page cache)
  rw [List.forM_cons, ends_bind]
  refine Ends.elim (first.mono fun result middle first executed => ?_)
  rw [executed, Ends, executed]
  cases result with
  | error error => exact first.1
  | ok done =>
    obtain ⟨more, steady, -⟩ := first
    have goesOn := ends_mapPages node flags rest middle
    refine Ends.mono goesOn fun _ after further => ?_
    change cache.countOf node page < after.countOf node page
    obtain ⟨info, found⟩ := Option.isSome_iff_exists.mp
      (ExtTreeMap.mem_iff_isSome_getElem?.mp present)
    obtain ⟨second, foundSecond, -⟩ := steady.2 node info found
    obtain ⟨third, foundThird, kept⟩ := further.1.2 node second foundSecond
    have still := kept.counts page
    simp only [Pi.zero_apply, Nat.add_zero] at still
    rw [countOf_of_found foundSecond] at more
    rw [countOf_of_found foundThird]
    exact Nat.lt_of_lt_of_le more still

theorem loads_iff {middle : PageCache World Store} {stop : Nat}
    (found : cache.files[node]? = some info)
    (executed : (ensureSize node stop).exec cache = (.ok (), middle)) (pages : List Nat) :
    cache.Loads node stop pages ↔
      ((forM (pages.filter info.mustLoad) (loadPage node)).exec middle).1 = .ok () := by
  have loaded : Ends (do
      ensureSize node stop
      forM (pages.filter info.mustLoad) (loadPage node)) cache (fun result _ => result = .ok ()) ↔
      ((forM (pages.filter info.mustLoad) (loadPage node)).exec middle).1 = .ok () := by
    rw [ends_bind, Ends, executed]
    rfl
  rw [← loaded]
  constructor
  · rintro ⟨same, foundSame, fine⟩
    obtain rfl : info = same := Option.some.inj (found.symm.trans foundSame)
    exact fine
  · exact fun fine => ⟨info, found, fine⟩

theorem ends_mapPages_iff {middle : PageCache World Store} {offset stop : Nat} (flags : MapFlags)
    (below : offset < stop) (found : cache.files[node]? = some info)
    (executed : (ensureSize node stop).exec cache = (.ok (), middle)) :
    Ends (forM (pageOffsets offset stop) (mapOne node flags)) middle fun result after =>
      (result = .ok () ↔ cache.Loads node stop (pageOffsets offset stop)) ∧
        (cache.Loads node stop [offset] → cache.countOf node offset < after.countOf node offset) ∧
        (¬ cache.Loads node stop [offset] → SameCounts cache after) := by
  have sized := ((ends_ensureSize_entry found stop).and
    (sameCounts_ensureSize node stop cache)).of_exec executed
  obtain ⟨⟨size, foundMiddle⟩, same⟩ := sized
  have listed := pageOffsets_cons below
  have distinct := pageOffsets_nodup offset stop
  have whole := ends_mapPages_loads distinct flags foundMiddle (alike_refl middle)
    (fun page _ => (rfl : _ = info.mustLoad page))
  have first := ends_mapPages_loads (List.nodup_singleton offset) flags foundMiddle
    (alike_refl middle) (fun page _ => (rfl : _ = info.mustLoad page))
  have counts := ends_mapPages_counts flags offset (pageOffsets (offset + pageSize) stop) middle
    (TreeMap.mem_of_getElem? foundMiddle)
  rw [← listed] at counts
  refine (whole.and counts).mono ?_
  rintro result after ⟨loaded, counted⟩
  rw [loads_iff found executed, loads_iff found executed, loaded]
  refine ⟨Iff.rfl, ?_⟩
  rw [List.forM_cons, Ends, exec_bind] at first
  cases outcome : (mapOne node flags offset).exec middle with
  | mk answer next =>
    rw [outcome] at first counted
    cases answer with
    | ok done =>
      refine ⟨fun _ => ?_, fun failed => absurd first.symm failed⟩
      rw [← same.countOf]
      exact counted
    | error error =>
      refine ⟨fun fine => absurd (first.trans fine) (by rintro ⟨⟩), fun _ => ?_⟩
      exact IsTrans.trans _ _ _ same counted

theorem mapIsAtomic_iff (cache : PageCache World Store) (node offset len : Nat) (flags : MapFlags) :
    cache.MapIsAtomic node offset len flags ↔ cache.LoadsTogether node offset len flags := by
  have unchanged : ∀ {result : Except CacheError DaxMapping},
      ∀ error, result = .error error → SameCounts cache cache := fun _ _ => Std.Refl.refl cache
  refine ends_iff.mp ?_
  simp only [map, ends_bind]
  refine ends_require.mpr ⟨fun nonempty => ?_, fun empty => iff_of_true unchanged
    fun _ nonempty => absurd nonempty empty⟩
  refine ends_require.mpr ⟨fun aligned => ?_, fun unaligned => iff_of_true unchanged
    fun _ _ aligned => absurd aligned unaligned⟩
  refine ends_require.mpr ⟨fun used => ?_, fun unused => iff_of_true unchanged
    fun _ _ _ used => absurd used unused⟩
  cases multiple : Word64.checkedNextMultipleOf len pageSize with
  | none =>
    refine iff_of_true unchanged fun stop _ _ _ known => ?_
    rw [mapEnd, multiple] at known
    cases known
  | some alignedLen =>
    simp only [orInvalid, ends_pure]
    cases added : Word64.checkedAdd offset alignedLen with
    | none =>
      refine iff_of_true unchanged fun stop _ _ _ known => ?_
      rw [mapEnd, multiple, Option.bind_some, added] at known
      cases known
    | some stop =>
      have below : offset < stop := by
        obtain rfl := Word64.checkedAdd_eq_some added
        obtain ⟨rfl, -⟩ := Word64.checkedNextMultipleOf_eq_some multiple
        unfold Word64.nextMultipleOf pageSize
        omega
      have only : cache.LoadsTogether node offset len flags ↔
          (cache.Loads node stop [offset] →
            cache.Loads node stop (pageOffsets offset stop)) := by
        have known : mapEnd offset len = some stop := by
          rw [mapEnd, multiple, Option.bind_some, added]
        constructor
        · exact fun together => together stop nonempty aligned used known
        · intro together other _ _ _ knownOther
          obtain rfl : stop = other := Option.some.inj (known.symm.trans knownOther)
          exact together
      simp only [ends_pure]
      rw [only]
      cases found : cache.files[node]? with
      | none =>
        simp only [ensureSize, ends_bind]
        refine ends_fileInfo (fun info present => ?_) fun _ => ?_
        · rw [found] at present
          cases present
        · refine iff_of_true unchanged fun loads => ?_
          obtain ⟨info, present, -⟩ := loads
          rw [found] at present
          cases present
      | some info =>
        refine Ends.elim ((sameCounts_ensureSize node stop cache).mono
          fun result middle same executed => ?_)
        rw [Ends, executed]
        cases result with
        | error error =>
          refine iff_of_true (fun _ _ => same) fun loads => ?_
          obtain ⟨_, _, fine⟩ := loads
          rw [ends_bind, Ends, executed] at fine
          cases fine
        | ok done =>
          refine (ends_mapPages_iff flags below found executed).mono ?_
          rintro result after ⟨finished, counted, kept⟩
          cases result with
          | ok done =>
            exact iff_of_true (fun _ => (by rintro ⟨⟩)) fun _ => finished.mp rfl
          | error error =>
            constructor
            · intro atomic first
              have same := (atomic error rfl).countOf node offset
              have more := counted first
              omega
            · intro together _ _
              refine kept fun first => ?_
              cases finished.mpr (together first)

/-!
## Unmapping
-/

theorem writes_of_restamped {info next : FileMmapInfo} (same : Restamped node info next)
    (page : Nat) : next.writes page = info.writes page := by
  have flags := congrArg (Option.any fun mark : Nat × MapFlags => mark.2.write) (same.pages page)
  rwa [Option.any_map, Option.any_map] at flags

theorem rcOf_setRc {page : Nat} (cached : 0 < info.rcOf page)
    (rc other : Nat) :
    (info.setRc page rc).rcOf other = if other = page then rc else info.rcOf other := by
  simp only [FileMmapInfo.rcOf, FileMmapInfo.setRc, ExtTreeMap.getElem?_modify]
  by_cases here : other = page
  · subst here
    unfold FileMmapInfo.rcOf at cached
    cases found : info.pages[other]? with
    | none => simp [found] at cached
    | some fmap => simp
  · simp [here, Ne.symm here]

theorem writes_setRc (info : FileMmapInfo) (page rc other : Nat) :
    (info.setRc page rc).writes other = info.writes other := by
  simp only [FileMmapInfo.writes, FileMmapInfo.setRc, ExtTreeMap.getElem?_modify]
  split
  next same => rw [← Std.LawfulEqOrd.compare_eq_iff_eq.mp same, Option.any_map]
  next => rfl

theorem ends_unmapOne_counts {page : Nat} (found : left.files[node]? = some info)
    (alike : Alike node left right) (counted : 0 < info.rcOf page) :
    Ends (unmapOne node page) left fun result after =>
      result = ((onlyIf (info.writes page) (syncPage node page)).exec right).1 ∧
        Alike node after ((onlyIf (info.writes page) (syncPage node page)).exec right).2 ∧
        ∃ next, after.files[node]? = some next ∧
          (∀ other, next.writes other = info.writes other) ∧
          (result = .ok () → ∀ other, next.rcOf other =
            if other = page then info.rcOf page - 1 else info.rcOf other) ∧
          (∀ error, result = .error error → ∀ other, next.rcOf other = info.rcOf other) := by
  rw [unmapOne, ends_bind]
  refine ends_fileInfo_of found ?_
  dsimp only
  cases cached : info.pages[page]? with
  | none =>
    rw [FileMmapInfo.rcOf, cached] at counted
    exact absurd counted (Nat.lt_irrefl 0)
  | some fmap =>
    have writes : info.writes page = fmap.flags.write := by
      rw [FileMmapInfo.writes, cached, Option.any_some]
    have rc : info.rcOf page = fmap.rc := by
      rw [FileMmapInfo.rcOf, cached]
      rfl
    have synced : Ends (onlyIf (info.writes page) (syncPage node page)) left fun result after =>
        result = ((onlyIf (info.writes page) (syncPage node page)).exec right).1 ∧
          Alike node after ((onlyIf (info.writes page) (syncPage node page)).exec right).2 :=
      lockstep_onlyIf (lockstep_syncPage page) left right alike
    have stamps : Ends (onlyIf (info.writes page) (syncPage node page)) left fun _ after =>
        Follows Restamped left after :=
      moves_onlyIf (moves_syncPage (fun _ => moves_callStore _)
        (moves_modifyInfo node fun info => restamped_setVersion node info page)) left
    rw [writes] at synced stamps ⊢
    simp only [ends_bind]
    refine (synced.and stamps).mono ?_
    rintro result middle ⟨⟨same, alikeMiddle⟩, stamped⟩
    obtain ⟨next, foundNext, restamped⟩ := stamped.2 node info found
    cases result with
    | error error =>
      exact ⟨same, alikeMiddle, next, foundNext, writes_of_restamped restamped, (by rintro ⟨⟩),
        fun _ _ => restamped.rcOf⟩
    | ok done =>
      have released : Word64.checkedSub fmap.rc 1 = some (fmap.rc - 1) := by
        have positive : 1 ≤ fmap.rc := rc ▸ counted
        rw [Word64.checkedSub, if_pos positive]
      simp only [released, ends_modifyInfo]
      have foundAfter : (middle.files.modify node fun info =>
          info.setRc page (fmap.rc - 1))[node]? = some (next.setRc page (fmap.rc - 1)) := by
        rw [ExtTreeMap.getElem?_modify_self, foundNext, Option.map_some]
      refine ⟨same, alikeMiddle.modify (fun _ => rfl) (fun _ => rfl), _, foundAfter, ?_, ?_,
        not_error⟩
      · intro other
        rw [writes_setRc, writes_of_restamped restamped]
      · intro _ other
        rw [rcOf_setRc (by rw [restamped.rcOf]; exact counted), rc, restamped.rcOf]

/-- The loop of `unmap` succeeds exactly when the write-backs that it makes do. If it fails, a
page stays counted. -/
theorem ends_unmapPages_counts {pages : List Nat} (distinct : pages.Nodup) {writes : Nat → Bool}
    (found : left.files[node]? = some info) (alike : Alike node left right)
    (counted : ∀ page ∈ pages, 0 < info.rcOf page)
    (needed : ∀ page ∈ pages, info.writes page = writes page) :
    Ends (forM pages (unmapOne node)) left fun result after =>
      result = ((forM (pages.filter writes) (syncPage node)).exec right).1 ∧
        (result = .ok () → ∀ page, after.countOf node page +
          (if page ∈ pages then 1 else 0) = info.rcOf page) ∧
        (∀ error, result = .error error →
          ∃ page ∈ pages, after.countOf node page = info.rcOf page) := by
  induction pages generalizing left right info with
  | nil => exact ⟨rfl, fun _ page => by simp [countOf_of_found found], not_error⟩
  | cons page rest ih =>
    obtain ⟨fresh, distinctRest⟩ := List.nodup_cons.mp distinct
    have written : forM ((page :: rest).filter writes) (syncPage node) =
        (onlyIf (info.writes page) (syncPage node page) >>= fun _ =>
          forM (rest.filter writes) (syncPage node) : PageCacheM World Store Unit) := by
      rw [needed page List.mem_cons_self, onlyIf]
      cases marked : writes page with
      | true => rw [List.filter_cons_of_pos marked, List.forM_cons, if_pos rfl]
      | false =>
        rw [List.filter_cons_of_neg (by simp [marked]), if_neg Bool.false_ne_true, pure_bind]
    rw [List.forM_cons, ends_bind, written]
    refine (ends_unmapOne_counts found alike (counted page List.mem_cons_self)).mono ?_
    rintro result middle ⟨same, alikeMiddle, next, foundNext, writesNext, released, kept⟩
    rw [exec_bind]
    cases executed : (onlyIf (info.writes page) (syncPage node page)).exec right with
    | mk outcome other =>
      rw [executed] at same alikeMiddle
      obtain rfl : result = outcome := same
      cases result with
      | error error =>
        refine ⟨rfl, (by rintro ⟨⟩), fun _ _ => ⟨page, List.mem_cons_self, ?_⟩⟩
        rw [countOf_of_found foundNext]
        exact kept error rfl page
      | ok done =>
        have apart : ∀ later ∈ rest, later ≠ page := fun later member equal =>
          fresh (equal ▸ member)
        have unmoved : ∀ later ∈ rest, next.rcOf later = info.rcOf later := by
          intro later member
          rw [released rfl, if_neg (apart later member)]
        refine (ih distinctRest foundNext alikeMiddle (fun later member => ?_)
          fun later member => ?_).mono ?_
        · rw [unmoved later member]
          exact counted later (List.mem_cons_of_mem _ member)
        · rw [writesNext]
          exact needed later (List.mem_cons_of_mem _ member)
        · rintro last after ⟨finished, down, stays⟩
          refine ⟨finished, fun done later => ?_, fun error failed => ?_⟩
          · have further := down done later
            rw [released rfl] at further
            by_cases here : later = page
            · subst here
              have positive := counted later List.mem_cons_self
              rw [if_neg fresh, if_pos rfl] at further
              rw [if_pos List.mem_cons_self]
              omega
            · rw [if_neg here] at further
              simp only [List.mem_cons, here, false_or]
              exact further
          · obtain ⟨later, member, still⟩ := stays error failed
            exact ⟨later, List.mem_cons_of_mem _ member, by rw [still, unmoved later member]⟩

namespace Session

/-- How often a page is counted that no mapping of the client can release. -/
def orphans (session : Session World Store) (node : NodeId) (page : Nat) : Nat :=
  session.cache.countOf node page - coverage session.live node page

/-- An `unmap` that fails releases all pages of the mapping or none of them. As it takes the
mapping away, it must also leave no page counted for it, or the node would stay in use for
good. -/
def UnmapIsAtomic (session : Session World Store) (mapping : DaxMapping) : Prop :=
  Ends (PageCache.unmap mapping) session.cache fun result after =>
    ∀ error, result = .error error →
      ((∀ page ∈ mapping.pages,
          after.countOf mapping.node page + 1 = session.cache.countOf mapping.node page) ∨
        ∀ page ∈ mapping.pages,
          after.countOf mapping.node page = session.cache.countOf mapping.node page) ∧
      ∀ page ∈ mapping.pages, orphans { cache := after, live := session.live.erase mapping }
        mapping.node page = session.orphans mapping.node page

/-- The pages of the mapping that are cached for writing can be written back. -/
def WritesBack (session : Session World Store) (mapping : DaxMapping) : Prop :=
  ∃ info, session.cache.files[mapping.node]? = some info ∧
    Ends (forM (mapping.pages.filter info.writes) (syncPage mapping.node)) session.cache
      fun result _ => result = .ok ()

theorem unmapIsAtomic_iff {session : Session World Store} (valid : session.Valid)
    {mapping : DaxMapping} (held : mapping ∈ session.live) :
    session.UnmapIsAtomic mapping ↔ session.WritesBack mapping := by
  have mapped := valid.mapped mapping held
  obtain ⟨info, found, counted⟩ := valid.counts held
  have before := countOf_of_found found
  have distinct : mapping.pages.Nodup := pageOffsets_nodup _ _
  have covered : ∀ page ∈ mapping.pages,
      coverage (session.live.erase mapping) mapping.node page + 1 =
        coverage session.live mapping.node page ∧
      coverage session.live mapping.node page ≤ info.rcOf page := by
    intro page member
    have split := coverage_erase held mapping.node page
    rw [visits, if_pos rfl, List.count_eq_one_of_mem distinct member] at split
    exact ⟨split, valid.counted mapping.node page info found⟩
  have writesBack : session.WritesBack mapping ↔
      ((forM (mapping.pages.filter info.writes) (syncPage mapping.node)).exec session.cache).1 =
        .ok () := by
    constructor
    · rintro ⟨same, foundSame, fine⟩
      obtain rfl : info = same := Option.some.inj (found.symm.trans foundSame)
      exact fine
    · exact fun fine => ⟨info, found, fine⟩
  refine ends_iff.mp ?_
  rw [writesBack]
  simp only [PageCache.unmap, ends_bind, ends_get]
  refine ends_require.mpr ⟨fun _ => ?_, fun foreign => absurd mapped.owner foreign⟩
  refine ends_fileInfo (fun _ _ => ?_) fun absent => by rw [found] at absent; cases absent
  refine ends_orInvalid_some mapped.bounded ?_
  refine ((ends_unmapPages_counts (pageOffsets_nodup _ _) found (alike_refl session.cache) counted
    (fun page _ => rfl)).and (ends_unmapPages unguarded mapping.node _ session.cache)).mono ?_
  rintro result middle ⟨⟨same, released, stays⟩, -, follows⟩
  cases result with
  | error error =>
    -- the page whose write-back failed is counted for a mapping that is gone
    obtain ⟨page, member, still⟩ := stays error rfl
    refine iff_of_false (fun atomic => ?_) fun fine => ?_
    · have orphaned := (atomic error rfl).2 page member
      obtain ⟨split, within⟩ := covered page member
      simp only [orphans, still, before] at orphaned
      omega
    · cases same.trans fine
  | ok done =>
    have all : ∀ page ∈ mapping.pages, middle.countOf mapping.node page + 1 = info.rcOf page := by
      intro page member
      exact (congrArg _ (if_pos member).symm).trans (released rfl page)
    refine ends_fileInfo (fun last foundLast => ?_) fun absent => ?_
    · have closes : Moves SameCounts (onlyIf (!last.inUse)
          (callStore (NodeStore.onCloseNode mapping.node)) : PageCacheM World Store Unit) :=
        moves_onlyIf fun _ => ends_callStore (ends_of_forall fun _ _ => sameCounts_of_files rfl)
          fun _ => sameCounts_of_files rfl
      refine (closes middle).mono fun _ after kept => iff_of_true (fun _ _ => ?_) same.symm
      refine ⟨.inl fun page member => ?_, fun page member => ?_⟩
      · rw [kept.countOf, before, all page member]
      · obtain ⟨split, within⟩ := covered page member
        have down := all page member
        simp only [orphans, kept.countOf, before]
        omega
    · obtain ⟨last, present, -⟩ := follows mapping.node info found
      rw [absent] at present
      cases present

/-- Exactly when the first page of a range cannot be loaded without the others, and when all
pages can be written back. -/
theorem map_and_unmap_are_atomic_iff {session : Session World Store}
    (reachable : session.Reachable) :
    (∀ node offset len flags, session.cache.MapIsAtomic node offset len flags ↔
      session.cache.LoadsTogether node offset len flags) ∧
    ∀ mapping ∈ session.live, session.UnmapIsAtomic mapping ↔ session.WritesBack mapping :=
  ⟨fun node offset len flags => mapIsAtomic_iff session.cache node offset len flags,
    fun _ held => unmapIsAtomic_iff reachable.valid held⟩

end Session

end Failures

namespace Session

section TwoPages

/-- A mapping of two pages of a one-byte file. -/
def twoPages (flags : MapFlags) : DaxMapping := ⟨0, 7, 0, 2 * pageSize, flags⟩

/-- A client whose store fails after a number of calls that succeed. -/
def failsAfter (count : Nat) (actions : List Action) : Session Unit MemoryStore :=
  run step (Session.new 0 () (MemoryStore.withNode 7 [0])
    (List.replicate count none ++ [some ⟨.os 5, 0⟩])) actions

def fileOpened : List Action := [.openNode 7]

def pagesMapped : List Action := [.openNode 7, .map 7 0 (2 * pageSize) .READ_WRITE]

/-- The store takes the bytes of both pages, and the client maps and unmaps them. -/
theorem two_pages_are_atomic :
    (failsAfter 20 fileOpened).cache.MapIsAtomic 7 0 (2 * pageSize) .READ_WRITE ∧
      (failsAfter 20 pagesMapped).UnmapIsAtomic (twoPages .READ_WRITE) := by
  have reachable : ∀ count actions, (failsAfter count actions).Reachable :=
    fun count actions => ⟨0, (), _, _, actions, rfl⟩
  refine ⟨((map_and_unmap_are_atomic_iff (reachable 20 fileOpened)).1 7 0 _ .READ_WRITE).mpr ?_,
    ((map_and_unmap_are_atomic_iff (reachable 20 pagesMapped)).2 _ (by decide +kernel)).mpr ?_⟩
  · intro stop _ _ _ known _
    obtain rfl : 2 * pageSize = stop := Option.some.inj (Eq.trans (by decide) known)
    have fine : ((failsAfter 20 fileOpened).cache.files[7]?.any fun info => decide (((do
        ensureSize 7 (2 * pageSize)
        forM ((pageOffsets 0 (2 * pageSize)).filter info.mustLoad) (loadPage 7)).exec
          (failsAfter 20 fileOpened).cache).1 = .ok ())) = true := by decide +kernel
    obtain ⟨info, found, loaded⟩ := (Option.any_eq_true _ _).mp fine
    have loaded := of_decide_eq_true loaded
    exact ⟨info, found, loaded⟩
  · have fine : ((failsAfter 20 pagesMapped).cache.files[7]?.any fun info => decide (((forM
        ((twoPages .READ_WRITE).pages.filter info.writes) (syncPage 7)).exec
          (failsAfter 20 pagesMapped).cache).1 = .ok ())) = true := by decide +kernel
    obtain ⟨info, found, written⟩ := (Option.any_eq_true _ _).mp fine
    have written := of_decide_eq_true written
    exact ⟨info, found, written⟩

/-- The load of the second page fails after the first is counted, and its write-back after
the first is released. -/
theorem half_mapped_and_half_unmapped :
    ¬ (failsAfter 5 fileOpened).cache.MapIsAtomic 7 0 (2 * pageSize) .READ_WRITE ∧
      ¬ (failsAfter 10 pagesMapped).UnmapIsAtomic (twoPages .READ_WRITE) := by
  have mapFails : ((PageCache.map 7 0 (2 * pageSize) .READ_WRITE).exec
      (failsAfter 5 fileOpened).cache).1 = .error (.io (.os 5)) := by decide +kernel
  have unmapFails : ((PageCache.unmap (twoPages .READ_WRITE)).exec
      (failsAfter 10 pagesMapped).cache).1 = .error (.io (.os 5)) := by decide +kernel
  refine ⟨fun atomic => ?_, fun atomic => ?_⟩
  · have counted : ((PageCache.map 7 0 (2 * pageSize) .READ_WRITE).exec
        (failsAfter 5 fileOpened).cache).2.countOf 7 0 = 1 := by decide +kernel
    have uncounted : (failsAfter 5 fileOpened).cache.countOf 7 0 = 0 := by decide +kernel
    have same := SameCounts.countOf (atomic _ mapFails) 7 0
    exact absurd (counted.symm.trans (same.trans uncounted)) (by decide)
  · have released : ((PageCache.unmap (twoPages .READ_WRITE)).exec
        (failsAfter 10 pagesMapped).cache).2.countOf 7 0 = 0 := by decide +kernel
    have stuck : ((PageCache.unmap (twoPages .READ_WRITE)).exec
        (failsAfter 10 pagesMapped).cache).2.countOf 7 pageSize = 1 := by decide +kernel
    have first : (failsAfter 10 pagesMapped).cache.countOf 7 0 = 1 := by decide +kernel
    have second : (failsAfter 10 pagesMapped).cache.countOf 7 pageSize = 1 := by decide +kernel
    have pages : 0 ∈ (twoPages .READ_WRITE).pages ∧ pageSize ∈ (twoPages .READ_WRITE).pages := by
      decide
    cases (atomic _ unmapFails).1 with
    | inl all => exact absurd (stuck ▸ second ▸ all pageSize pages.2) (by decide)
    | inr unreleased => exact absurd (released ▸ first ▸ unreleased 0 pages.1) (by decide)

end TwoPages

end Session

end PageCache

end Minidox.Cache
