import Minidox.Cache.PageCacheProperties
import Minidox.Foundation.TreeMap

/-!
# Open and close notices

The store behind a page cache is told when a node comes into use and when it goes
out of use. A node is in use through open handles and through mapped pages. `open`,
`close` and `unmap` look at both counts; `map` does not, and it finds the record of a
node that was closed.
-/

set_option autoImplicit false

namespace Minidox.Cache

open Foundation Attempt

inductive Notice where
  | opened (node : NodeId)
  | closed (node : NodeId)
  deriving DecidableEq, Repr

/-- How often the store was told to open a node, less how often to close it. -/
def balance (notices : List Notice) (node : NodeId) : Int :=
  notices.count (.opened node) - notices.count (.closed node)

theorem balance_opened (notices : List Notice) (node other : NodeId) :
    balance (.opened node :: notices) other =
      balance notices other + if other = node then 1 else 0 := by
  by_cases same : other = node
  · subst same
    simp only [balance, List.count_cons_self, ne_eq, reduceCtorEq, not_false_eq_true,
      List.count_cons_of_ne, if_true]
    omega
  · simp [balance, same, Ne.symm same]

theorem balance_closed (notices : List Notice) (node other : NodeId) :
    balance (.closed node :: notices) other =
      balance notices other - if other = node then 1 else 0 := by
  by_cases same : other = node
  · subst same
    simp only [balance, List.count_cons_self, ne_eq, reduceCtorEq, not_false_eq_true,
      List.count_cons_of_ne, if_true]
    omega
  · simp [balance, same, Ne.symm same]

structure Observed (Store : Type) where
  store : Store
  notices : List Notice

namespace Observed

variable {World Store α : Type}

def new (store : Store) : Observed Store := { store, notices := [] }

def call (operation : Attempt (World × Store) IoError α) :
    Attempt (World × Observed Store) IoError α :=
  within (fun pair => (pair.1, pair.2.store))
    (fun inner pair => (inner.1, { pair.2 with store := inner.2 })) id operation

def notify (notice : Notice) : Attempt (World × Observed Store) IoError Unit :=
  modify fun pair => (pair.1, { pair.2 with notices := notice :: pair.2.notices })

instance [NodeStore World Store] : NodeStore World (Observed Store) where
  len observed := NodeStore.len World observed.store
  readNode observed := NodeStore.readNode World observed.store
  writeNode node offset data := call (NodeStore.writeNode node offset data)
  onOpenNode node := do
    notify (.opened node)
    call (NodeStore.onOpenNode node)
  onCloseNode node := do
    notify (.closed node)
    call (NodeStore.onCloseNode node)

theorem moves_call (operation : Attempt (World × Store) IoError α) :
    Moves (fun before after : World × Observed Store => after.2.notices = before.2.notices)
      (call operation) :=
  moves_within fun _ _ => rfl

end Observed

theorem FileMmapInfo.inUse_iff {info : FileMmapInfo} :
    info.inUse ↔ 0 < info.openFds ∨ ∃ page, 0 < info.rcOf page := by
  rw [FileMmapInfo.inUse, Bool.or_eq_true, decide_eq_true_eq, TreeMap.any_iff]
  refine or_congr_right ?_
  constructor
  · rintro ⟨page, fmap, found, counted⟩
    refine ⟨page, ?_⟩
    simpa [FileMmapInfo.rcOf, found] using counted
  · rintro ⟨page, counted⟩
    unfold FileMmapInfo.rcOf at counted
    cases found : info.pages[page]? with
    | none => simp [found] at counted
    | some fmap => exact ⟨page, fmap, found, by simpa [found] using counted⟩

namespace PageCache

variable {World Store α : Type}

def nodeInUse (cache : PageCache World Store) (node : NodeId) : Bool :=
  cache.files[node]?.any FileMmapInfo.inUse

theorem nodeInUse_of_found {cache : PageCache World Store} {node : NodeId} {info : FileMmapInfo}
    (found : cache.files[node]? = some info) : cache.nodeInUse node = info.inUse := by
  rw [nodeInUse, found, Option.any_some]

theorem nodeInUse_modify (cache : PageCache World Store) (node other : NodeId)
    (change : FileMmapInfo → FileMmapInfo) :
    nodeInUse { cache with files := cache.files.modify node change } other =
      if other = node then cache.files[node]?.any fun info => (change info).inUse
      else cache.nodeInUse other := by
  simp only [nodeInUse, Std.ExtTreeMap.getElem?_modify]
  by_cases same : other = node
  · subst same
    cases cache.files[other]? <;> simp
  · simp [same, Ne.symm same]

/-- The store was told to open exactly the nodes that are in use, each once more than to
close it. -/
def Balanced (cache : PageCache World (Observed Store)) : Prop :=
  ∀ node, balance cache.store.notices node = if cache.nodeInUse node then 1 else 0

/-- The store got no notice, and no node but the touched ones came into or out of use. -/
structure SameUse (touched : NodeId → Prop) (before after : PageCache World (Observed Store)) :
    Prop where
  notices : after.store.notices = before.store.notices
  quiet : Quiet before → Quiet after
  inUse : ∀ node, ¬ touched node → after.nodeInUse node = before.nodeInUse node

abbrev untouched : NodeId → Prop := fun _ => False

instance (touched : NodeId → Prop) : Std.Refl (@SameUse World Store touched) :=
  ⟨fun _ => ⟨rfl, fun quiet => quiet, fun _ _ => rfl⟩⟩

instance (touched : NodeId → Prop) :
    IsTrans (PageCache World (Observed Store)) (SameUse touched) :=
  ⟨fun _ _ _ before after => ⟨after.notices.trans before.notices, after.quiet ∘ before.quiet,
    fun node apart => (after.inUse node apart).trans (before.inUse node apart)⟩⟩

theorem Balanced.update {before after : PageCache World (Observed Store)}
    (balanced : Balanced before) (node : NodeId)
    (others : ∀ other ≠ node,
      balance after.store.notices other = balance before.store.notices other ∧
      after.nodeInUse other = before.nodeInUse other)
    (here : balance after.store.notices node = if after.nodeInUse node then 1 else 0) :
    Balanced after := by
  intro other
  by_cases same : other = node
  · rw [same]
    exact here
  · obtain ⟨told, used⟩ := others other same
    rw [told, used]
    exact balanced other

theorem SameUse.balanced {before after : PageCache World (Observed Store)}
    (same : SameUse untouched before after) (balanced : Balanced before) : Balanced after := by
  intro node
  rw [same.notices, same.inUse node not_false]
  exact balanced node

section Moves

variable {touched : NodeId → Prop}

instance : SpendsFaults (@SameUse World Store touched) where
  tail _ := ⟨rfl, Quiet.tail, fun _ _ => rfl⟩

theorem sameUse_modify (cache : PageCache World (Observed Store)) (node : NodeId)
    {change : FileMmapInfo → FileMmapInfo}
    (unchanged : touched node ∨ ∀ info, (change info).inUse = info.inUse) :
    SameUse touched cache { cache with files := cache.files.modify node change } := by
  refine ⟨rfl, fun quiet => quiet, fun other apart => ?_⟩
  rw [nodeInUse_modify]
  split
  next same =>
    subst same
    rw [nodeInUse]
    congr 1
    funext info
    exact unchanged.resolve_left apart info
  next => rfl

theorem sameUse_modifyInfo (node : NodeId) {change : FileMmapInfo → FileMmapInfo}
    (unchanged : ∀ info, (change info).inUse = info.inUse) :
    Moves (SameUse touched) (modifyInfo node change : PageCacheM World (Observed Store) Unit) :=
  fun cache => sameUse_modify cache node (.inr unchanged)

theorem sameUse_writeAllAt (node offset count : Nat) (source : ByteMap) :
    Moves (SameUse touched)
      (writeAllAt node offset count source : PageCacheM World (Observed Store) Unit) :=
  moves_writeAllAt_of fun _ _ => sameUse_modifyInfo node fun _ => rfl

theorem inUse_setVersion (info : FileMmapInfo) (page : Nat) :
    (info.setVersion page).inUse = info.inUse := by
  rw [Bool.eq_iff_iff, FileMmapInfo.inUse_iff, FileMmapInfo.inUse_iff]
  simp only [(restamped_setVersion 0 info page).rcOf]
  rfl

theorem inUse_addMapping (info : FileMmapInfo) (page : Nat) (flags : MapFlags) :
    (info.addMapping page flags).inUse := by
  have kept : Keeps unguarded (single 0 page) 0 0 info (info.addMapping page flags) :=
    keeps_addMapping 0 info page flags
  have counted := kept.counts page
  rw [FileMmapInfo.inUse_iff]
  refine .inr ⟨page, ?_⟩
  simp only [single, and_self, if_true, Pi.zero_apply] at counted
  omega

theorem sameUse_updateCachedPage (node offset stop : Nat) (data : List UInt8) (page : Nat) :
    Moves (SameUse touched)
      (updateCachedPage node offset stop data page : PageCacheM World (Observed Store) Unit) := by
  refine moves_onlyIf ?_
  refine moves_bind (sameUse_writeAllAt node _ _ _) fun _ => ?_
  exact sameUse_modifyInfo node fun info => inUse_setVersion info page

variable [NodeStore World Store]

theorem sameUse_writeNode (node offset : Nat) (data : List UInt8) :
    Moves (SameUse touched) (callStore (NodeStore.writeNode node offset data) :
      PageCacheM World (Observed Store) Nat) := by
  intro cache
  refine ends_callStore ?_ fun _ => SpendsFaults.tail cache
  refine (Observed.moves_call _ (cache.world, cache.store)).mono ?_
  intro result after notices
  exact ⟨notices, Quiet.tail, fun _ _ => rfl⟩

theorem sameUse_syncPage (node offset : Nat) :
    Moves (SameUse touched) (syncPage node offset : PageCacheM World (Observed Store) Unit) :=
  moves_syncPage (fun page => sameUse_writeNode node offset page)
    (sameUse_modifyInfo node fun info => inUse_setVersion info offset)

theorem sameUse_unmapOne (node page : Nat) :
    Moves (SameUse (· = node)) (unmapOne node page : PageCacheM World (Observed Store) Unit) := by
  refine moves_bind (moves_fileInfo node) fun info => ?_
  cases info.pages[page]? with
  | none => exact moves_throw _
  | some fmap =>
    refine moves_bind (moves_onlyIf (sameUse_syncPage node page)) fun _ => ?_
    cases Word64.checkedSub fmap.rc 1 with
    | none => exact moves_throw _
    | some rc => exact fun cache => sameUse_modify cache node (.inl rfl)

end Moves

/-!
## Calls that open and close nodes
-/

variable {cache : PageCache World (Observed Store)} {node : NodeId}

structure Told (notice : Notice) (before after : PageCache World (Observed Store)) : Prop where
  notices : after.store.notices = notice :: before.store.notices
  files : after.files = before.files
  quiet : Quiet after

def Counted (cache : PageCache World Store) (node : NodeId) (pages : List Nat) : Prop :=
  ∃ info, cache.files[node]? = some info ∧ ∀ page ∈ pages, 0 < info.rcOf page

theorem Counted.inUse {pages : List Nat} (counted : Counted cache node pages) (some : pages ≠ []) :
    cache.nodeInUse node := by
  obtain ⟨info, found, positive⟩ := counted
  obtain ⟨page, member⟩ := List.exists_mem_of_ne_nil pages some
  rw [nodeInUse_of_found found]
  exact FileMmapInfo.inUse_iff.mpr (.inr ⟨page, positive page member⟩)

theorem ends_told (quiet : Quiet cache) (notice : Notice)
    (operation : Attempt (World × Store) IoError Unit) :
    Ends (callStore (do Observed.notify notice; Observed.call operation)) cache fun result after =>
      Told notice cache after ∧
        (operation.error? (cache.world, cache.store.store) = none → result = .ok ()) := by
  simp only [callStore, ends_bind]
  refine ends_probe_quiet quiet ?_
  simp only [ends_within, Observed.notify, Observed.call, ends_bind, ends_modify]
  refine ⟨⟨rfl, rfl, quiet.tail⟩, ?_⟩
  unfold error?
  cases (operation.exec (cache.world, cache.store.store)).1 with
  | ok value => exact fun _ => rfl
  | error error => exact fun failed => by cases failed

theorem ends_entry (node : NodeId) (cache : PageCache World (Observed Store)) :
    Ends (entry node) cache fun result after =>
      SameUse untouched cache after ∧
        (after.world, after.store) = (cache.world, cache.store) ∧
        ∀ info, result = .ok info → after.files[node]? = some info := by
  simp only [entry, ends_bind, ends_get]
  cases found : cache.files[node]? with
  | some info =>
    refine ⟨Std.Refl.refl cache, rfl, fun same returned => ?_⟩
    cases returned
    exact found
  | none =>
    simp only [ends_bind]
    refine ends_probe ?_ fun _ => ⟨SpendsFaults.tail cache, rfl, not_ok⟩
    simp only [ends_modify, ends_pure]
    refine ⟨⟨rfl, Quiet.tail, fun other _ => ?_⟩, trivial, fun info returned => ?_⟩
    · simp only [nodeInUse, TreeMap.getElem?_insert_ite]
      split
      next same =>
        subst same
        rw [found]
        decide
      next => rfl
    · cases returned
      simp

theorem Balanced.addHandle {info : FileMmapInfo} (found : cache.files[node]? = some info)
    (openFds : Nat) (positive : 0 < openFds)
    (others : ∀ other ≠ node, balance cache.store.notices other =
      if cache.nodeInUse other then 1 else 0)
    (told : balance cache.store.notices node = 1) :
    Balanced { cache with files := cache.files.modify node fun info => { info with openFds } } := by
  intro other
  rw [nodeInUse_modify]
  split
  next same =>
    subst same
    have used : { info with openFds }.inUse := FileMmapInfo.inUse_iff.mpr (.inl positive)
    simp only [found, Option.any_some, used, if_true]
    exact told
  next different => exact others other different

namespace Session

structure Reported (session : Session World (Observed Store)) : Prop where
  valid : session.Valid
  quiet : Quiet session.cache
  balanced : Balanced session.cache

theorem Valid.counts {session : Session World Store} (valid : session.Valid) {mapping : DaxMapping}
    (held : mapping ∈ session.live) : Counted session.cache mapping.node mapping.pages := by
  obtain ⟨info, found, -⟩ := (valid.mapped mapping held).sized
  refine ⟨info, found, fun page member => ?_⟩
  have counted := valid.counted mapping.node page info found
  have covered : 0 < coverage session.live mapping.node page := by
    rw [coverage, List.countP_pos_iff]
    exact ⟨mapping, held, by simp [member]⟩
  omega

theorem Valid.covers {session : Session World Store} (valid : session.Valid) {mapping : DaxMapping}
    (held : mapping ∈ session.live) : mapping.pages ≠ [] := by
  have mapped := valid.mapped mapping held
  exact List.ne_nil_of_mem (pageOf_mem_pageOffsets mapped.aligned (Nat.le_refl _)
    (Nat.lt_add_of_pos_right mapped.nonempty))

theorem Reported.same {session : Session World (Observed Store)} (reported : session.Reported)
    {after : PageCache World (Observed Store)} (same : SameUse untouched session.cache after) :
    Quiet after ∧ Balanced after :=
  ⟨same.quiet reported.quiet, same.balanced reported.balanced⟩

theorem reported_new (id : Nat) (world : World) (store : Store) {faults : Faults}
    (quiet : ∀ fault ∈ faults, fault = none) :
    (Session.new id world (Observed.new store) faults).Reported :=
  ⟨valid_new id world _ faults, quiet, fun node => by simp [Session.new, PageCache.new,
    Observed.new, balance, nodeInUse]⟩

end Session

variable [NodeStore World Store]

/-- The end of `close` and `unmap`: a node that the store knows to be open is reported
closed once it is out of use. -/
theorem ends_release {before : PageCache World (Observed Store)} (quiet : Quiet cache)
    (balanced : Balanced before) (same : SameUse (· = node) before cache)
    (recorded : balance before.store.notices node = 1) {info : FileMmapInfo}
    (found : cache.files[node]? = some info) :
    Ends (onlyIf (!info.inUse) (callStore (NodeStore.onCloseNode node))) cache fun _ after =>
      Quiet after ∧ Balanced after := by
  have known := nodeInUse_of_found found
  rw [ends_onlyIf]
  constructor
  · intro unused
    have idle : info.inUse = false := by simpa using unused
    refine (ends_told quiet (.closed node) (NodeStore.onCloseNode node)).mono ?_
    rintro result after ⟨told, -⟩
    have files : ∀ other, after.nodeInUse other = cache.nodeInUse other := by
      intro other
      rw [nodeInUse, nodeInUse, told.files]
    refine ⟨told.quiet, balanced.update node (fun other different => ⟨?_, ?_⟩) ?_⟩
    · rw [told.notices, balance_closed, if_neg different, same.notices, Int.sub_zero]
    · rw [files, same.inUse other different]
    · rw [told.notices, balance_closed, if_pos rfl, same.notices, recorded, files, known, idle]
      rfl
  · intro used
    refine ⟨quiet, balanced.update node (fun other different => ⟨?_, ?_⟩) ?_⟩
    · rw [same.notices]
    · exact same.inUse other different
    · rw [same.notices, recorded, known, if_pos (by simpa using used)]

theorem ends_openNode (quiet : Quiet cache) (balanced : Balanced cache)
    (accepted : (NodeStore.onOpenNode node).error? (cache.world, cache.store.store) = none) :
    Ends (openNode node) cache fun _ after => Quiet after ∧ Balanced after := by
  simp only [openNode, ends_bind]
  refine (ends_entry node cache).mono ?_
  rintro result middle ⟨same, unmoved, returned⟩
  have stillQuiet := same.quiet quiet
  have stillBalanced := same.balanced balanced
  obtain ⟨world, store⟩ := Prod.mk.inj unmoved
  cases result with
  | error error => exact ⟨stillQuiet, stillBalanced⟩
  | ok info =>
    have found := returned info rfl
    have known := nodeInUse_of_found found
    have recorded := stillBalanced node
    rw [known] at recorded
    dsimp only
    rw [ends_onlyIf]
    constructor
    · intro unused
      have idle : info.inUse = false := by simpa using unused
      have noHandles : info.openFds = 0 := by
        have none : ¬ info.inUse := by simp [idle]
        rw [FileMmapInfo.inUse_iff] at none
        omega
      refine (ends_told stillQuiet (.opened node) (NodeStore.onOpenNode node)).mono ?_
      rintro result after ⟨told, succeeds⟩
      obtain rfl := succeeds (by rw [world, store]; exact accepted)
      have first : Word64.checkedAdd info.openFds 1 = some 1 := by
        rw [noHandles]
        rfl
      simp only [first, orInvalid, ends_pure, ends_modifyInfo]
      refine ⟨told.quiet, Balanced.addHandle (told.files ▸ found) 1 Nat.one_pos ?_ ?_⟩
      · intro other different
        rw [told.notices, balance_opened, if_neg different, stillBalanced other, nodeInUse,
          nodeInUse, told.files, Int.add_zero]
      · rw [told.notices, balance_opened, if_pos rfl, recorded, idle]
        rfl
    · intro used
      refine ends_orInvalid ?_ ⟨stillQuiet, stillBalanced⟩
      intro openFds added
      obtain rfl := Word64.checkedAdd_eq_some added
      dsimp only
      rw [ends_modifyInfo]
      refine ⟨stillQuiet, Balanced.addHandle found _ (Nat.succ_pos _)
        (fun other _ => stillBalanced other) ?_⟩
      rw [if_pos (by simpa using used)] at recorded
      exact recorded

theorem ends_close (quiet : Quiet cache) (balanced : Balanced cache) :
    Ends (close node) cache fun _ after => Quiet after ∧ Balanced after := by
  simp only [close, ends_bind]
  refine ends_fileInfo ?_ fun _ => ⟨quiet, balanced⟩
  intro info found
  refine ends_orInvalid ?_ ⟨quiet, balanced⟩
  intro openFds removed
  have counted := Word64.checkedSub_eq_some removed
  have recorded := balanced node
  have used : info.inUse := FileMmapInfo.inUse_iff.mpr (.inl (by omega))
  rw [nodeInUse_of_found found, if_pos used] at recorded
  simp only [ends_modifyInfo]
  have kept : SameUse (· = node) cache
      { cache with files := cache.files.modify node fun info => { info with openFds } } :=
    sameUse_modify cache node (.inl rfl)
  refine ends_release ?_ balanced kept recorded (by simp [found])
  exact quiet

/-- What a call does to a node that is in use. -/
def WhileInUse (node : NodeId) (before after : PageCache World (Observed Store)) : Prop :=
  before.nodeInUse node → SameUse untouched before after

instance (node : NodeId) : Std.Refl (@WhileInUse World Store node) :=
  ⟨fun cache _ => Std.Refl.refl cache⟩

instance (node : NodeId) : IsTrans (PageCache World (Observed Store)) (WhileInUse node) :=
  ⟨fun _ _ _ before after used =>
    IsTrans.trans _ _ _ (before used) (after ((before used).inUse node not_false ▸ used))⟩

theorem whileInUse_mapOne (node : NodeId) (flags : MapFlags) (page : Nat) :
    Moves (WhileInUse node) (mapOne node flags page : PageCacheM World (Observed Store) Unit) := by
  refine moves_bind (fun state => (moves_fileInfo node state).mono fun _ _ same _ => same) ?_
  intro info
  refine moves_bind (moves_onlyIf fun state =>
    (moves_loadPage_of (fun _ => sameUse_writeAllAt _ _ _ _) state).mono
      fun _ _ same _ => same) fun _ => ?_
  intro state used
  refine ⟨rfl, fun quiet => quiet, fun other _ => ?_⟩
  change nodeInUse { state with files := _ } other = _
  rw [nodeInUse_modify]
  split
  next same =>
    subst same
    rw [used]
    unfold nodeInUse at used
    cases found : state.files[other]? with
    | none => simp [found] at used
    | some old => exact inUse_addMapping old page flags
  next => rfl

/-- `map` counts pages of a node that is already in use, and fails for a node without a
record. -/
theorem ends_map_inUse (used : ∀ info, cache.files[node]? = some info → info.inUse)
    (offset len : Nat) (flags : MapFlags) :
    Ends (map node offset len flags) cache fun _ after => SameUse untouched cache after := by
  have same : SameUse untouched cache cache := Std.Refl.refl cache
  simp only [map, ends_bind, ends_require]
  refine ⟨fun _ => ⟨fun _ => ⟨fun _ => ?_, fun _ => same⟩, fun _ => same⟩, fun _ => same⟩
  refine ends_orInvalid (fun alignedLen _ => ?_) same
  refine ends_orInvalid (fun stop _ => ?_) same
  cases found : cache.files[node]? with
  | none =>
    simp only [ensureSize, ends_bind]
    refine ends_fileInfo (fun info present => ?_) fun _ => same
    rw [found] at present
    cases present
  | some info =>
    have inUse : cache.nodeInUse node := by
      rw [nodeInUse_of_found found]
      exact used info found
    have sizes : Moves (SameUse untouched)
        (ensureSize node stop : PageCacheM World (Observed Store) Unit) :=
      moves_ensureSize_of fun cache _ _ _ => sameUse_modify cache node (.inr fun _ => rfl)
    refine (sizes cache).mono ?_
    intro result sized kept
    cases result with
    | error error => exact kept
    | ok value =>
      have pages : Moves (WhileInUse node)
          (forM (pageOffsets offset stop) (mapOne node flags) :
            PageCacheM World (Observed Store) PUnit) :=
        moves_forM fun page _ => whileInUse_mapOne node flags page
      refine (pages sized).mono ?_
      intro result after counted
      have both : SameUse untouched cache after :=
        IsTrans.trans _ _ _ kept (counted ((kept.inUse node not_false).trans inUse))
      cases result with
      | error error => exact both
      | ok value => exact both

theorem ends_unmapPages_inUse {pages : List Nat} (distinct : pages.Nodup)
    (counted : Counted cache node pages) :
    Ends (forM pages (unmapOne node)) cache fun result after =>
      SameUse (· = node) cache after ∧
        (∀ error, result = .error error → after.nodeInUse node) := by
  induction pages generalizing cache with
  | nil => exact ⟨Std.Refl.refl cache, not_error⟩
  | cons page rest ih =>
    obtain ⟨fresh, distinctRest⟩ := List.nodup_cons.mp distinct
    obtain ⟨info, found, positive⟩ := counted
    rw [List.forM_cons, ends_bind]
    refine ((ends_unmapOne unguarded node page cache).and
      (sameUse_unmapOne node page cache)).mono ?_
    rintro result middle ⟨⟨released, failing⟩, same⟩
    cases result with
    | error error =>
      refine ⟨same, fun _ _ => ?_⟩
      obtain ⟨next, foundNext, kept⟩ := (failing error rfl).2 node info found
      have still := kept.counts page
      have before := positive page List.mem_cons_self
      rw [nodeInUse_of_found foundNext]
      refine FileMmapInfo.inUse_iff.mpr (.inr ⟨page, ?_⟩)
      simp only [Pi.zero_apply] at still
      omega
    | ok value =>
      obtain ⟨next, foundNext, kept⟩ := released.2 node info found
      refine (ih distinctRest ⟨next, foundNext, fun other member => ?_⟩).mono ?_
      · have still := kept.counts other
        have before := positive other (List.mem_cons_of_mem _ member)
        have apart : other ≠ page := fun equal => fresh (equal ▸ member)
        simp only [single, apart, and_false, if_false, Pi.zero_apply] at still
        omega
      · rintro last after ⟨further, failed⟩
        exact ⟨IsTrans.trans _ _ _ same further, failed⟩

theorem ends_unmap_inUse {mapping : DaxMapping} (quiet : Quiet cache) (balanced : Balanced cache)
    (counted : Counted cache mapping.node mapping.pages) (covers : mapping.pages ≠ []) :
    Ends (unmap mapping) cache fun _ after => Quiet after ∧ Balanced after := by
  have recorded := balanced mapping.node
  rw [if_pos (counted.inUse covers)] at recorded
  simp only [unmap, ends_bind, ends_get, ends_require]
  refine ⟨fun _ => ?_, fun _ => ⟨quiet, balanced⟩⟩
  refine ends_fileInfo (fun info found => ?_) fun _ => ⟨quiet, balanced⟩
  refine ends_orInvalid ?_ ⟨quiet, balanced⟩
  intro stop added
  obtain rfl := Word64.checkedAdd_eq_some added
  dsimp only
  refine ((ends_unmapPages_inUse (pageOffsets_nodup _ _) counted).and
    (ends_unmapPages unguarded mapping.node _ cache)).mono ?_
  rintro result middle ⟨⟨same, failing⟩, entries⟩
  have stillQuiet := same.quiet quiet
  have stays : middle.nodeInUse mapping.node → Balanced middle := by
    intro used
    refine balanced.update mapping.node (fun other different => ⟨?_, ?_⟩) ?_
    · rw [same.notices]
    · exact same.inUse other different
    · rw [same.notices, recorded, if_pos used]
  cases result with
  | error error => exact ⟨stillQuiet, stays (failing error rfl)⟩
  | ok value =>
    refine ends_fileInfo (fun next foundNext => ?_) fun absent => ?_
    · exact ends_release stillQuiet balanced same recorded foundNext
    · obtain ⟨next, foundNext, -⟩ := entries.2 mapping.node info found
      rw [absent] at foundNext
      cases foundNext

/-!
## Sessions
-/

namespace Session

/-- The store accepts an open call when it is told of one. -/
def StoreOpens (session : Session World (Observed Store)) : Action → Prop
  | .openNode node => (NodeStore.onOpenNode node).error?
      (session.cache.world, session.cache.store.store) = none
  | _ => True

/-- A map call that is accepted finds its node in use, or no record of the node. -/
def MapsInUse (session : Session World (Observed Store)) : Action → Prop
  | .map node offset len flags =>
    accepts offset len flags → session.cache.files[node]?.all FileMmapInfo.inUse
  | _ => True

instance (session : Session World (Observed Store)) (action : Action) :
    Decidable (session.StoreOpens action) :=
  match action with
  | .openNode _ => inferInstanceAs (Decidable (_ = none))
  | .close _ | .map .. | .read .. | .write .. | .sync _ | .unmap _ | .store .. => instDecidableTrue

instance (session : Session World (Observed Store)) (action : Action) :
    Decidable (session.MapsInUse action) :=
  match action with
  | .map node offset len flags => inferInstanceAs (Decidable
      (accepts offset len flags → session.cache.files[node]?.all FileMmapInfo.inUse))
  | .openNode _ | .close _ | .read .. | .write .. | .sync _ | .unmap _ | .store .. =>
    instDecidableTrue

theorem reported_step {session : Session World (Observed Store)} (reported : session.Reported)
    (action : Action) (opens : session.StoreOpens action) (maps : session.MapsInUse action) :
    (session.step action).Reported := by
  suffices told : Quiet (session.step action).cache ∧ Balanced (session.step action).cache from
    ⟨valid_step reported.valid action, told.1, told.2⟩
  have quiet := reported.quiet
  have balanced := reported.balanced
  cases action with
  | openNode node => exact ends_openNode quiet balanced opens
  | close node => exact ends_close quiet balanced
  | read node offset capacity =>
    exact reported.same (moves_read node offset capacity session.cache)
  | write node offset data =>
    exact reported.same (moves_write_of (sameUse_writeNode node offset data)
      (sameUse_modifyInfo node fun _ => rfl) (fun _ _ page _ =>
        sameUse_updateCachedPage node offset _ _ page) session.cache)
  | sync node =>
    exact reported.same (moves_sync_of (fun page => sameUse_syncPage node page) session.cache)
  | map node offset len flags =>
    have mapped : Ends (map node offset len flags) session.cache fun _ after =>
        SameUse untouched session.cache after := by
      by_cases accepted : accepts offset len flags
      · refine ends_map_inUse (fun info found => ?_) offset len flags
        simpa [MapsInUse, found] using maps accepted
      · refine (ends_map_refused accepted node session.cache).mono ?_
        rintro _ _ rfl
        exact Std.Refl.refl _
    have same := reported.same mapped
    simp only [Session.step]
    split
    next mapping cache executed => rwa [executed] at same
    next error cache executed => rwa [executed] at same
  | unmap mapping =>
    simp only [Session.step]
    split
    next held =>
      exact ends_unmap_inUse quiet balanced (reported.valid.counts held)
        (reported.valid.covers held)
    next => exact ⟨quiet, balanced⟩
  | store mapping position byte =>
    simp only [Session.step]
    split
    next => exact reported.same (sameUse_modify session.cache mapping.node (.inr fun _ => rfl))
    next => exact ⟨quiet, balanced⟩

/-- In every run without failing calls in which a closed node is never mapped through the
record that it left, the store was told to open each node once more than to close it
while the node is in use, and as often otherwise. A node with live mappings is in use. -/
theorem notices_balance (id : Nat) (world : World) (store : Store) (faults : Faults)
    (quiet : ∀ fault ∈ faults, fault = none) (actions : List Action)
    (admitted : Admitted step (fun session action => StoreOpens session action ∧
      MapsInUse session action) (Session.new id world (Observed.new store) faults) actions)
    (node : NodeId) :
    let session := run step (Session.new id world (Observed.new store) faults) actions
    balance session.cache.store.notices node = (if session.cache.nodeInUse node then 1 else 0) ∧
      ((∃ mapping ∈ session.live, mapping.node = node) →
        balance session.cache.store.notices node = 1) := by
  have reported : (run step (Session.new id world (Observed.new store) faults) actions).Reported :=
    run_invariant Reported (fun _ action held meets => reported_step held action meets.1 meets.2)
      (reported_new id world store quiet) admitted
  refine ⟨reported.balanced node, ?_⟩
  rintro ⟨mapping, held, rfl⟩
  rw [reported.balanced mapping.node, if_pos]
  exact (reported.valid.counts held).inUse (reported.valid.covers held)

/-- The session of a client on a one-byte file whose store keeps its notices. -/
def noticed (actions : List Action) : Session Unit (Observed MemoryStore) :=
  run step (Session.new 0 () (Observed.new (MemoryStore.withNode 7 [0])) []) actions

/-- The client maps the page while the file is open, and unmaps it after closing the file. -/
theorem notices_balance_mapped :
    balance (noticed [.openNode 7, .map 7 0 pageSize MapFlags.READ, .close 7]).cache.store.notices
        7 = 1 ∧
      balance (noticed [.openNode 7, .map 7 0 pageSize MapFlags.READ, .close 7,
        .unmap ⟨0, 7, 0, pageSize, MapFlags.READ⟩]).cache.store.notices 7 = 0 := by
  have mapped := notices_balance 0 () (MemoryStore.withNode 7 [0]) [] (by simp)
    [.openNode 7, .map 7 0 pageSize MapFlags.READ, .close 7] (by decide +kernel) 7
  have unmapped := notices_balance 0 () (MemoryStore.withNode 7 [0]) [] (by simp)
    [.openNode 7, .map 7 0 pageSize MapFlags.READ, .close 7,
      .unmap ⟨0, 7, 0, pageSize, MapFlags.READ⟩] (by decide +kernel) 7
  refine ⟨mapped.2 (by decide +kernel), unmapped.1.trans ?_⟩
  decide +kernel

/-- Mapping a node through the record that its last close left brings the node into use
without telling the store, and unmapping tells the store to close it a second time. -/
theorem map_after_close_unbalances :
    (noticed [.openNode 7, .close 7, .map 7 0 pageSize MapFlags.READ]).cache.nodeInUse 7 ∧
      balance (noticed [.openNode 7, .close 7,
        .map 7 0 pageSize MapFlags.READ]).cache.store.notices 7 = 0 ∧
      balance (noticed [.openNode 7, .close 7, .map 7 0 pageSize MapFlags.READ,
        .unmap ⟨0, 7, 0, pageSize, MapFlags.READ⟩]).cache.store.notices 7 = -1 := by
  refine ⟨?_, ?_, ?_⟩ <;> decide +kernel

end Session

end PageCache

end Minidox.Cache
