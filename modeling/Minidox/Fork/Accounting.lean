import Minidox.Cache.Shared.Accounting
import Minidox.Fork.Forest
import Minidox.Foundation.Cardinality
import Minidox.Foundation.Transition
import Mathlib.Order.Interval.Finset.Nat

/-!
# Page accounting of a forest

`page_accounting` counts the ids of the pages that live VMs retain, through their writes and
all generations below them, and as shared the ids of pages that are visible in two VMs or
more. In every run each page has an id of its own, so that the counts are those of the pages.
-/

set_option autoImplicit false

namespace Minidox.Fork

open Foundation Attempt
open Cache.SharedPageCache (Counts counts_empty)
open Std (ExtTreeMap ExtTreeSet)

variable {forest : ForkForest}

structure SpaceAccounting where
  residentPages : Nat
  sharedPages : Nat
  deriving DecidableEq, Repr

structure PageAccounting where
  memory : SpaceAccounting
  filesystem : SpaceAccounting
  deriving DecidableEq, Repr

namespace PageBranch

def visiblePages (branch : PageBranch) : Pages :=
  branch.base.foldl (fun visible current => TreeMap.insertAllIfNew visible current.toList)
    branch.writes

def addRetainedPageIds (branch : PageBranch) (retained : ExtTreeSet Nat) : ExtTreeSet Nat :=
  (branch.writes :: branch.base).foldl
    (fun retained current => retained.insertMany ((TreeMap.values current).map Page.id)) retained

end PageBranch

/-- A visible page of the current VM. The first set has the ids that were counted for it. -/
def countReference (counted : ExtTreeSet Nat × ExtTreeMap Nat Nat) (page : Page) :
    ExtTreeSet Nat × ExtTreeMap Nat Nat :=
  if page.id ∈ counted.1 then counted
  else (counted.1.insert page.id, counted.2.insert page.id (counted.2[page.id]?.getD 0 + 1))

def accountBranch (totals : ExtTreeSet Nat × ExtTreeMap Nat Nat) (branch : PageBranch) :
    ExtTreeSet Nat × ExtTreeMap Nat Nat :=
  (branch.addRetainedPageIds totals.1,
    ((TreeMap.values branch.visiblePages).foldl countReference (∅, totals.2)).2)

def accountPages (branches : List PageBranch) : SpaceAccounting :=
  let totals := branches.foldl accountBranch (∅, ∅)
  { residentPages := totals.1.size
    sharedPages := (totals.2.filter fun _ count => count > 1).size }

def ForkForest.pageAccounting (forest : ForkForest) : PageAccounting :=
  { memory := accountPages ((TreeMap.values forest.vms).map VmState.memory)
    filesystem := accountPages ((TreeMap.values forest.vms).map VmState.filesystem) }

/-!
## What the counts are of
-/

variable {page : Page}

namespace PageBranch

/-- The page is in the writes of the branch or in a generation below them. -/
def Retains (branch : PageBranch) (page : Page) : Prop :=
  ∃ generation ∈ branch.writes :: branch.base, ∃ key : FilePage, generation[key]? = some page

def Shows (branch : PageBranch) (page : Page) : Prop := ∃ key, branch.page key = some page

theorem Shows.retains {branch : PageBranch} (shows : branch.Shows page) :
    branch.Retains page := by
  obtain ⟨key, found⟩ := shows
  obtain ⟨generation, member, there⟩ := List.exists_of_findSome?_eq_some found
  exact ⟨generation, member, key, there⟩

theorem getElem?_visiblePages (branch : PageBranch) (key : FilePage) :
    branch.visiblePages[key]? = branch.page key :=
  Overlay.getElem?_foldl_insertAllIfNew branch.writes branch.base key

theorem mem_visible {branch : PageBranch} :
    page ∈ TreeMap.values branch.visiblePages ↔ branch.Shows page := by
  simp only [TreeMap.mem_values, getElem?_visiblePages, Shows]

theorem mem_addRetainedPageIds {branch : PageBranch} {retained : ExtTreeSet Nat} {id : Nat} :
    id ∈ branch.addRetainedPageIds retained ↔
      id ∈ retained ∨ ∃ page, branch.Retains page ∧ page.id = id := by
  have filled : ∀ (chain : List Pages) (retained : ExtTreeSet Nat),
      id ∈ chain.foldl (fun retained current =>
        retained.insertMany ((TreeMap.values current).map Page.id)) retained ↔
      id ∈ retained ∨ ∃ generation ∈ chain, ∃ page ∈ TreeMap.values generation, page.id = id := by
    intro chain
    induction chain with
    | nil => simp
    | cons generation older ih =>
      intro retained
      rw [List.foldl_cons, ih, ExtTreeSet.mem_insertMany_list]
      simp [or_assoc]
  unfold addRetainedPageIds
  rw [filled]
  simp only [TreeMap.mem_values, Retains]
  constructor
  · rintro (before | ⟨generation, member, page, ⟨key, found⟩, same⟩)
    · exact .inl before
    · exact .inr ⟨page, ⟨generation, member, key, found⟩, same⟩
  · rintro (before | ⟨page, ⟨generation, member, key, found⟩, same⟩)
    · exact .inl before
    · exact .inr ⟨generation, member, page, ⟨key, found⟩, same⟩

end PageBranch

/-- The pages of one VM count once each, whatever was counted before. -/
theorem counts_countReference {references : ExtTreeMap Nat Nat} {count : Nat → Nat}
    (pages : List Page) (counted : ExtTreeSet Nat) (counts : Counts references count) :
    Counts (pages.foldl countReference (counted, references)).2 fun id =>
      count id + if id ∉ counted ∧ id ∈ pages.map Page.id then 1 else 0 := by
  induction pages generalizing counted references count with
  | nil => simpa using counts
  | cons page rest ih =>
    rw [List.foldl_cons, countReference]
    by_cases seen : page.id ∈ counted
    · rw [if_pos seen]
      have next := ih counted counts
      refine ⟨fun id => (next.known id).trans ?_, next.positive⟩
      by_cases here : id = page.id
      · simp [here, seen]
      · simp [here]
    · rw [if_neg seen]
      have next := ih (counted.insert page.id) (counts.insert page.id)
      refine ⟨fun id => (next.known id).trans ?_, next.positive⟩
      by_cases here : id = page.id
      · subst here
        simp [seen]
      · simp [here, Ne.symm here]

structure Totals (branches : List PageBranch) (totals : ExtTreeSet Nat × ExtTreeMap Nat Nat) :
    Prop where
  resident : ∀ id, id ∈ totals.1 ↔ ∃ branch ∈ branches, ∃ page, branch.Retains page ∧ page.id = id
  references : Counts totals.2 fun id => branches.countP fun branch =>
    id ∈ (TreeMap.values branch.visiblePages).map Page.id

theorem totals_accountBranch {branches : List PageBranch}
    {totals : ExtTreeSet Nat × ExtTreeMap Nat Nat} (sums : Totals branches totals)
    (branch : PageBranch) : Totals (branches ++ [branch]) (accountBranch totals branch) where
  resident id := by
    rw [accountBranch, PageBranch.mem_addRetainedPageIds, sums.resident]
    simp [or_and_right, exists_or]
  references := by
    have counted := counts_countReference (TreeMap.values branch.visiblePages) ∅ sums.references
    refine ⟨fun id => (counted.known id).trans ?_, counted.positive⟩
    simp [List.countP_append, List.countP_cons]

theorem totals_foldl (branches : List PageBranch) :
    Totals branches (branches.foldl accountBranch (∅, ∅)) := by
  have general : ∀ (rest before : List PageBranch) (totals : ExtTreeSet Nat × ExtTreeMap Nat Nat),
      Totals before totals → Totals (before ++ rest) (rest.foldl accountBranch totals) := by
    intro rest
    induction rest with
    | nil =>
      intro before totals sums
      rwa [List.append_nil]
    | cons branch rest ih =>
      intro before totals sums
      have next := ih _ _ (totals_accountBranch sums branch)
      rwa [List.append_assoc, List.singleton_append] at next
  exact general branches [] (∅, ∅) ⟨by simp, by simpa using counts_empty⟩

theorem size_filter_counts {references : ExtTreeMap Nat Nat} {count : Nat → Nat}
    (counts : Counts references count) :
    (references.filter fun _ number => number > 1).size = Set.ncard { id | 1 < count id } := by
  rw [TreeMap.size_eq_ncard]
  refine congrArg Set.ncard (Set.ext fun id => ?_)
  simp only [Set.mem_ofPred_eq, TreeMap.getElem?_filter_iff, counts.getElem?, decide_eq_true_eq]
  constructor
  · rintro ⟨number, found, several⟩
    split at found
    next => cases found
    next => exact Option.some.inj found ▸ several
  · intro several
    exact ⟨count id, if_neg (by omega), several⟩

inductive Space where
  | memory
  | filesystem
  deriving DecidableEq, Repr

def VmState.branch (state : VmState) : Space → PageBranch
  | .memory => state.memory
  | .filesystem => state.filesystem

def PageAccounting.of (accounting : PageAccounting) : Space → SpaceAccounting
  | .memory => accounting.memory
  | .filesystem => accounting.filesystem

variable {space : Space}

namespace ForkForest

def Retained (forest : ForkForest) (space : Space) : Set Page :=
  { page | ∃ (vm : VmId) (state : VmState), forest.vms[vm]? = some state ∧
    (state.branch space).Retains page }

def Shows (forest : ForkForest) (space : Space) (vm : VmId) (page : Page) : Prop :=
  ∃ state, forest.vms[vm]? = some state ∧ (state.branch space).Shows page

def Shared (forest : ForkForest) (space : Space) : Set Page :=
  { page | ∃ first second, first ≠ second ∧ forest.Shows space first page ∧
    forest.Shows space second page }

theorem Shows.retained {vm : VmId} (shows : forest.Shows space vm page) :
    page ∈ forest.Retained space := by
  obtain ⟨state, found, shown⟩ := shows
  exact ⟨vm, state, found, shown.retains⟩

theorem accounting_of (forest : ForkForest) (space : Space) :
    forest.pageAccounting.of space =
      accountPages ((TreeMap.values forest.vms).map fun state => state.branch space) := by
  cases space with
  | memory => rfl
  | filesystem => rfl

theorem residentPages_eq (identified : Set.InjOn Page.id (forest.Retained space)) :
    (forest.pageAccounting.of space).residentPages = (forest.Retained space).ncard := by
  have sums := totals_foldl ((TreeMap.values forest.vms).map fun state => state.branch space)
  rw [accounting_of, accountPages, TreeMap.size_set_eq_ncard, ← identified.ncard_image]
  refine congrArg Set.ncard (Set.ext fun id => (sums.resident id).trans ?_)
  simp only [List.mem_map, TreeMap.mem_values]
  constructor
  · rintro ⟨_, ⟨state, ⟨vm, found⟩, rfl⟩, page, retains, same⟩
    exact ⟨page, ⟨vm, state, found, retains⟩, same⟩
  · rintro ⟨page, ⟨vm, state, found, retains⟩, same⟩
    exact ⟨_, ⟨state, ⟨vm, found⟩, rfl⟩, page, retains, same⟩

theorem sharedPages_eq (identified : Set.InjOn Page.id (forest.Retained space)) :
    (forest.pageAccounting.of space).sharedPages = (forest.Shared space).ncard := by
  have sums := totals_foldl ((TreeMap.values forest.vms).map fun state => state.branch space)
  have retained : forest.Shared space ⊆ forest.Retained space := by
    rintro page ⟨_, _, _, shows, _⟩
    exact shows.retained
  rw [accounting_of, accountPages, size_filter_counts sums.references,
    ← (identified.mono retained).ncard_image]
  refine congrArg Set.ncard (Set.ext fun id => ?_)
  rw [Set.mem_ofPred_eq, List.countP_map, TreeMap.one_lt_countP_values]
  simp only [Function.comp_apply, decide_eq_true_eq, List.mem_map, PageBranch.mem_visible]
  constructor
  · rintro ⟨first, second, apart, ⟨state, found, page, shows, rfl⟩, other, there, twin, sees, same⟩
    -- the two VMs show pages of one id, which are one page
    have one : twin = page := identified (Shows.retained ⟨other, there, sees⟩)
      (Shows.retained ⟨state, found, shows⟩) same
    exact ⟨page, ⟨first, second, apart, ⟨state, found, shows⟩, other, there, one ▸ sees⟩, rfl⟩
  · rintro ⟨page, ⟨first, second, apart, ⟨state, found, shows⟩, other, there, sees⟩, rfl⟩
    exact ⟨first, second, apart, ⟨state, found, page, shows, rfl⟩, other, there, page, sees, rfl⟩

end ForkForest

/-!
## The pages of a run

A page comes into being in a round of `write`. The list of all the pages that a run has made
tells them apart.
-/

namespace PageBranch

def publishedFrom (path : String) (offset : Nat) (bytes : List UInt8) (stop : Nat) :
    (rounds cursor : Nat) → PageBranch × Nat → List Page
  | 0, _, _ => []
  | rounds + 1, cursor, state =>
    if cursor < stop then
      let count := Pages.span pageSize cursor stop
      match (writePage path (cursor / pageSize) (cursor % pageSize)
        ((bytes.drop (cursor - offset)).take count)).exec state with
      | (.error _, _) => []
      | (.ok _, after) => after.1.writes[(path, cursor / pageSize)]?.toList ++
          publishedFrom path offset bytes stop rounds (cursor + count) after
    else []

def published (path : String) (offset : Nat) (bytes : List UInt8) (state : PageBranch × Nat) :
    List Page :=
  match Word64.checkedAdd offset bytes.length with
  | none => []
  | some stop => publishedFrom path offset bytes stop bytes.length offset state

/-- Between the two states these pages were made, under the ids from the counter, and put
into the writes of the branch. -/
structure Publishes (before : PageBranch × Nat) (pages : List Page)
    (after : PageBranch × Nat) : Prop where
  ids : pages.map Page.id = List.range' before.2 pages.length
  next : after.2 = before.2 + pages.length
  base : after.1.base = before.1.base
  writes : ∀ (key : FilePage) page, after.1.writes[key]? = some page →
    before.1.writes[key]? = some page ∨ page ∈ pages

namespace Publishes

theorem refl (state : PageBranch × Nat) : Publishes state [] state :=
  ⟨rfl, rfl, rfl, fun _ _ found => .inl found⟩

theorem trans {before middle after : PageBranch × Nat} {first second : List Page}
    (start : Publishes before first middle) (rest : Publishes middle second after) :
    Publishes before (first ++ second) after where
  ids := by
    rw [List.map_append, start.ids, rest.ids, start.next, List.range'_append_1, List.length_append]
  next := by rw [rest.next, start.next, List.length_append, Nat.add_assoc]
  base := rest.base.trans start.base
  writes key page found := by
    rw [List.mem_append]
    cases rest.writes key page found with
    | inl earlier =>
      cases start.writes key page earlier with
      | inl before => exact .inl before
      | inr made => exact .inr (.inl made)
    | inr made => exact .inr (.inr made)

theorem retains {before after : PageBranch × Nat} {pages : List Page}
    (publishes : Publishes before pages after) (retained : after.1.Retains page) :
    before.1.Retains page ∨ page ∈ pages := by
  obtain ⟨generation, member, key, found⟩ := retained
  cases List.mem_cons.mp member with
  | inl newest =>
    subst newest
    cases publishes.writes key page found with
    | inl earlier => exact .inl ⟨_, List.mem_cons_self, key, earlier⟩
    | inr made => exact .inr made
  | inr older =>
    rw [publishes.base] at older
    exact .inl ⟨generation, List.mem_cons_of_mem _ older, key, found⟩

end Publishes

theorem ends_writePage_publishes (path : String) (number place : Nat) (data : List UInt8)
    (state : PageBranch × Nat) :
    Ends (writePage path number place data) state fun result after =>
      (∀ error, result = .error error → after = state) ∧
      ∀ value, result = .ok value →
        ∃ page, after.1.writes[(path, number)]? = some page ∧ Publishes state [page] after := by
  simp only [writePage, ends_bind, ends_get]
  refine ends_orThrow (fun next found => ?_) fun _ =>
    ⟨fun _ _ => rfl, fun _ ended => (by cases ended)⟩
  dsimp only
  rw [ends_set]
  refine ⟨fun _ failed => (by cases failed), fun _ _ => ?_⟩
  refine ⟨_, ExtTreeMap.getElem?_insert_self, rfl, ?_, rfl, fun key page there => ?_⟩
  · unfold Word64.checkedAdd at found
    split at found
    next => exact (Option.some.inj found).symm
    next => cases found
  · simp only [TreeMap.getElem?_insert_ite] at there
    split at there
    next => exact .inr (List.mem_singleton.mpr (Option.some.inj there).symm)
    next => exact .inl there

/-- The rounds of `write` make at most one page for each page of what is left of the range. -/
theorem ends_writeFrom_publishes (path : String) (offset : Nat) (bytes : List UInt8)
    (stop rounds cursor : Nat) (state : PageBranch × Nat) :
    Ends (writeFrom path offset bytes stop rounds cursor) state fun _ after =>
      Publishes state (publishedFrom path offset bytes stop rounds cursor state) after ∧
      (cursor < stop → (publishedFrom path offset bytes stop rounds cursor state).length ≤
        (stop - 1) / pageSize + 1 - cursor / pageSize) ∧
      (stop ≤ cursor → publishedFrom path offset bytes stop rounds cursor state = []) := by
  induction rounds generalizing cursor state with
  | zero => exact ⟨.refl state, fun _ => Nat.zero_le _, fun _ => rfl⟩
  | succ rounds ih =>
    rw [writeFrom, ends_onlyIf, publishedFrom]
    constructor
    · intro more
      rw [if_pos more]
      dsimp only
      generalize count : Pages.span pageSize cursor stop = width
      have width_eq : width = min (4096 - cursor % 4096) (stop - cursor) := count.symm
      have round := ends_writePage_publishes path (cursor / pageSize) (cursor % pageSize)
        ((bytes.drop (cursor - offset)).take width) state
      rw [ends_bind, Ends]
      unfold Ends at round
      cases executed : (writePage path (cursor / pageSize) (cursor % pageSize)
        ((bytes.drop (cursor - offset)).take width)).exec state with
      | mk result middle =>
        rw [executed] at round
        cases result with
        | error error =>
          obtain rfl : middle = state := round.1 error rfl
          exact ⟨.refl middle, fun _ => Nat.zero_le _, fun _ => rfl⟩
        | ok value =>
          obtain ⟨page, found, made⟩ := round.2 value rfl
          dsimp only
          rw [found, Option.toList_some]
          refine (ih (cursor + width) middle).mono fun _ after ended => ?_
          obtain ⟨publishes, bounded, finished⟩ := ended
          refine ⟨made.trans publishes, fun _ => ?_, fun reached => absurd more (by omega)⟩
          rw [List.length_append, List.length_singleton]
          simp only [pageSize] at bounded ⊢
          by_cases last : stop ≤ cursor + width
          · rw [finished last, List.length_nil]
            omega
          · have further := bounded (Nat.not_le.mp last)
            have nextPage : (cursor + width) / 4096 = cursor / 4096 + 1 := by omega
            omega
    · intro reached
      rw [if_neg (by omega)]
      exact ⟨.refl state, fun more => absurd more (by omega), fun _ => rfl⟩

def touchedPages (offset len : Nat) : Finset Nat :=
  (Finset.range len).image fun index => (offset + index) / pageSize

theorem le_card_touchedPages (offset : Nat) {len : Nat} (positive : 0 < len) :
    (offset + len - 1) / pageSize + 1 - offset / pageSize ≤ (touchedPages offset len).card := by
  rw [← Nat.card_Icc]
  refine Finset.card_le_card fun number member => ?_
  rw [Finset.mem_Icc] at member
  refine Finset.mem_image.mpr ⟨max (number * pageSize) offset - offset, Finset.mem_range.mpr ?_, ?_⟩
  · simp only [pageSize] at *
    omega
  · simp only [pageSize] at *
    omega

theorem ends_write_publishes (path : String) (offset : Nat) (bytes : List UInt8)
    (state : PageBranch × Nat) :
    Ends (write path offset bytes) state fun _ after =>
      Publishes state (published path offset bytes state) after ∧
      (published path offset bytes state).length ≤ (touchedPages offset bytes.length).card := by
  unfold write published Word64.checkedAdd
  rw [ends_bind]
  by_cases fits : offset + bytes.length < Word64.bound
  · simp only [if_pos fits, orThrow, ends_pure]
    refine (ends_writeFrom_publishes path offset bytes _ bytes.length offset state).mono ?_
    rintro _ after ⟨publishes, bounded, finished⟩
    refine ⟨publishes, ?_⟩
    cases Nat.eq_zero_or_pos bytes.length with
    | inl empty =>
      rw [finished (by omega)]
      exact Nat.zero_le _
    | inr positive => exact (bounded (by omega)).trans (le_card_touchedPages offset positive)
  · simp only [if_neg fits, orThrow, ends_throw]
    exact ⟨.refl state, Nat.zero_le _⟩

theorem page_fork (branch : PageBranch) (key : FilePage) :
    branch.fork.1.page key = branch.page key ∧ branch.fork.2.page key = branch.page key := by
  have same : Overlay.lookup (∅ :: Overlay.push branch.writes branch.base) key =
      Overlay.lookup (branch.writes :: branch.base) key := by
    rw [Overlay.lookup_empty_cons, Overlay.lookup_push]
  exact ⟨same, same⟩

theorem shows_fork {branch : PageBranch} (shows : branch.Shows page) :
    branch.fork.1.Shows page ∧ branch.fork.2.Shows page := by
  obtain ⟨key, found⟩ := shows
  obtain ⟨source, child⟩ := branch.page_fork key
  exact ⟨⟨key, source.trans found⟩, key, child.trans found⟩

theorem retains_fork (branch : PageBranch) (page : Page) :
    (branch.fork.1.Retains page ↔ branch.Retains page) ∧
      (branch.fork.2.Retains page ↔ branch.Retains page) := by
  have same : (∃ generation ∈ ∅ :: Overlay.push branch.writes branch.base,
      ∃ key : FilePage, generation[key]? = some page) ↔ branch.Retains page := by
    unfold Retains Overlay.push
    split
    next empty =>
      have nothing : ∀ key : FilePage, branch.writes[key]? ≠ some page := by
        intro key found
        rw [TreeMap.isEmpty_iff_getElem?.mp empty key] at found
        cases found
      simp [nothing]
    next => simp
  exact ⟨same, same⟩

theorem not_retains_empty (page : Page) : ¬ empty.Retains page := by
  rintro ⟨generation, member, key, found⟩
  simp only [empty, List.mem_cons, List.not_mem_nil, or_false, or_self] at member
  subst member
  simp at found

end PageBranch

def VmState.forked (state : VmState) : VmState × VmState :=
  (⟨state.memory.fork.1, state.filesystem.fork.1⟩, ⟨state.memory.fork.2, state.filesystem.fork.2⟩)

theorem VmState.retains_forked (state : VmState) (space : Space) (page : Page) :
    ((state.forked.1.branch space).Retains page ↔ (state.branch space).Retains page) ∧
      ((state.forked.2.branch space).Retains page ↔ (state.branch space).Retains page) := by
  cases space with
  | memory => exact state.memory.retains_fork page
  | filesystem => exact state.filesystem.retains_fork page

theorem VmState.shows_forked {state : VmState} (shows : (state.branch space).Shows page) :
    (state.forked.1.branch space).Shows page ∧
      (state.forked.2.branch space).Shows page := by
  cases space with
  | memory => exact PageBranch.shows_fork shows
  | filesystem => exact PageBranch.shows_fork shows

def Action.touched : Action → Finset Nat
  | .writeFile _ _ offset bytes => PageBranch.touchedPages offset bytes.length
  | .writeMemory _ guestAddress bytes => PageBranch.touchedPages guestAddress bytes.length
  | _ => ∅

namespace ForkForest

def published (forest : ForkForest) : Action → List Page
  | .writeFile vm path offset bytes => forest.vms[vm]?.elim [] fun state =>
    PageBranch.published path offset bytes (state.filesystem, forest.nextPage)
  | .writeMemory vm guestAddress bytes => forest.vms[vm]?.elim [] fun state =>
    PageBranch.published "" guestAddress bytes (state.memory, forest.nextPage)
  | _ => []

/-- An action on a forest and the list of the pages made so far. -/
def record (history : ForkForest × List Page) (action : Action) : ForkForest × List Page :=
  ((history.1.step action).1, history.2 ++ history.1.published action)

def history (actions : List Action) : ForkForest × List Page := run record (new, []) actions

/-- The list has the pages that were made, each under an id of its own, and all that live VMs
retain are among them. -/
structure Recorded (forest : ForkForest) (created : List Page) : Prop where
  distinct : (created.map Page.id).Nodup
  below : ∀ page ∈ created, page.id < forest.nextPage
  known : ∀ space, ∀ page ∈ forest.Retained space, page ∈ created

theorem Recorded.injOn {created : List Page} (recorded : forest.Recorded created) (space : Space) :
    Set.InjOn Page.id (forest.Retained space) := by
  intro left retained right others same
  exact List.inj_on_of_nodup_map recorded.distinct (recorded.known space left retained)
    (recorded.known space right others) same

structure Keeps (before after : ForkForest) : Prop where
  nextPage : after.nextPage = before.nextPage
  retained : ∀ space, after.Retained space ⊆ before.Retained space

theorem retained_insert {before after : ForkForest} {vm : VmId} {state : VmState}
    (inserted : after.vms = before.vms.insert vm state) (retained : page ∈ after.Retained space) :
    (state.branch space).Retains page ∨ page ∈ before.Retained space := by
  obtain ⟨other, found, there, retains⟩ := retained
  rw [inserted, TreeMap.getElem?_insert_ite] at there
  split at there
  next => exact .inl (Option.some.inj there ▸ retains)
  next => exact .inr ⟨other, found, there, retains⟩

theorem ends_insertVm_keeps {state : VmState}
    (old : ∀ space page, (state.branch space).Retains page → page ∈ forest.Retained space) :
    Ends (insertVm state) forest fun _ after => Keeps forest after := by
  simp only [insertVm, ends_bind, ends_get, ends_set, ends_pure]
  refine ⟨rfl, fun space page retained => ?_⟩
  have inserted : page ∈ forest.Retained space ∨ (state.branch space).Retains page :=
    (retained_insert rfl retained).symm
  cases inserted with
  | inl before => exact before
  | inr new => exact old space page new

theorem ends_lookupVm {α : Type} {vm : VmId} {call : VmState → ForestM α}
    {post : Except Error α → ForkForest → Prop}
    (present : ∀ state, forest.vms[vm]? = some state → Ends (call state) forest post)
    (absent : forest.vms[vm]? = none → post (.error (.vmNotFound vm)) forest) :
    Ends (lookupVm vm >>= call) forest post := by
  simp only [lookupVm, ends_bind, ends_get]
  exact ends_orThrow (fun state found => present state found) fun missing => absent missing

theorem ends_forkVm_vms (forest : ForkForest) (source : VmId) :
    Ends (forkVm source) forest fun _ after => after.nextPage = forest.nextPage ∧
      (forest.vms[source]? = none → after = forest) ∧
      ∀ state, forest.vms[source]? = some state → after.vms =
        (forest.vms.insert source state.forked.1).insert forest.nextVm
          state.forked.2 := by
  refine ends_lookupVm (fun state found => ?_) fun absent => ?_
  · simp only [ends_bind, ends_modify, insertVm, ends_get, ends_set, ends_pure]
    refine ⟨trivial, fun absent => ?_, fun other there => ?_⟩
    · rw [found] at absent
      cases absent
    · obtain rfl : state = other := Option.some.inj (found.symm.trans there)
      rfl
  · exact ⟨rfl, fun _ => rfl, fun state found => by rw [absent] at found; cases found⟩

theorem keeps_forkVm (forest : ForkForest) (source : VmId) :
    Ends (forkVm source) forest fun _ after => Keeps forest after := by
  refine (forest.ends_forkVm_vms source).mono ?_
  rintro _ after ⟨nextPage, absent, present⟩
  refine ⟨nextPage, fun space page retained => ?_⟩
  cases found : forest.vms[source]? with
  | none => exact absent found ▸ retained
  | some state =>
    obtain ⟨here, child⟩ := state.retains_forked space page
    have own (retains : (state.branch space).Retains page) : page ∈ forest.Retained space :=
      ⟨source, state, found, retains⟩
    let middle := { forest with vms := forest.vms.insert source state.forked.1 }
    have inserted : (state.forked.2.branch space).Retains page ∨ page ∈ middle.Retained space :=
      retained_insert (present state found) retained
    cases inserted with
    | inl new => exact own (child.mp new)
    | inr before =>
      cases retained_insert rfl before with
      | inl same => exact own (here.mp same)
      | inr others => exact others

structure Adds (before : ForkForest) (pages : List Page) (after : ForkForest) : Prop where
  ids : pages.map Page.id = List.range' before.nextPage pages.length
  nextPage : after.nextPage = before.nextPage + pages.length
  retained : ∀ space, after.Retained space ⊆ before.Retained space ∪ { page | page ∈ pages }

theorem Keeps.adds {before after : ForkForest} (keeps : Keeps before after) :
    Adds before [] after where
  ids := rfl
  nextPage := keeps.nextPage
  retained space _ retained := .inl (keeps.retained space retained)

theorem keeps_refl (forest : ForkForest) : Keeps forest forest :=
  ⟨rfl, fun _ _ retained => retained⟩

theorem Recorded.adds {before after : ForkForest} {created pages : List Page}
    (recorded : before.Recorded created) (adds : Adds before pages after) :
    after.Recorded (created ++ pages) where
  distinct := by
    rw [List.map_append, adds.ids, List.nodup_append]
    refine ⟨recorded.distinct, List.nodup_range', ?_⟩
    rintro id old _ fresh rfl
    obtain ⟨page, member, rfl⟩ := List.mem_map.mp old
    have below := recorded.below page member
    have above := (List.mem_range'_1.mp fresh).1
    omega
  below page member := by
    rw [adds.nextPage]
    cases List.mem_append.mp member with
    | inl old => exact Nat.lt_add_right _ (recorded.below page old)
    | inr new =>
      have listed := List.mem_map_of_mem (f := Page.id) new
      rw [adds.ids, List.mem_range'_1] at listed
      exact listed.2
  known space page retained := by
    rw [List.mem_append]
    cases adds.retained space retained with
    | inl old => exact .inl (recorded.known space page old)
    | inr new => exact .inr new

theorem ends_writeBranch_adds {vm : VmId} {state : VmState}
    (found : forest.vms[vm]? = some state) (space : Space) {update : PageBranch → VmState}
    (written : ∀ branch, (update branch).branch space = branch)
    (others : ∀ branch other, other ≠ space → (update branch).branch other = state.branch other)
    (path : String) (offset : Nat) (bytes : List UInt8) :
    Ends (writeBranch vm (state.branch space) update path offset bytes) forest fun _ after =>
      Adds forest (PageBranch.published path offset bytes (state.branch space, forest.nextPage))
        after ∧
      (PageBranch.published path offset bytes (state.branch space, forest.nextPage)).length ≤
        (PageBranch.touchedPages offset bytes.length).card := by
  unfold writeBranch
  rw [ends_within]
  refine (PageBranch.ends_write_publishes path offset bytes _).mono ?_
  rintro _ ⟨after, next⟩ ⟨publishes, bounded⟩
  refine ⟨⟨publishes.ids, publishes.next, fun other page retained => ?_⟩, bounded⟩
  have inserted : ((update after).branch other).Retains page ∨ page ∈ forest.Retained other :=
    retained_insert rfl retained
  cases inserted with
  | inr before => exact .inl before
  | inl new =>
    by_cases here : other = space
    · subst here
      rw [written] at new
      cases publishes.retains new with
      | inl before => exact .inl ⟨vm, state, found, before⟩
      | inr made => exact .inr made
    · rw [others after other here] at new
      exact .inl ⟨vm, state, found, new⟩

theorem fst_answer {α : Type} (forest : ForkForest) (operation : ForestM α) (reply : α → Reply) :
    (forest.answer operation reply).1 = (operation.exec forest).2 := by
  unfold ForkForest.answer
  split
  next executed => rw [executed]
  next executed => rw [executed]

theorem ends_written {vm : VmId} {call : VmState → ForestM Unit}
    {pages : VmState → List Page} {limit : Nat}
    (present : ∀ state, forest.vms[vm]? = some state → Ends (call state) forest fun _ after =>
      Adds forest (pages state) after ∧ (pages state).length ≤ limit) :
    Ends (lookupVm vm >>= call) forest fun _ after =>
      Adds forest (forest.vms[vm]?.elim [] pages) after ∧
        (forest.vms[vm]?.elim [] pages).length ≤ limit := by
  refine ends_lookupVm (fun state found => ?_) fun absent => ?_
  · rw [found]
    exact present state found
  · rw [absent]
    exact ⟨forest.keeps_refl.adds, Nat.zero_le _⟩

theorem step_read (forest : ForkForest) :
    (∀ {vm path offset len}, (forest.step (.readFile vm path offset len)).1 = forest) ∧
      ∀ {vm guestAddress len}, (forest.step (.readMemory vm guestAddress len)).1 = forest := by
  have asked (vm : VmId) (ask : VmState → Except Error (List UInt8)) :
      Ends (lookupVm vm >>= fun state => Attempt.ofExcept (ask state)) forest fun _ after =>
        after = forest := by
    refine ends_lookupVm (fun state _ => ?_) fun _ => rfl
    rw [ends_ofExcept]
  constructor
  · intro vm path offset len
    rw [step, fst_answer]
    exact asked vm fun state => state.filesystem.read path offset len
  · intro vm guestAddress len
    rw [step, fst_answer]
    exact asked vm fun state => state.memory.read "" guestAddress len

theorem step_adds (forest : ForkForest) (action : Action) :
    Adds forest (forest.published action) (forest.step action).1 ∧
      (forest.published action).length ≤ action.touched.card := by
  cases action with
  | createVm =>
    rw [step, fst_answer]
    refine ⟨(ends_insertVm_keeps fun space page retains => ?_).adds, Nat.zero_le _⟩
    cases space with
    | memory => exact absurd retains (PageBranch.not_retains_empty page)
    | filesystem => exact absurd retains (PageBranch.not_retains_empty page)
  | forkVm source =>
    rw [step, fst_answer]
    exact ⟨(keeps_forkVm forest source).adds, Nat.zero_le _⟩
  | removeVm vm =>
    rw [step, fst_answer]
    have keeps : Ends (removeVm vm) forest fun _ after => Keeps forest after := by
      refine ends_lookupVm (fun state _ => ?_) fun _ => forest.keeps_refl
      refine ⟨rfl, fun space page retained => ?_⟩
      obtain ⟨other, found, there, retains⟩ := retained
      simp only [exec_modify, TreeMap.getElem?_erase_ite, Option.ite_none_left_eq_some] at there
      exact ⟨other, found, there.2, retains⟩
    exact ⟨keeps.adds, Nat.zero_le _⟩
  | writeFile vm path offset bytes =>
    rw [step, fst_answer]
    refine ends_written fun state found =>
      ends_writeBranch_adds found .filesystem (fun _ => rfl) (fun _ other apart => ?_) path offset
        bytes
    cases other with
    | memory => rfl
    | filesystem => exact absurd rfl apart
  | writeMemory vm guestAddress bytes =>
    rw [step, fst_answer]
    refine ends_written fun state found =>
      ends_writeBranch_adds found .memory (fun _ => rfl) (fun _ other apart => ?_) "" guestAddress
        bytes
    cases other with
    | memory => exact absurd rfl apart
    | filesystem => rfl
  | readFile vm path offset len =>
    rw [forest.step_read.1]
    exact ⟨forest.keeps_refl.adds, Nat.zero_le _⟩
  | readMemory vm guestAddress len =>
    rw [forest.step_read.2]
    exact ⟨forest.keeps_refl.adds, Nat.zero_le _⟩

theorem record_history (actions : List Action) :
    (history actions).1.Recorded (history actions).2 := by
  refine run_invariant_all (fun pair : ForkForest × List Page => pair.1.Recorded pair.2)
    (fun pair action recorded => recorded.adds (pair.1.step_adds action).1) ?_ actions
  refine ⟨List.nodup_nil, fun _ member => (by cases member), fun space page retained => ?_⟩
  obtain ⟨vm, state, found, _⟩ := retained
  simp [new] at found

theorem fst_history (actions : List Action) :
    (history actions).1 = run (fun forest action => (forest.step action).1) new actions := by
  have general : ∀ (pair : ForkForest × List Page), (run record pair actions).1 =
      run (fun forest action => (forest.step action).1) pair.1 actions := by
    induction actions with
    | nil => exact fun _ => rfl
    | cons action rest ih => exact fun pair => ih (record pair action)
  exact general (new, [])

theorem vms_fork {source : VmId} {state : VmState}
    (found : forest.vms[source]? = some state) (vm : VmId) :
    (forest.step (.forkVm source)).1.vms[vm]? = if vm = forest.nextVm then some state.forked.2
      else if vm = source then some state.forked.1 else forest.vms[vm]? := by
  have forked := (forest.ends_forkVm_vms source).2.2 state found
  rw [step, fst_answer, forked, TreeMap.getElem?_insert_ite, TreeMap.getElem?_insert_ite]

theorem retained_fork (source : VmId) (fresh : forest.vms[forest.nextVm]? = none) (space : Space) :
    (forest.step (.forkVm source)).1.Retained space = forest.Retained space := by
  have keeps : Keeps forest (forest.step (.forkVm source)).1 := by
    rw [step, fst_answer]
    exact keeps_forkVm forest source
  refine Set.Subset.antisymm (keeps.retained space) ?_
  rintro page ⟨vm, held, there, retains⟩
  have live : vm ≠ forest.nextVm := by
    rintro rfl
    rw [fresh] at there
    cases there
  cases found : forest.vms[source]? with
  | none =>
    have same := (forest.ends_forkVm_vms source).2.1 found
    rw [step, fst_answer, same]
    exact ⟨vm, held, there, retains⟩
  | some state =>
    have vms := vms_fork found vm
    rw [if_neg live] at vms
    by_cases here : vm = source
    · subst here
      obtain rfl : state = held := Option.some.inj (found.symm.trans there)
      rw [if_pos rfl] at vms
      exact ⟨vm, _, vms, (state.retains_forked space page).1.mpr retains⟩
    · rw [if_neg here] at vms
      exact ⟨vm, held, vms.trans there, retains⟩

theorem shared_fork {source : VmId} (fresh : forest.vms[forest.nextVm]? = none)
    (shows : forest.Shows space source page) :
    page ∈ (forest.step (.forkVm source)).1.Shared space := by
  obtain ⟨state, found, shown⟩ := shows
  have apart : source ≠ forest.nextVm := by
    rintro same
    rw [← same, found] at fresh
    cases fresh
  obtain ⟨here, child⟩ := VmState.shows_forked shown
  refine ⟨source, forest.nextVm, apart, ⟨state.forked.1, ?_, here⟩, state.forked.2, ?_, child⟩
  · rw [vms_fork found, if_neg apart, if_pos rfl]
  · rw [vms_fork found, if_pos rfl]

/-- What the accounting of a forest says, when these pages were made so far. -/
structure Accounted (forest : ForkForest) (created : List Page) : Prop where
  /-- No two pages share an id, whatever they are of. -/
  identified : (created.map Page.id).Nodup
  retained : ∀ space, ∀ page ∈ forest.Retained space, page ∈ created
  resident : ∀ space,
    (forest.pageAccounting.of space).residentPages = (forest.Retained space).ncard
  shared : ∀ space, (forest.pageAccounting.of space).sharedPages = (forest.Shared space).ncard
  /-- A fork whose child gets the id of no live VM. -/
  fork : ∀ source, forest.vms[forest.nextVm]? = none → ∀ space,
    ((forest.step (.forkVm source)).1.pageAccounting.of space).residentPages =
        (forest.pageAccounting.of space).residentPages ∧
      ∀ page, forest.Shows space source page →
        page ∈ (forest.step (.forkVm source)).1.Shared space
  readFile : ∀ vm path offset len, (forest.step (.readFile vm path offset len)).1 = forest
  readMemory : ∀ vm guestAddress len, (forest.step (.readMemory vm guestAddress len)).1 = forest
  /-- A write to some pages; the other actions touch none. -/
  write : ∀ action space,
    ((forest.step action).1.pageAccounting.of space).residentPages ≤
      (forest.pageAccounting.of space).residentPages + action.touched.card

/-- In every state of every run the accounting is that of the pages. -/
theorem accounting_is_exact (actions : List Action) :
    (history actions).1.Accounted (history actions).2 := by
  have recorded := record_history actions
  generalize (history actions).1 = forest at *
  generalize (history actions).2 = created at *
  have resident (action : Action) (space : Space) :
      ((forest.step action).1.pageAccounting.of space).residentPages =
        ((forest.step action).1.Retained space).ncard :=
    residentPages_eq ((recorded.adds (forest.step_adds action).1).injOn space)
  have finite (space : Space) : (forest.Retained space).Finite :=
    (List.finite_toSet created).subset (recorded.known space)
  refine
    { identified := recorded.distinct
      retained := recorded.known
      resident := fun space => residentPages_eq (recorded.injOn space)
      shared := fun space => sharedPages_eq (recorded.injOn space)
      fork := fun source fresh space => ⟨?_, fun page shows => shared_fork fresh shows⟩
      readFile := fun vm path offset len => forest.step_read.1
      readMemory := fun vm guestAddress len => forest.step_read.2
      write := fun action space => ?_ }
  · rw [resident, residentPages_eq (recorded.injOn space), retained_fork source fresh space]
  · obtain ⟨adds, bounded⟩ := forest.step_adds action
    have made : Set.ncard { page | page ∈ forest.published action } ≤ action.touched.card := by
      classical
      have listed : { page | page ∈ forest.published action } =
          ((forest.published action).toFinset : Set Page) := by
        ext page
        simp
      rw [listed, Set.ncard_coe_finset]
      exact (List.toFinset_card_le _).trans bounded
    rw [resident, residentPages_eq (recorded.injOn space)]
    calc ((forest.step action).1.Retained space).ncard
        ≤ (forest.Retained space ∪ { page | page ∈ forest.published action }).ncard :=
          Set.ncard_le_ncard (adds.retained space) ((finite space).union (List.finite_toSet _))
      _ ≤ (forest.Retained space).ncard + Set.ncard { page | page ∈ forest.published action } :=
          Set.ncard_union_le _ _
      _ ≤ (forest.Retained space).ncard + action.touched.card := Nat.add_le_add_left made _

/-- Two VMs, the first of which writes a page. -/
def twoVms : List Action := [.createVm, .writeMemory 1 0 [1], .createVm]

/-- VMs that come and go, until the counter of ids has come around to the first one. -/
def wrappingRun : List Action :=
  twoVms ++ (List.range (Word64.bound - 2)).flatMap fun index =>
    [.createVm, .removeVm ((3 + index) % Word64.bound)]

theorem step_create_remove (fresh : forest.vms[forest.nextVm]? = none) :
    ((forest.step .createVm).1.step (.removeVm forest.nextVm)).1 =
      { forest with nextVm := Word64.wrappingAdd forest.nextVm 1 } := by
  have created : (forest.step .createVm).1 = { forest with
      nextVm := Word64.wrappingAdd forest.nextVm 1
      vms := forest.vms.insert forest.nextVm ⟨PageBranch.empty, PageBranch.empty⟩ } := rfl
  have erased : (forest.vms.insert forest.nextVm ⟨PageBranch.empty, PageBranch.empty⟩).erase
      forest.nextVm = forest.vms := by
    apply ExtTreeMap.ext_getElem?
    intro vm
    rw [TreeMap.getElem?_erase_ite, TreeMap.getElem?_insert_ite]
    by_cases here : vm = forest.nextVm
    · rw [if_pos here, here, fresh]
    · rw [if_neg here, if_neg here]
  rw [created, step, fst_answer]
  have removed : Ends (removeVm forest.nextVm) { forest with
      nextVm := Word64.wrappingAdd forest.nextVm 1
      vms := forest.vms.insert forest.nextVm ⟨PageBranch.empty, PageBranch.empty⟩ } fun _ after =>
        after = { forest with nextVm := Word64.wrappingAdd forest.nextVm 1 } := by
    refine ends_lookupVm (fun state _ => ?_) fun absent => ?_
    · rw [ends_modify]
      exact congrArg (ForkForest.mk _ _) erased
    · rw [ExtTreeMap.getElem?_insert_self] at absent
      cases absent
  exact removed

theorem run_create_remove (two : forest.vms.keys = [1, 2])
    (third : forest.nextVm = 3) (count : Nat) (lasts : count ≤ Word64.bound - 2) :
    run (fun forest action => (forest.step action).1) forest ((List.range count).flatMap
      fun index => [.createVm, .removeVm ((3 + index) % Word64.bound)]) =
        { forest with nextVm := (3 + count) % Word64.bound } := by
  induction count with
  | zero =>
    rw [List.range_zero, List.flatMap_nil, run_nil, Nat.add_zero,
      show 3 % Word64.bound = 3 by decide, ← third]
  | succ count ih =>
    have unused : forest.vms[(3 + count) % Word64.bound]? = none := by
      apply TreeMap.getElem?_eq_none
      rw [← ExtTreeMap.mem_keys, two]
      unfold Word64.bound at *
      simp only [List.mem_cons, List.not_mem_nil, or_false]
      omega
    rw [List.range_succ, List.flatMap_append, run_append, ih (by omega), List.flatMap_singleton]
    refine (step_create_remove unused).trans (congrArg (ForkForest.mk · _ _) ?_)
    rw [Word64.wrappingAdd, Nat.mod_add_mod]
    rfl

/-- A fork takes the id of the first VM, whose page nobody retains any more. -/
theorem fork_drops_page :
    let forest := (history wrappingRun).1
    forest.vms[2]?.isSome ∧ forest.pageAccounting.memory.residentPages = 1 ∧
      (forest.step (.forkVm 2)).1.pageAccounting.memory.residentPages = 0 := by
  have reached : (history wrappingRun).1 = { (history twoVms).1 with nextVm := 1 } := by
    rw [fst_history, fst_history, wrappingRun, run_append]
    exact run_create_remove (by decide +kernel) (by decide +kernel) _ (Nat.le_refl _)
  rw [reached]
  decide +kernel

end ForkForest

end Minidox.Fork
