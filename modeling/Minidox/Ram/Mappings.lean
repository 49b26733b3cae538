import Minidox.Ram.Model

/-!
# Runs of pages

Pages are mapped in runs that go on in one generation file. The runs cover the wanted pages
and no others, and every page of a run is mapped from its own place.
-/

set_option autoImplicit false

namespace Minidox.Ram

open Foundation Attempt
open Std (ExtTreeSet)

/-!
## Host calls
-/

def Answered (before after : RamHost) : Prop := after = { before with replies := after.replies }

instance : Std.Refl Answered := ⟨fun _ => rfl⟩

instance : IsTrans RamHost Answered where
  trans first second third earlier later := by
    unfold Answered at *
    rw [later, earlier]

theorem ends_nextReply (host : RamHost) :
    Ends nextReply host fun result after => Answered host after ∧ ∃ reply, result = .ok reply := by
  unfold nextReply
  simp only [ends_bind, ends_get]
  split
  next => exact ⟨Std.Refl.refl host, _, rfl⟩
  next => exact ⟨rfl, _, rfl⟩

theorem ends_call (operation : String) (host : RamHost) :
    Ends (call operation) host fun result after => Answered host after ∧
      after.replies ⊆ host.replies ∧ ∀ error, result = .error error →
        ∃ errno, .failed errno ∈ host.replies ∧ error = .backend operation (.os errno) := by
  unfold call nextReply
  simp only [ends_bind, ends_get]
  cases replies : host.replies with
  | nil =>
    have none : host.replies ⊆ [] := by
      rw [replies]
      exact List.Subset.refl _
    exact ⟨Std.Refl.refl host, none, not_error⟩
  | cons reply rest =>
    have fewer : rest ⊆ reply :: rest := List.subset_cons_self reply rest
    cases reply with
    | failed errno =>
      refine ⟨rfl, fewer, fun error failed => ?_⟩
      cases failed
      exact ⟨errno, List.mem_cons_self, rfl⟩
    | done => exact ⟨rfl, fewer, not_error⟩
    | short count => exact ⟨rfl, fewer, not_error⟩

theorem moves_call (operation : String) : Moves Answered (call operation) :=
  fun host => (ends_call operation host).mono fun _ _ ended => ended.1

/-!
## Runs
-/

/-- The arguments of a call of `map_run`. -/
structure PageRun where
  start : Nat
  count : Nat
  generation : RamGeneration
  offset : Nat
  deriving DecidableEq, Repr

namespace PageRun

def map (run : PageRun) : MapM Unit := mapRun run.start run.count run.generation run.offset

def indexes (run : PageRun) : List Nat := List.range' run.start run.count

def Follows (pages : Nat → RamPage) (run : PageRun) : Prop :=
  run.generation = (pages run.start).generation ∧
    ∀ place < run.count, (pages (run.start + place)).generation.id = run.generation.id ∧
      (pages (run.start + place)).offset = run.offset + place * ramPageSize

end PageRun

section Loops

variable {pageCount : Nat} {pages : Nat → RamPage}

theorem pageAt_inside {index : Nat} (inside : index < pageCount) :
    pageAt pageCount pages index = pure (pages index) := by
  simp [pageAt, require, inside]

/-- The inner loop takes the selected pages that follow each other. -/
theorem extendSelected_spec (start : Nat) (first : RamPage) {selected : List Nat}
    (inside : ∀ index ∈ selected, index < pageCount) (stop : Nat) :
    ∃ taken behind, selected = List.range' stop taken ++ behind ∧
      extendSelected pageCount pages start first selected stop = pure (stop + taken, behind) ∧
      ∀ place < taken, Continues first (pages (stop + place)) (stop + place - start) := by
  have nothing : ∀ (stop : Nat) (rest : List Nat), ∃ taken behind,
      rest = List.range' stop taken ++ behind ∧
      (pure (stop, rest) : MapM (Nat × List Nat)) = pure (stop + taken, behind) ∧
      ∀ place < taken, Continues first (pages (stop + place)) (stop + place - start) :=
    fun stop rest => ⟨0, rest, rfl, rfl, fun _ none => absurd none (Nat.not_lt_zero _)⟩
  induction selected generalizing stop with
  | nil => exact nothing stop []
  | cons next rest ih =>
    unfold extendSelected
    split
    next here =>
      subst here
      rw [pageAt_inside (inside next List.mem_cons_self), pure_bind]
      split
      next follows =>
        obtain ⟨taken, behind, split, returned, further⟩ := ih
          (fun index member => inside index (List.mem_cons_of_mem _ member)) (next + 1)
        refine ⟨taken + 1, behind, ?_, ?_, ?_⟩
        · rw [List.range'_succ, List.cons_append, ← split]
        · rw [returned, Nat.add_assoc, Nat.add_comm 1 taken]
        · intro place below
          cases place with
          | zero => exact follows
          | succ place =>
            have later := further place (Nat.lt_of_succ_lt_succ below)
            rwa [Nat.add_assoc, Nat.add_comm 1 place] at later
      next => exact nothing _ (next :: rest)
    next => exact nothing _ (next :: rest)

/-- `map_selected_pages` is a sequence of runs that list the selected pages one by one. -/
theorem mapSelectedFrom_spec {rounds : Nat} {selected : List Nat}
    (enough : selected.length ≤ rounds) (inside : ∀ index ∈ selected, index < pageCount) :
    ∃ runs : List PageRun, mapSelectedFrom pageCount pages rounds selected = forM runs PageRun.map ∧
      runs.flatMap PageRun.indexes = selected ∧ ∀ run ∈ runs, run.Follows pages := by
  induction rounds generalizing selected with
  | zero =>
    rw [List.eq_nil_of_length_eq_zero (Nat.le_zero.mp enough)]
    exact ⟨[], rfl, rfl, (by rintro _ ⟨⟩)⟩
  | succ rounds ih =>
    cases selected with
    | nil => exact ⟨[], rfl, rfl, (by rintro _ ⟨⟩)⟩
    | cons start rest =>
      have insideRest : ∀ index ∈ rest, index < pageCount :=
        fun index member => inside index (List.mem_cons_of_mem _ member)
      obtain ⟨taken, behind, split, returned, follows⟩ :=
        @extendSelected_spec pageCount pages start (pages start) rest insideRest (start + 1)
      have short : behind.length ≤ rounds := by
        rw [split, List.length_cons, List.length_append] at enough
        omega
      obtain ⟨runs, same, covered, good⟩ := ih short fun index member =>
        insideRest index (split ▸ List.mem_append_right _ member)
      have length : start + 1 + taken - start = taken + 1 := by omega
      refine ⟨⟨start, taken + 1, (pages start).generation, (pages start).offset⟩ :: runs,
        ?_, ?_, ?_⟩
      · rw [mapSelectedFrom, pageAt_inside (inside start List.mem_cons_self), pure_bind,
          returned, pure_bind]
        dsimp only
        rw [length, same, List.forM_cons]
        rfl
      · rw [List.flatMap_cons, covered, PageRun.indexes, List.range'_succ, List.cons_append,
          ← split]
      · intro run member
        cases List.mem_cons.mp member with
        | inr later => exact good run later
        | inl here =>
          subst here
          refine ⟨rfl, fun place below => ?_⟩
          cases place with
          | zero =>
            refine ⟨rfl, ?_⟩
            rw [Nat.zero_mul]
            rfl
          | succ place =>
            have next := follows place (Nat.lt_of_succ_lt_succ below)
            rwa [Nat.add_assoc, Nat.add_comm 1 place, Nat.add_sub_cancel_left] at next

/-- `map_all_pages` looks for its runs as if all pages from `stop` on were selected. -/
theorem extendAll_eq (start : Nat) (first : RamPage) {rounds stop : Nat}
    (enough : pageCount ≤ stop + rounds) :
    extendAll pageCount pages start first rounds stop = (do
      let found ← extendSelected pageCount pages start first
        (List.range' stop (pageCount - stop)) stop
      pure found.1) := by
  induction rounds generalizing stop with
  | zero =>
    have none : pageCount - stop = 0 := by omega
    rw [none]
    rfl
  | succ rounds ih =>
    unfold extendAll
    split
    next inside =>
      have more : pageCount - stop = pageCount - (stop + 1) + 1 := by omega
      rw [more, List.range'_succ, extendSelected, if_pos rfl, bind_assoc]
      congr 1
      funext page
      split
      next => exact ih (by omega)
      next => rw [pure_bind]
    next outside =>
      rw [Nat.sub_eq_zero_of_le (Nat.le_of_not_lt outside)]
      rfl

theorem mapAllFrom_eq (rounds start : Nat) :
    mapAllFrom pageCount pages rounds start =
      mapSelectedFrom pageCount pages rounds (List.range' start (pageCount - start)) := by
  induction rounds generalizing start with
  | zero => rfl
  | succ rounds ih =>
    unfold mapAllFrom
    split
    next inside =>
      have more : pageCount - start = pageCount - (start + 1) + 1 := by omega
      have below : ∀ index ∈ List.range' (start + 1) (pageCount - (start + 1)),
          index < pageCount := by
        intro index member
        rw [List.mem_range'_1] at member
        omega
      obtain ⟨taken, behind, split, returned, -⟩ :=
        extendSelected_spec start (pages start) below (start + 1)
      have rest : behind = List.range' (start + 1 + taken) (pageCount - (start + 1 + taken)) := by
        have lengths := congrArg List.length split
        rw [List.length_append, List.length_range', List.length_range'] at lengths
        have joined : List.range' (start + 1) (pageCount - (start + 1)) =
            List.range' (start + 1) taken ++
              List.range' (start + 1 + taken) (pageCount - (start + 1 + taken)) := by
          rw [List.range'_append_1]
          congr 1
          omega
        exact List.append_cancel_left (split.symm.trans joined)
      have stops := @extendAll_eq pageCount pages start (pages start) (pageCount - start)
        (start + 1) (by omega)
      rw [pageAt_inside inside, pure_bind, stops, returned, pure_bind, pure_bind, more,
        List.range'_succ, mapSelectedFrom, pageAt_inside inside, pure_bind, returned,
        pure_bind, ih, rest]
    next outside =>
      rw [Nat.sub_eq_zero_of_le (Nat.le_of_not_lt outside)]
      rfl

/-!
## What is mapped
-/

/-- Generations have ids of their own. -/
def Telling (pageCount : Nat) (pages : Nat → RamPage) : Prop :=
  ∀ left < pageCount, ∀ right < pageCount,
    (pages left).generation.id = (pages right).generation.id →
      (pages left).generation = (pages right).generation

def Backed (pageCount : Nat) (pages : Nat → RamPage) (memory : PrivateMapping Inode) (index : Nat) :
    Prop :=
  memory.own index = none ∧ ∃ generation : RamGeneration,
    generation.id = (pages index).generation.id ∧
    (Telling pageCount pages → generation = (pages index).generation) ∧
    memory.place index = some ⟨generation.file, (pages index).offset⟩

def Untouched (wanted : List Nat) (before after : PrivateMapping Inode) : Prop :=
  ∀ index, index ∉ wanted → after.place index = before.place index ∧
    after.own index = before.own index

/-- What mapping some pages comes to. -/
def Maps (pageCount : Nat) (pages : Nat → RamPage) (wanted : List Nat) (host : RamHost)
    (memory : PrivateMapping Inode) (result : Except RamError Unit)
    (after : RamHost × PrivateMapping Inode) : Prop :=
  after.1.replies ⊆ host.replies ∧ Untouched wanted memory after.2 ∧
    (result = .ok () → ∀ index ∈ wanted, Backed pageCount pages after.2 index) ∧
    ∀ error, result = .error error →
      ∃ errno, .failed errno ∈ host.replies ∧ error = .backend "map RAM run" (.os errno)

theorem ends_mapRun {run : PageRun} (follows : run.Follows pages)
    (inside : ∀ index ∈ run.indexes, index < pageCount) (host : RamHost)
    (memory : PrivateMapping Inode) :
    Ends run.map (host, memory) (Maps pageCount pages run.indexes host memory) := by
  have covers : ∀ index, index ∈ run.indexes ↔
      run.start ≤ index ∧ index < run.start + run.count := fun index => List.mem_range'_1
  simp only [PageRun.map, mapRun, MapM.onHost, ends_bind, ends_within]
  refine (ends_call _ host).mono ?_
  intro result after answered
  obtain ⟨-, fewer, failed⟩ := answered
  cases result with
  | error error =>
    refine ⟨fewer, fun _ _ => ⟨rfl, rfl⟩, (by rintro ⟨⟩), fun _ same => ?_⟩
    cases same
    exact failed error rfl
  | ok value =>
    refine ⟨fewer, fun index outside => ?_, fun _ index member => ?_, not_error⟩
    · rw [covers] at outside
      exact ⟨PrivateMapping.place_map_outside outside, if_neg outside⟩
    · have within := (covers index).mp member
      obtain ⟨first, each⟩ := follows
      obtain ⟨id, offset⟩ := each (index - run.start) (by omega)
      rw [Nat.add_sub_cancel' within.1] at id offset
      refine ⟨if_pos within, run.generation, id.symm, fun telling => ?_, ?_⟩
      · rw [first] at id ⊢
        exact telling run.start (inside run.start ((covers _).mpr (by omega))) index
          (inside index member) id.symm
      · exact (PrivateMapping.place_map within).trans (by rw [offset])

theorem ends_runs {runs : List PageRun} (follow : ∀ run ∈ runs, run.Follows pages)
    (distinct : (runs.flatMap PageRun.indexes).Nodup)
    (inside : ∀ index ∈ runs.flatMap PageRun.indexes, index < pageCount) (host : RamHost)
    (memory : PrivateMapping Inode) :
    Ends (forM runs PageRun.map) (host, memory)
      (Maps pageCount pages (runs.flatMap PageRun.indexes) host memory) := by
  induction runs generalizing host memory with
  | nil =>
    exact ⟨List.Subset.refl _, fun _ _ => ⟨rfl, rfl⟩, (by rintro _ _ ⟨⟩), (by rintro _ ⟨⟩)⟩
  | cons run rest ih =>
    rw [List.flatMap_cons] at distinct inside ⊢
    obtain ⟨-, distinctRest, apart⟩ := List.nodup_append.mp distinct
    rw [List.forM_cons, ends_bind]
    refine (ends_mapRun (follow run List.mem_cons_self)
      (fun index member => inside index (List.mem_append_left _ member)) host memory).mono ?_
    intro result middle mapped
    obtain ⟨middleHost, middleMemory⟩ := middle
    obtain ⟨fewer, untouched, backed, failed⟩ := mapped
    cases result with
    | error error =>
      refine ⟨fewer, fun index outside => ?_, (by rintro ⟨⟩), fun _ same => ?_⟩
      · exact untouched index fun member => outside (List.mem_append_left _ member)
      · cases same
        exact failed error rfl
    | ok value =>
      refine (ih (fun other member => follow other (List.mem_cons_of_mem _ member)) distinctRest
        (fun index member => inside index (List.mem_append_right _ member)) middleHost
        middleMemory).mono ?_
      intro last after further
      obtain ⟨fewerLater, untouchedLater, backedLater, failedLater⟩ := further
      refine ⟨List.Subset.trans fewerLater fewer, fun index outside => ?_,
        fun finished index member => ?_, fun error same => ?_⟩
      · rw [List.mem_append, not_or] at outside
        obtain ⟨place, own⟩ := untouched index outside.1
        obtain ⟨placeLater, ownLater⟩ := untouchedLater index outside.2
        exact ⟨placeLater.trans place, ownLater.trans own⟩
      · cases List.mem_append.mp member with
        | inr later => exact backedLater finished index later
        | inl here =>
          obtain ⟨own, generation, id, telling, place⟩ := backed rfl index here
          obtain ⟨placeLater, ownLater⟩ := untouchedLater index
            fun later => apart index here index later rfl
          exact ⟨ownLater.trans own, generation, id, telling, placeLater.trans place⟩
      · obtain ⟨errno, answered, named⟩ := failedLater error same
        exact ⟨errno, fewer answered, named⟩

/-- An operation is a sequence of calls of `map_run` whose pages, one after the other, are the
wanted pages; it maps each of them from its own place and touches no other. -/
structure MapsInRuns (pageCount : Nat) (pages : Nat → RamPage) (wanted : List Nat)
    (operation : MapM Unit) : Prop where
  issued : ∃ runs : List PageRun, operation = forM runs PageRun.map ∧
    runs.flatMap PageRun.indexes = wanted ∧ ∀ run ∈ runs, run.Follows pages
  mapped : ∀ host memory, Ends operation (host, memory) (Maps pageCount pages wanted host memory)

theorem mapsInRuns_selected {rounds : Nat} {selected : List Nat} (distinct : selected.Nodup)
    (enough : selected.length ≤ rounds) (inside : ∀ index ∈ selected, index < pageCount) :
    MapsInRuns pageCount pages selected (mapSelectedFrom pageCount pages rounds selected) := by
  obtain ⟨runs, same, covered, follow⟩ :=
    @mapSelectedFrom_spec pageCount pages rounds selected enough inside
  refine ⟨⟨runs, same, covered, follow⟩, fun host memory => ?_⟩
  rw [← covered] at distinct inside
  rw [same, ← covered]
  exact ends_runs follow distinct inside host memory

end Loops

/-- Both loops end without an index behind the pages. Their runs cover every wanted page once and
no other page, and every wanted page is mapped from its place unless the host fails. -/
theorem runs_map_wanted_pages (pageCount : Nat) (pages : Nat → RamPage) :
    (∀ selected : ExtTreeSet Nat, (∀ index ∈ selected, index < pageCount) →
      MapsInRuns pageCount pages selected.toList (mapSelectedPages pageCount pages selected)) ∧
    MapsInRuns pageCount pages (List.range pageCount) (mapAllPages pageCount pages) := by
  refine ⟨fun selected inside => ?_, ?_⟩
  · refine mapsInRuns_selected (TreeMap.toList_nodup _) (Nat.le_refl _) fun index member => ?_
    exact inside index (ExtTreeSet.mem_toList.mp member)
  · rw [mapAllPages, mapAllFrom_eq, Nat.sub_zero, ← List.range_eq_range']
    refine mapsInRuns_selected List.nodup_range ?_ fun index => List.mem_range.mp
    exact Nat.le_of_eq List.length_range

/-- Two pages that follow each other in one generation, a page of another generation that is left
out, and the page behind the two. -/
def scatteredPages : Nat → RamPage
  | 0 => ⟨1, ⟨1, 0⟩, 0⟩
  | 1 => ⟨2, ⟨1, 0⟩, 4096⟩
  | 2 => ⟨3, ⟨2, 1⟩, 8192⟩
  | _ => ⟨4, ⟨1, 0⟩, 12288⟩

theorem runs_map_scattered_pages :
    MapsInRuns 4 scatteredPages (ExtTreeSet.ofList [0, 1, 3]).toList
      (mapSelectedPages 4 scatteredPages (ExtTreeSet.ofList [0, 1, 3])) := by
  refine (runs_map_wanted_pages 4 scatteredPages).1 (ExtTreeSet.ofList [0, 1, 3]) ?_
  intro index member
  rw [ExtTreeSet.mem_ofList, List.contains_iff_mem] at member
  simp only [List.mem_cons, List.not_mem_nil, or_false] at member
  omega

end Minidox.Ram
