import Minidox.Fork.Forest
import Minidox.Foundation.Transition

/-!
# Every VM owns its bytes

What a fork forest is for. In the reference model each VM has a memory and files of
its own, as total maps from addresses to bytes that start as zeros. A fork copies all
of them, and a write changes the VM that it is made on. The forest gives the same
replies, as long as its counters last.
-/

set_option autoImplicit false

namespace Minidox.Fork

open Foundation Attempt

structure VmCopy where
  memory : ByteMap
  files : String → ByteMap

@[ext] structure DeepCopies where
  nextVm : Nat
  vms : VmId → Option VmCopy

namespace DeepCopies

def new : DeepCopies := { nextVm := 1, vms := fun _ => none }

def set (copies : DeepCopies) (vm : VmId) (copy : Option VmCopy) : DeepCopies :=
  { copies with vms := Function.update copies.vms vm copy }

def add (copies : DeepCopies) (copy : VmCopy) : DeepCopies × Reply :=
  ({ copies.set copies.nextVm (some copy) with nextVm := copies.nextVm + 1 }, .vm copies.nextVm)

def onVm (copies : DeepCopies) (vm : VmId) (call : VmCopy → DeepCopies × Reply) :
    DeepCopies × Reply :=
  match copies.vms vm with
  | none => (copies, .failed (.vmNotFound vm))
  | some copy => call copy

/-- The result of an access to a range of addresses, which must not wrap around. -/
def inRange (copies : DeepCopies) (offset len : Nat) (access : DeepCopies × Reply) :
    DeepCopies × Reply :=
  if offset + len < Word64.bound then access else (copies, .failed .rangeOverflow)

def step (copies : DeepCopies) : Action → DeepCopies × Reply
  | .createVm => copies.add { memory := ByteMap.zero, files := fun _ => ByteMap.zero }
  | .forkVm source => copies.onVm source fun copy => copies.add copy
  | .removeVm vm => copies.onVm vm fun _ => (copies.set vm none, .done)
  | .writeFile vm path offset bytes => copies.onVm vm fun copy =>
    copies.inRange offset bytes.length (copies.set vm (some { copy with
      files := Function.update copy.files path ((copy.files path).write offset bytes) }), .done)
  | .writeMemory vm guestAddress bytes => copies.onVm vm fun copy =>
    copies.inRange guestAddress bytes.length (copies.set vm (some { copy with
      memory := copy.memory.write guestAddress bytes }), .done)
  | .readFile vm path offset len => copies.onVm vm fun copy =>
    copies.inRange offset len (copies, .bytes ((copy.files path).read offset len))
  | .readMemory vm guestAddress len => copies.onVm vm fun copy =>
    copies.inRange guestAddress len (copies, .bytes (copy.memory.read guestAddress len))

end DeepCopies

/-!
## Pages and bytes
-/

namespace PageBranch

def content (branch : PageBranch) (path : String) : ByteMap :=
  Pages.joined pageSize (branch.pageBytes path)

theorem pageSize_pos : 0 < pageSize := by decide

theorem content_empty (path : String) : empty.content path = ByteMap.zero := by
  funext position
  simp [content, Pages.joined, pageBytes, page, empty, Overlay.lookup, ByteMap.zero]

theorem pageBytes_fork (branch : PageBranch) :
    branch.fork.1.pageBytes = branch.pageBytes ∧ branch.fork.2.pageBytes = branch.pageBytes := by
  have same : ∀ key, Overlay.lookup (∅ :: Overlay.push branch.writes branch.base) key =
      Overlay.lookup (branch.writes :: branch.base) key := by
    intro key
    rw [Overlay.lookup_empty_cons, Overlay.lookup_push]
  constructor
  · funext path number
    simp only [pageBytes, page, fork, same]
  · funext path number
    simp only [pageBytes, page, fork, same]

theorem content_fork (branch : PageBranch) :
    branch.fork.1.content = branch.content ∧ branch.fork.2.content = branch.content := by
  obtain ⟨source, child⟩ := branch.pageBytes_fork
  constructor
  · funext path
    rw [content, source, content]
  · funext path
    rw [content, child, content]

theorem pageBytes_insert (branch : PageBranch) (path other : String) (number : Nat) (page : Page) :
    pageBytes { branch with writes := branch.writes.insert (path, number) page } other =
      if other = path then Function.update (branch.pageBytes path) number page.bytes
      else branch.pageBytes other := by
  funext index
  simp only [pageBytes, PageBranch.page, Overlay.lookup_cons, TreeMap.getElem?_insert_ite,
    Prod.mk.injEq]
  by_cases here : other = path
  · subst here
    by_cases same : index = number
    · subst same
      simp
    · simp [same, pageBytes, PageBranch.page, Overlay.lookup_cons]
  · simp [here, pageBytes, PageBranch.page, Overlay.lookup_cons]

theorem ends_writePage {path : String} {number place : Nat} {data : List UInt8}
    (inside : place + data.length ≤ pageSize) (branch : PageBranch) (nextPage : Nat) :
    Ends (writePage path number place data) (branch, nextPage) fun result after =>
      (nextPage + 1 < Word64.bound ∧ result = .ok () ∧ after.2 = nextPage + 1 ∧
        after.1.content = Function.update branch.content path
          ((branch.content path).write (number * pageSize + place) data)) ∨
      (¬ nextPage + 1 < Word64.bound ∧ result = .error .pageIdOverflow ∧
        after = (branch, nextPage)) := by
  simp only [writePage, ends_bind, ends_get, Word64.checkedAdd]
  by_cases left : nextPage + 1 < Word64.bound
  · simp only [if_pos left, orThrow, ends_pure]
    refine .inl ⟨left, rfl, rfl, ?_⟩
    funext other
    change content { branch with writes := _ } other = _
    simp only [content, pageBytes_insert]
    by_cases here : other = path
    · subst here
      rw [if_pos rfl, Function.update_self, Pages.joined_write _ _ inside]
    · rw [if_neg here, Function.update_of_ne here, content]
  · simp only [if_neg left, orThrow, ends_throw]
    exact .inr ⟨left, trivial, trivial⟩

/-- How many bytes from a position on the page ids suffice for that are left. -/
def covered (nextPage position : Nat) : Nat :=
  (Word64.bound - 1 - nextPage) * pageSize - position % pageSize

theorem covered_exhausted {nextPage : Nat} (used : ¬ nextPage + 1 < Word64.bound)
    (position : Nat) : covered nextPage position = 0 := by
  have none_left : Word64.bound - 1 - nextPage = 0 := by omega
  rw [covered, none_left, Nat.zero_mul, Nat.zero_sub]

/-- The page of one round, and what the other page ids suffice for. The last round may
stop inside its page. -/
theorem covered_round {nextPage cursor stop : Nat} (left : nextPage + 1 < Word64.bound) :
    let width := Pages.span pageSize cursor stop
    (covered nextPage cursor = width + covered (nextPage + 1) (cursor + width)) ∨
      (cursor + width = max cursor stop ∧ width ≤ covered nextPage cursor) := by
  have ids : Word64.bound - 1 - nextPage = Word64.bound - 1 - (nextPage + 1) + 1 := by omega
  intro width
  have wide : width = min (pageSize - cursor % pageSize) (stop - cursor) := rfl
  clear_value width
  unfold covered
  rw [ids]
  generalize Word64.bound - 1 - (nextPage + 1) = others
  simp only [pageSize] at *
  by_cases inner : stop - cursor < 4096 - cursor % 4096
  · right
    omega
  · left
    have full : width = 4096 - cursor % 4096 := by omega
    have next : (cursor + width) % 4096 = 0 := by omega
    omega

/-- The rounds that are left of `write` overwrite as much of the range as there are page
ids for. -/
theorem ends_writeFrom {path : String} {offset : Nat} {bytes : List UInt8} {rounds cursor : Nat}
    (lower : offset ≤ cursor) (upper : cursor ≤ offset + bytes.length)
    (enough : offset + bytes.length - cursor ≤ rounds) (branch : PageBranch) (nextPage : Nat) :
    Ends (writeFrom path offset bytes (offset + bytes.length) rounds cursor) (branch, nextPage)
      fun result after =>
        result = (if offset + bytes.length - cursor ≤ covered nextPage cursor then .ok ()
          else .error .pageIdOverflow) ∧
        after.1.content = Function.update branch.content path ((branch.content path).write cursor
          ((bytes.drop (cursor - offset)).take (covered nextPage cursor))) := by
  induction rounds generalizing cursor branch nextPage with
  | zero =>
    rw [if_pos (by omega), List.drop_eq_nil_of_le (by omega), List.take_nil, ByteMap.write_nil,
      Function.update_eq_self]
    exact ⟨rfl, rfl⟩
  | succ rounds ih =>
    rw [writeFrom, ends_onlyIf]
    constructor
    · intro more
      have round (left : nextPage + 1 < Word64.bound) :=
        @covered_round nextPage cursor (offset + bytes.length) left
      have moved : 0 < Pages.span pageSize cursor (offset + bytes.length) :=
        Pages.span_pos pageSize_pos more
      have short := Pages.span_le pageSize cursor (offset + bytes.length)
      have inPage : cursor % pageSize + Pages.span pageSize cursor (offset + bytes.length) ≤
          pageSize := Pages.span_inside pageSize_pos _ _
      generalize count : Pages.span pageSize cursor (offset + bytes.length) = width at *
      have rest : cursor + width - offset = cursor - offset + width := by omega
      have length : (bytes.drop (cursor - offset)).length = offset + bytes.length - cursor := by
        rw [List.length_drop]
        omega
      generalize chunk : bytes.drop (cursor - offset) = data at *
      have taken : (data.take width).length = width := by
        rw [List.length_take]
        omega
      rw [ends_bind]
      refine (ends_writePage (by rw [taken]; exact inPage) branch nextPage).mono ?_
      rintro result ⟨middle, next⟩ (⟨left, rfl, rfl, written⟩ | ⟨used, rfl, unchanged⟩)
      · refine (ih (by omega) (by omega) (by omega) middle (nextPage + 1)).mono ?_
        rintro result after ⟨rfl, remaining⟩
        rw [Nat.div_add_mod'] at written
        rw [rest, ← List.drop_drop, chunk, written, Function.update_idem,
          Function.update_self] at remaining
        have joins := ByteMap.write_append (branch.content path) cursor (data.take width)
          ((data.drop width).take (covered (nextPage + 1) (cursor + width)))
        rw [taken] at joins
        rw [remaining, joins]
        rcases round left with further | ⟨ended, within⟩
        · rw [further, List.take_add]
          exact ⟨if_congr (by omega) rfl rfl, rfl⟩
        · rw [List.drop_eq_nil_of_le (by omega), List.take_nil, List.append_nil,
            List.take_of_length_le (by omega), List.take_of_length_le (by omega),
            if_pos (by omega), if_pos (by omega)]
          exact ⟨rfl, rfl⟩
      · cases unchanged
        rw [covered_exhausted used, if_neg (by omega), List.take_zero, ByteMap.write_nil,
          Function.update_eq_self]
        exact ⟨rfl, rfl⟩
    · intro reached
      rw [if_pos (by omega), List.drop_eq_nil_of_le (by omega), List.take_nil, ByteMap.write_nil,
        Function.update_eq_self]
      exact ⟨rfl, rfl⟩

theorem ends_write (path : String) (offset : Nat) (bytes : List UInt8) (branch : PageBranch)
    (nextPage : Nat) :
    Ends (write path offset bytes) (branch, nextPage) fun result after =>
      (offset + bytes.length < Word64.bound ∧
        result = (if bytes.length ≤ covered nextPage offset then .ok ()
          else .error .pageIdOverflow) ∧
        after.1.content = Function.update branch.content path
          ((branch.content path).write offset (bytes.take (covered nextPage offset)))) ∨
      (¬ offset + bytes.length < Word64.bound ∧ result = .error .rangeOverflow ∧
        after = (branch, nextPage)) := by
  simp only [write, ends_bind, Word64.checkedAdd]
  by_cases fits : offset + bytes.length < Word64.bound
  · simp only [if_pos fits, orThrow, ends_pure]
    refine (ends_writeFrom (Nat.le_refl offset) (by omega) (by omega) branch nextPage).mono ?_
    rintro result after ⟨ended, written⟩
    rw [Nat.sub_self, List.drop_zero] at written
    rw [Nat.add_sub_cancel_left] at ended
    exact .inl ⟨fits, ended, written⟩
  · simp only [if_neg fits, orThrow, ends_throw]
    exact .inr ⟨fits, trivial, trivial⟩

theorem readFrom_eq_read (branch : PageBranch) (path : String) {rounds cursor stop : Nat}
    (enough : stop - cursor ≤ rounds) :
    branch.readFrom path stop rounds cursor =
      (branch.content path).read cursor (stop - cursor) := by
  induction rounds generalizing cursor with
  | zero =>
    rw [readFrom, show stop - cursor = 0 by omega]
    rfl
  | succ rounds ih =>
    rw [readFrom]
    split
    next more =>
      have moved : 0 < Pages.span pageSize cursor stop := Pages.span_pos pageSize_pos more
      have short := Pages.span_le pageSize cursor stop
      have inPage := Pages.span_inside pageSize_pos cursor stop
      dsimp only
      rw [Pages.read_page _ _ inPage, Nat.div_add_mod', ih (by omega), Nat.sub_add_eq]
      change (branch.content path).read _ _ ++ _ = _
      rw [ByteMap.read_append]
      congr 1
      omega
    next reached =>
      rw [show stop - cursor = 0 by omega]
      rfl

theorem read_eq (branch : PageBranch) (path : String) (offset len : Nat) :
    branch.read path offset len = if offset + len < Word64.bound then
      .ok ((branch.content path).read offset len) else .error .rangeOverflow := by
  unfold read Word64.checkedAdd
  split
  next overflow =>
    split at overflow
    next => cases overflow
    next outside => rw [if_neg outside]
  next stop accepted =>
    split at accepted
    next inside =>
      cases accepted
      rw [if_pos inside, readFrom_eq_read _ _ (by omega), Nat.add_sub_cancel_left]
    next => cases accepted

end PageBranch

/-!
## The forest gives the replies of deep copies
-/

namespace VmState

def copy (state : VmState) : VmCopy :=
  { memory := state.memory.content "", files := state.filesystem.content }

end VmState

namespace ForkForest

def copies (forest : ForkForest) : DeepCopies :=
  { nextVm := forest.nextVm, vms := fun vm => forest.vms[vm]?.map VmState.copy }

/-- The counters of the forest last for the action: a new VM gets an id that leaves room
for the next one, and a write finds a page id for each of its pages. -/
def NotExhausted (forest : ForkForest) (action : Action) : Prop :=
  (action.makesVm → forest.nextVm + 1 < Word64.bound) ∧
    (forest.step action).2 ≠ .failed .pageIdOverflow

instance (forest : ForkForest) (action : Action) : Decidable (forest.NotExhausted action) := by
  unfold NotExhausted
  infer_instance

theorem copies_insert (forest : ForkForest) (vm nextPage : Nat) (state : VmState) :
    copies { forest with nextPage, vms := forest.vms.insert vm state } =
      forest.copies.set vm (some state.copy) := by
  simp only [copies, DeepCopies.set, DeepCopies.mk.injEq, true_and]
  funext other
  rw [TreeMap.getElem?_insert_ite, Function.update_apply]
  split <;> rfl

theorem set_self (forest : ForkForest) {vm : VmId} {state : VmState} {copy : VmCopy}
    (found : forest.vms[vm]? = some state) (same : state.copy = copy) :
    forest.copies.set vm (some copy) = forest.copies := by
  have there : forest.copies.vms vm = some copy := by simp [copies, found, same]
  rw [DeepCopies.set, ← there, Function.update_eq_self]

def replyOf {α : Type} (reply : α → Reply) : Except Error α → Reply
  | .ok value => reply value
  | .error error => .failed error

/-- The operation does to the copies of the forest, and replies, what the target says,
unless it runs out of page ids. -/
def Simulates {α : Type} (forest : ForkForest) (operation : ForestM α) (reply : α → Reply)
    (target : DeepCopies × Reply) : Prop :=
  Ends operation forest fun result after =>
    result = .error .pageIdOverflow ∨ target = (after.copies, replyOf reply result)

section Simulation

variable {α : Type} {forest : ForkForest} {reply : α → Reply}

theorem Simulates.answer {operation : ForestM α} {target : DeepCopies × Reply}
    (simulates : forest.Simulates operation reply target)
    (lasts : (forest.answer operation reply).2 ≠ .failed .pageIdOverflow) :
    target = ((forest.answer operation reply).1.copies, (forest.answer operation reply).2) := by
  unfold Simulates Ends at simulates
  unfold ForkForest.answer at lasts ⊢
  split at lasts
  next value after executed =>
    rw [executed] at simulates
    exact simulates.resolve_left fun failed => by cases failed
  next error after executed =>
    rw [executed] at simulates
    exact simulates.resolve_left fun failed =>
      lasts (congrArg Reply.failed (Except.error.inj failed))

theorem simulates_onVm {vm : VmId} {operation : VmState → ForestM α}
    {call : VmCopy → DeepCopies × Reply}
    (present : ∀ state, forest.vms[vm]? = some state →
      forest.Simulates (operation state) reply (call state.copy)) :
    forest.Simulates (lookupVm vm >>= operation) reply (forest.copies.onVm vm call) := by
  unfold Simulates
  simp only [lookupVm, ends_bind, ends_get]
  refine ends_orThrow (fun state found => ?_) fun absent => .inr ?_
  · have known : forest.copies.onVm vm call = call state.copy := by
      simp [DeepCopies.onVm, copies, found]
    rw [known]
    exact present state found
  · simp [DeepCopies.onVm, copies, absent, replyOf]

theorem simulates_insertVm (state : VmState) (lasts : forest.nextVm + 1 < Word64.bound) :
    forest.Simulates (insertVm state) .vm (forest.copies.add state.copy) := by
  have next : Word64.wrappingAdd forest.nextVm 1 = forest.nextVm + 1 := Nat.mod_eq_of_lt lasts
  have inserted := congrArg DeepCopies.vms
    (copies_insert forest forest.nextVm forest.nextPage state)
  simp only [Simulates, insertVm, ends_bind, ends_get, ends_set, ends_pure, replyOf,
    DeepCopies.add, Prod.mk.injEq, next]
  exact .inr ⟨DeepCopies.ext rfl inserted.symm, rfl⟩

theorem simulates_forkVm (parent : VmId) (lasts : forest.nextVm + 1 < Word64.bound) :
    forest.Simulates (forkVm parent) .vm (forest.copies.step (.forkVm parent)) := by
  refine simulates_onVm fun state found => ?_
  obtain ⟨memory, childMemory⟩ := state.memory.content_fork
  obtain ⟨filesystem, childFilesystem⟩ := state.filesystem.content_fork
  have source : VmState.copy ⟨state.memory.fork.1, state.filesystem.fork.1⟩ = state.copy := by
    rw [VmState.copy, VmState.copy, memory, filesystem]
  have child : VmState.copy ⟨state.memory.fork.2, state.filesystem.fork.2⟩ = state.copy := by
    rw [VmState.copy, VmState.copy, childMemory, childFilesystem]
  have kept := (copies_insert forest parent forest.nextPage
    ⟨state.memory.fork.1, state.filesystem.fork.1⟩).trans (set_self forest found source.symm)
  unfold Simulates
  simp only [ends_bind, ends_modify]
  rw [← kept, ← child]
  exact simulates_insertVm _ lasts

theorem simulates_removeVm (vm : VmId) :
    forest.Simulates (removeVm vm) (fun _ => .done) (forest.copies.step (.removeVm vm)) := by
  refine simulates_onVm fun state found => .inr (Prod.ext (DeepCopies.ext rfl ?_) rfl)
  funext other
  simp only [exec_modify, copies, DeepCopies.set, TreeMap.getElem?_erase_ite, Function.update_apply]
  split <;> rfl

theorem simulates_writeBranch {vm : VmId} {state : VmState} {branch : PageBranch} {path : String}
    {offset : Nat} {bytes : List UInt8} {update : PageBranch → VmState} {copy : VmCopy}
    (found : forest.vms[vm]? = some state) (same : update branch = state)
    (written : ∀ after : PageBranch, after.content =
      Function.update branch.content path ((branch.content path).write offset bytes) →
      (update after).copy = copy) :
    forest.Simulates (writeBranch vm branch update path offset bytes) (fun _ => .done)
      (forest.copies.inRange offset bytes.length (forest.copies.set vm (some copy), .done)) := by
  unfold Simulates writeBranch
  rw [ends_within]
  refine (PageBranch.ends_write path offset bytes branch forest.nextPage).mono ?_
  rintro result ⟨after, nextPage⟩ (⟨inside, rfl, content⟩ | ⟨outside, rfl, unchanged⟩)
  · split
    next lasts =>
      rw [List.take_of_length_le lasts] at content
      refine .inr ?_
      dsimp only
      rw [copies_insert, written after content, DeepCopies.inRange, if_pos inside]
      rfl
    next => exact .inl rfl
  · refine .inr ?_
    cases unchanged
    dsimp only
    rw [copies_insert, same, set_self forest found rfl, DeepCopies.inRange, if_neg outside]
    rfl

theorem simulates_read {branch : PageBranch} {path : String} {offset len : Nat} :
    forest.Simulates (Attempt.ofExcept (branch.read path offset len)) .bytes
      (forest.copies.inRange offset len
        (forest.copies, .bytes ((branch.content path).read offset len))) := by
  unfold Simulates
  rw [ends_ofExcept, PageBranch.read_eq, DeepCopies.inRange]
  split
  next => exact .inr rfl
  next => exact .inr rfl

end Simulation

/-- One step of the forest is the step of the deep copies that it stands for. -/
theorem step_copies (forest : ForkForest) (action : Action) (lasts : forest.NotExhausted action) :
    forest.copies.step action = ((forest.step action).1.copies, (forest.step action).2) := by
  cases action with
  | createVm =>
    have created : VmState.copy ⟨PageBranch.empty, PageBranch.empty⟩ =
        ⟨ByteMap.zero, fun _ => ByteMap.zero⟩ := by
      rw [VmState.copy, PageBranch.content_empty]
      exact congrArg _ (funext PageBranch.content_empty)
    rw [DeepCopies.step, ← created]
    exact (simulates_insertVm _ (lasts.1 rfl)).answer lasts.2
  | forkVm source => exact (simulates_forkVm source (lasts.1 rfl)).answer lasts.2
  | removeVm vm => exact (simulates_removeVm vm).answer lasts.2
  | writeFile vm path offset bytes =>
    refine Simulates.answer (simulates_onVm fun state found =>
      simulates_writeBranch found rfl fun after content => ?_) lasts.2
    rw [VmState.copy, content]
    rfl
  | writeMemory vm guestAddress bytes =>
    refine Simulates.answer (simulates_onVm fun state found =>
      simulates_writeBranch found rfl fun after content => ?_) lasts.2
    simp only [VmState.copy, content, Function.update_self]
  | readFile vm path offset len =>
    exact Simulates.answer (simulates_onVm fun state found => simulates_read) lasts.2
  | readMemory vm guestAddress len =>
    exact Simulates.answer (simulates_onVm fun state found => simulates_read) lasts.2

/-- In every run whose counters last, the forest gives the replies of a model in which
every VM owns its bytes. -/
theorem forest_refines_deep_copies (actions : List Action)
    (lasts : Admitted (fun forest action => (forest.step action).1) NotExhausted new actions) :
    replies step new actions = replies DeepCopies.step DeepCopies.new actions := by
  have start : new.copies = DeepCopies.new := by
    simp only [copies, new, DeepCopies.new, DeepCopies.mk.injEq, true_and]
    funext vm
    simp
  rw [← start]
  exact replies_eq copies step_copies lasts

/-- A VM and its fork write to one page, after a write that crosses a page bound. -/
def divergingRun : List Action :=
  [.createVm, .writeMemory 1 4095 [1, 2], .forkVm 1, .writeMemory 2 4096 [9], .removeVm 1,
    .readMemory 2 4095 2, .readMemory 1 4095 2]

theorem forest_refines_deep_copies_diverging :
    (replies step new divergingRun).map Prod.snd =
      [.vm 1, .done, .vm 2, .done, .done, .bytes [1, 9], .failed (.vmNotFound 1)] := by
  rw [forest_refines_deep_copies divergingRun (by decide +kernel)]
  decide +kernel

end ForkForest

end Minidox.Fork
