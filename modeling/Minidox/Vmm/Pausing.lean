import Minidox.Vmm.Supervisor

/-!
# Paused machines are resumed

Whatever the calls of the hypervisors, memories and filesystems come to, an operation resumes
every machine that it paused, once. A checkpoint is published only when all machines were
saved while all of them were paused, and all could be resumed.
-/

set_option autoImplicit false

namespace Minidox.Vmm

open Foundation Attempt

variable {parts : Parts} {α : Type}

def Call.on (id : KvmVmId) : Call parts → Bool
  | .pause vm _ => vm == id
  | .resume vm _ => vm == id
  | _ => false

def callsOn (id : KvmVmId) (calls : List (Call parts)) : List (Call parts) :=
  calls.filter (Call.on id)

/-- Each successful pause is followed by one resume, and there are no other resumes. -/
def Answered : List (Call parts) → Prop
  | [] => True
  | .pause _ false :: rest => Answered rest
  | .pause _ true :: .resume _ _ :: rest => Answered rest
  | _ => False

def NoneLeftPaused (made : List (Call parts)) : Prop :=
  ∀ id, Answered (callsOn id made)

def madeBy (operation : SupervisorM parts α) (supervisor : KvmSupervisor parts) :
    List (Call parts) :=
  (operation.exec { supervisor with calls := [] }).2.calls

theorem Answered.append {first second : List (Call parts)} (left : Answered first)
    (right : Answered second) : Answered (first ++ second) := by
  fun_induction Answered first with
  | case1 => exact right
  | case2 vm rest ih => exact ih left
  | case3 vm other resumed rest ih => exact ih left
  | case4 calls => exact left.elim

theorem callsOn_append (id : KvmVmId) (first second : List (Call parts)) :
    callsOn id (first ++ second) = callsOn id first ++ callsOn id second :=
  List.filter_append ..

theorem callsOn_cons (id : KvmVmId) (call : Call parts) (rest : List (Call parts)) :
    callsOn id (call :: rest) = if call.on id then call :: callsOn id rest else callsOn id rest :=
  List.filter_cons ..

/-!
## Operations on one machine
-/

def Silent (before after : KvmSupervisor parts) : Prop := after.calls = before.calls

/-- The calls made leave no machine paused. -/
def Resumed (before after : KvmSupervisor parts) : Prop :=
  ∃ made, after.calls = before.calls ++ made ∧ NoneLeftPaused made

instance : Std.Refl (@Silent parts) := ⟨fun _ => rfl⟩

instance : IsTrans (KvmSupervisor parts) Silent := ⟨fun _ _ _ first second => second.trans first⟩

instance : Std.Refl (@Resumed parts) := ⟨fun _ => ⟨[], (List.append_nil _).symm, fun _ => trivial⟩⟩

instance : IsTrans (KvmSupervisor parts) Resumed where
  trans before middle after first second := by
    obtain ⟨made, calls, answered⟩ := first
    obtain ⟨more, further, answeredMore⟩ := second
    refine ⟨made ++ more, by rw [further, calls, List.append_assoc], fun id => ?_⟩
    rw [callsOn_append]
    exact (answered id).append (answeredMore id)

theorem silent_ask (call : Attempt parts.World parts.Failure α) :
    Moves Silent (ask call) :=
  moves_within fun _ _ => rfl

theorem silent_askTo (operation : String) (call : Attempt parts.World parts.Failure α) :
    Moves Silent (askTo operation call) :=
  moves_within fun _ _ => rfl

theorem resumed_of_silent {operation : SupervisorM parts α} (silent : Moves Silent operation) :
    Moves Resumed operation := by
  intro supervisor
  refine (silent supervisor).mono fun _ after same => ?_
  exact ⟨[], by rw [same, List.append_nil], fun _ => trivial⟩

def Notes (call : Bool → Call parts) (operation : SupervisorM parts Unit) : Prop :=
  ∀ supervisor, Ends operation supervisor fun result after =>
    after.calls = supervisor.calls ++ [call result.isOk]

theorem notes_noting (call : Bool → Call parts) {operation : SupervisorM parts Unit}
    (silent : Moves Silent operation) : Notes call (noting call operation) := by
  intro supervisor
  simp only [noting, record, ends_bind, ends_settle]
  refine (silent supervisor).mono fun result middle same => ?_
  simp only [ends_modify, ends_ofExcept]
  rw [same]

theorem notes_pause (backend : VmBackend parts) (id : KvmVmId) :
    Notes (.pause id) (backend.pause id) := by
  cases backend with
  | raw vm => exact notes_noting _ (silent_askTo _ _)
  | cloud vm => exact notes_noting _ (silent_ask _)

theorem notes_resume (backend : VmBackend parts) (id : KvmVmId) :
    Notes (.resume id) (backend.resume id) := by
  cases backend with
  | raw vm => exact notes_noting _ (silent_askTo _ _)
  | cloud vm => exact notes_noting _ (silent_ask _)

/-!
## Brackets of calls
-/

def pauses (ids : List KvmVmId) : List (Call parts) := ids.map (.pause · true)

def resumes (outcomes : List (KvmVmId × Bool)) : List (Call parts) :=
  outcomes.map fun outcome => .resume outcome.1 outcome.2

theorem callsOn_pauses {ids : List KvmVmId} (distinct : ids.Nodup) (id : KvmVmId) :
    callsOn id (pauses ids : List (Call parts)) = if id ∈ ids then [.pause id true] else [] := by
  have filtered : callsOn id (pauses ids : List (Call parts)) =
      (ids.filter (· == id)).map (.pause · true) := List.filter_map
  rw [filtered, List.filter_beq, distinct.count]
  split <;> rfl

theorem callsOn_resumes {outcomes : List (KvmVmId × Bool)}
    (distinct : (outcomes.map Prod.fst).Nodup) (id : KvmVmId) :
    ∃ succeeded, callsOn id (resumes outcomes : List (Call parts)) =
      if id ∈ outcomes.map Prod.fst then [.resume id succeeded] else [] := by
  induction outcomes with
  | nil => exact ⟨true, rfl⟩
  | cons outcome rest ih =>
    obtain ⟨fresh, distinct⟩ := List.nodup_cons.mp distinct
    obtain ⟨succeeded, resumed⟩ := ih distinct
    by_cases same : outcome.1 = id
    · subst same
      rw [if_neg fresh] at resumed
      exact ⟨outcome.2, by
        rw [resumes, List.map_cons, callsOn_cons, ← resumes, resumed]; simp [Call.on]⟩
    · refine ⟨succeeded, ?_⟩
      rw [resumes, List.map_cons, callsOn_cons, ← resumes, resumed]
      simp [Call.on, same, Ne.symm same]

/-- Machines are paused, something else happens, and each of them is resumed. -/
theorem noneLeftPaused_around {ids : List KvmVmId} {outcomes : List (KvmVmId × Bool)}
    {inside last : List (Call parts)} (distinct : ids.Nodup)
    (all : outcomes.map Prod.fst = ids.reverse)
    (meanwhile : ∀ id, Answered (callsOn id inside) ∧ (id ∈ ids → callsOn id inside = []))
    (silent : ∀ id, callsOn id last = []) :
    NoneLeftPaused (pauses ids ++ inside ++ resumes outcomes ++ last) := by
  intro id
  obtain ⟨succeeded, resumed⟩ :=
    @callsOn_resumes parts outcomes (by rwa [all, List.nodup_reverse]) id
  rw [all] at resumed
  simp only [callsOn_append, callsOn_pauses distinct, resumed, silent, List.append_nil,
    List.mem_reverse]
  by_cases member : id ∈ ids
  · rw [if_pos member, if_pos member, (meanwhile id).2 member]
    trivial
  · rw [if_neg member, if_neg member, List.append_nil]
    exact (meanwhile id).1

theorem noneLeftPaused_failed (id : KvmVmId) :
    NoneLeftPaused [(.pause id false : Call parts)] := by
  intro other
  rw [callsOn_cons]
  split <;> trivial

namespace KvmSupervisor

theorem resumed_between {id : KvmVmId} {pause resume : SupervisorM parts Unit}
    {body : SupervisorM parts α} (pauses : Notes (.pause id) pause)
    (resumes : Notes (.resume id) resume) (silent : Moves Silent body) :
    Moves Resumed (between pause resume body) := by
  intro supervisor
  simp only [between, ends_bind]
  refine (pauses supervisor).mono fun result paused calls => ?_
  cases result with
  | error error => exact ⟨_, calls, noneLeftPaused_failed id⟩
  | ok value =>
    refine ends_settle.mpr ((silent paused).mono fun outcome inside same => ?_)
    refine ends_settle.mpr ((resumes inside).mono fun resumed after further => ?_)
    refine ⟨[.pause id true, .resume id resumed.isOk], further.trans ?_, ?_⟩
    · rw [same, calls, List.append_assoc]
      rfl
    · exact @noneLeftPaused_around parts [id] [(id, resumed.isOk)] [] []
        (List.nodup_singleton id) rfl
        (fun _ => ⟨trivial, fun _ => rfl⟩) fun _ => rfl

theorem resumed_whilePaused (id : KvmVmId) (vm : SupervisedVm parts) {body : SupervisorM parts α}
    (silent : Moves Silent body) : Moves Resumed (whilePaused id vm body) :=
  moves_bind (resumed_between (notes_pause _ id) (notes_resume _ id) silent) fun _ =>
    moves_bind (moves_ofExcept _) fun value => moves_bind (moves_ofExcept _) fun _ =>
      moves_pure value

theorem resumed_vm (id : KvmVmId) : Moves Resumed (vm id : SupervisorM parts _) := by
  refine moves_bind moves_get fun supervisor state => ?_
  exact ends_orThrow (fun _ _ => Std.Refl.refl _) fun _ => Std.Refl.refl _

theorem resumed_onVm (id : KvmVmId)
    (call : SupervisedVm parts → Attempt parts.World parts.Failure α) :
    Moves Resumed (vm id >>= fun vm => whilePaused id vm (ask (call vm))) :=
  moves_bind (resumed_vm id) fun vm => resumed_whilePaused id vm (silent_ask _)

theorem silent_insertVm (vm : SupervisedVm parts) : Moves Silent (insertVm vm) := fun _ => rfl

theorem resumed_forkRawVm (id : KvmVmId) (source : SupervisedVm parts) (backend : parts.RawVm) :
    Moves Resumed (forkRawVm id source backend) := by
  refine moves_bind (resumed_of_silent (silent_askTo _ _)) fun childVm => moves_bind
    (resumed_between (notes_noting _ (silent_askTo _ _)) (notes_noting _ (silent_askTo _ _)) ?_)
    fun outcome => ?_
  · exact moves_bind (silent_ask _) fun _ => moves_bind (silent_ask _) fun _ =>
      moves_bind (silent_ask _) fun _ => moves_pure _
  · refine moves_bind (moves_ofExcept _) fun child => ?_
    cases outcome.2 with
    | error error => exact moves_bind (resumed_of_silent (silent_ask _)) fun _ => moves_throw _
    | ok value => exact resumed_of_silent (silent_insertVm _)

theorem resumed_forkCloudVm (id : KvmVmId) (source : SupervisedVm parts)
    (backend : parts.CloudVm) : Moves Resumed (forkCloudVm id source backend) := by
  refine moves_bind (resumed_of_silent (silent_ask _)) fun _ =>
    moves_bind (resumed_of_silent (silent_ask _)) fun preparation =>
      moves_bind (resumed_whilePaused id source ?_) fun child => ?_
  · exact moves_bind (silent_ask _) fun _ => moves_bind (silent_ask _) fun _ =>
      moves_bind (silent_ask _) fun _ => moves_pure _
  · refine moves_bind (resumed_of_silent (silent_ask _)) fun _ =>
      moves_bind (resumed_of_silent (silent_ask _)) fun _ =>
        moves_bind (resumed_of_silent (silent_ask _)) fun _ =>
          moves_bind (resumed_of_silent (silent_ask _)) fun childBackend =>
            moves_bind (fun supervisor => ?_) fun _ => resumed_of_silent (silent_insertVm _)
    refine (notes_noting .resumeChild (silent_ask _) supervisor).mono fun result after calls => ?_
    exact ⟨_, calls, fun _ => trivial⟩

theorem resumed_forkVm (source : KvmVmId) :
    Moves Resumed (forkVm source : SupervisorM parts _) := by
  refine moves_bind (resumed_vm source) fun vm => ?_
  cases vm.backend with
  | raw backend => exact resumed_forkRawVm source vm backend
  | cloud backend => exact resumed_forkCloudVm source vm backend

/-!
## Checkpoints
-/

theorem ends_resumeAll (vms : Numbered parts)
    (outcome : Except (SupervisorError parts.Failure) Unit) (supervisor : KvmSupervisor parts) :
    Ends (resumeAll vms outcome) supervisor fun result after => ∃ final,
      ∃ resumed : List (KvmVmId × Bool), result = .ok final ∧
        resumed.map Prod.fst = vms.map Prod.fst ∧
      after.calls = supervisor.calls ++ resumes resumed ∧
      (final.isOk → outcome.isOk ∧ resumed = vms.map fun entry => (entry.1, true)) := by
  induction vms generalizing outcome supervisor with
  | nil => exact ⟨outcome, [], rfl, rfl, (List.append_nil _).symm, fun ok => ⟨ok, rfl⟩⟩
  | cons entry rest ih =>
    simp only [resumeAll, ends_bind, ends_settle]
    refine (notes_resume _ _ supervisor).mono fun result middle calls => ?_
    refine (ih _ middle).mono fun _ after ends => ?_
    obtain ⟨final, resumed, rfl, all, further, whole⟩ := ends
    refine ⟨final, (entry.1, result.isOk) :: resumed, rfl, by simp [all], ?_, fun ok => ?_⟩
    · rw [further, calls, List.append_assoc]
      rfl
    · obtain ⟨kept, rfl⟩ := whole ok
      cases outcome with
      | error error => exact absurd kept (by rintro ⟨⟩)
      | ok value => exact ⟨rfl, congrArg (fun succeeded => (entry.1, succeeded) :: _) kept⟩

/-- All machines are paused, or the first ones are and are resumed when the next one cannot
be paused. -/
theorem ends_pauseAll (paused vms : Numbered parts) (supervisor : KvmSupervisor parts) :
    Ends (pauseAll paused vms) supervisor fun result after => match result with
      | .ok _ => after.calls = supervisor.calls ++ pauses (vms.map Prod.fst)
      | .error _ => ∃ first id rest, ∃ resumed : List (KvmVmId × Bool),
          vms.map Prod.fst = first ++ id :: rest ∧
          resumed.map Prod.fst = (paused.map Prod.fst ++ first).reverse ∧
          after.calls = supervisor.calls ++
            (pauses first ++ [.pause id false] ++ resumes resumed) := by
  induction vms generalizing paused supervisor with
  | nil => exact (List.append_nil _).symm
  | cons entry others ih =>
    rw [pauseAll, ends_bind]
    refine ends_settle.mpr ((notes_pause _ _ supervisor).mono fun result middle calls => ?_)
    cases result with
    | error error =>
      simp only [ends_bind]
      refine (ends_resumeAll paused.reverse (.ok ()) middle).mono fun _ after ends => ?_
      obtain ⟨final, resumed, rfl, all, further, -⟩ := ends
      refine ⟨[], entry.1, others.map Prod.fst, resumed, rfl, by simp [all], ?_⟩
      exact further.trans (by rw [calls, List.append_assoc]; rfl)
    | ok value =>
      refine (ih (paused ++ [entry]) middle).mono fun result after ends => ?_
      cases result with
      | ok value =>
        rw [show after.calls = _ from ends, calls, List.append_assoc]
        rfl
      | error error =>
        obtain ⟨first, id, rest, resumed, whole, all, further⟩ := ends
        refine ⟨entry.1 :: first, id, rest, resumed, by simp [whole], by simp [all], ?_⟩
        rw [further, calls, List.append_assoc]
        rfl

theorem silent_durableBackend (vm : SupervisedVm parts) : Moves Silent (durableBackend vm) := by
  unfold durableBackend
  cases vm.backend with
  | raw raw => exact moves_bind (silent_ask _) fun _ => moves_pure _
  | cloud cloud =>
    exact moves_bind (silent_ask _) fun _ => moves_bind (silent_ask _) fun _ => moves_pure _

theorem silent_saveVm (storage : String) (entry : KvmVmId × SupervisedVm parts) :
    Moves Silent (saveVm storage entry) :=
  moves_bind (silent_durableBackend _) fun _ => moves_bind (silent_ask _) fun _ =>
    moves_bind (silent_ask _) fun _ => moves_pure _

theorem returns_saveVm (storage : String) (entry : KvmVmId × SupervisedVm parts) :
    Returns (fun saved => saved.id = entry.1) (saveVm storage entry) := by
  refine returns_bind fun backend => returns_bind fun filesystem => returns_bind fun ram => ?_
  exact returns_pure rfl

theorem ends_saveAll (storage : String) (vms : Numbered parts) (supervisor : KvmSupervisor parts) :
    Ends (saveAll storage vms) supervisor fun result after => ∃ made : List parts.SavedVm,
      after.calls = supervisor.calls ++ made.map .captured ∧
      ∀ saved, result = .ok saved → saved = made ∧ saved.map (·.id) = vms.map Prod.fst := by
  induction vms generalizing supervisor with
  | nil => exact ⟨[], (List.append_nil _).symm, by rintro saved ⟨⟩; exact ⟨rfl, rfl⟩⟩
  | cons entry rest ih =>
    rw [saveAll, ends_bind]
    refine ((silent_saveVm storage entry supervisor).and
      (returns_saveVm storage entry supervisor)).mono fun result middle ends => ?_
    obtain ⟨same, named⟩ := ends
    cases result with
    | error error => exact ⟨[], by rw [same]; exact (List.append_nil _).symm, not_ok⟩
    | ok saved =>
      simp only [record, ends_bind, ends_modify]
      refine (ih _).mono fun result after ends => ?_
      obtain ⟨made, calls, whole⟩ := ends
      have further : after.calls = supervisor.calls ++ (saved :: made).map .captured := by
        rw [calls, same, List.append_assoc]
        rfl
      cases result with
      | error error => exact ⟨saved :: made, further, not_ok⟩
      | ok others =>
        obtain ⟨rfl, ids⟩ := whole others rfl
        refine ⟨saved :: others, further, ?_⟩
        rintro _ ⟨⟩
        exact ⟨rfl, by rw [List.map_cons, ids, named saved rfl, List.map_cons]⟩

def ids (supervisor : KvmSupervisor parts) : List KvmVmId := supervisor.vms.toList.map Prod.fst

/-- The machines were paused, saved, and resumed in reverse, and then the manifest was
published, without a failure. -/
def SavedWhilePaused (supervisor : KvmSupervisor parts) (manifest : parts.Manifest)
    (made : List (Call parts)) : Prop :=
  manifest.vms.map (·.id) = supervisor.ids ∧
  made = pauses supervisor.ids ++ manifest.vms.map .captured ++
    resumes (supervisor.ids.reverse.map (·, true)) ++ [.published manifest]

theorem ends_publishManifest (storage : String) (manifest : parts.Manifest)
    (supervisor : KvmSupervisor parts) :
    Ends (publishManifest storage manifest) supervisor fun _ after => ∃ last,
      after.calls = supervisor.calls ++ last ∧ (last = [] ∨ last = [.published manifest]) := by
  simp only [publishManifest, record, ends_bind]
  refine (silent_ask _ supervisor).mono fun result written same => ?_
  cases result with
  | error error => exact ⟨[], by rw [same, List.append_nil], .inl rfl⟩
  | ok value =>
    refine (silent_ask _ written).mono fun result persisted still => ?_
    cases result with
    | error error => exact ⟨[], by rw [still, same, List.append_nil], .inl rfl⟩
    | ok value =>
      refine ends_modify.mpr ((silent_ask _ _).mono fun result after kept => ?_)
      exact ⟨_, kept.trans (by rw [still, same]), .inr rfl⟩

theorem ends_publishResult (storage : String)
    (checkpointResult : Except (SupervisorError parts.Failure) parts.Manifest)
    (resumeResult : Except (SupervisorError parts.Failure) Unit)
    (supervisor : KvmSupervisor parts) :
    Ends (publishResult storage checkpointResult resumeResult) supervisor fun _ after => ∃ last,
      after.calls = supervisor.calls ++ last ∧ (last = [] ∨ ∃ manifest,
        last = [.published manifest] ∧ checkpointResult = .ok manifest ∧ resumeResult.isOk) := by
  simp only [publishResult, ends_bind, ends_ofExcept]
  cases checkpointResult with
  | error error => exact ⟨[], (List.append_nil _).symm, .inl rfl⟩
  | ok manifest =>
    cases resumeResult with
    | error error => exact ⟨[], (List.append_nil _).symm, .inl rfl⟩
    | ok value =>
      refine (ends_publishManifest storage manifest supervisor).mono fun _ after ends => ?_
      obtain ⟨last, calls, ends⟩ := ends
      exact ⟨last, calls, ends.imp_right fun same => ⟨_, same, rfl, rfl⟩⟩

theorem ends_checkpoint (supervisor : KvmSupervisor parts) :
    Ends checkpoint supervisor fun _ after => ∃ made,
      after.calls = supervisor.calls ++ made ∧ NoneLeftPaused made ∧
      ∀ manifest, .published manifest ∈ made → SavedWhilePaused supervisor manifest made := by
  have distinct := TreeMap.keys_nodup supervisor.vms
  simp only [checkpoint, ends_bind, ends_get]
  refine ends_orThrow (fun storage _ => ?_) fun _ =>
    ⟨[], (List.append_nil _).symm, fun _ => trivial, ?_⟩
  · refine (ends_pauseAll [] _ supervisor).mono fun result paused ends => ?_
    cases result with
    | error error =>
      obtain ⟨first, id, rest, resumed, whole, all, calls⟩ := ends
      rw [whole] at distinct
      obtain ⟨distinctFirst, -, apart⟩ := List.nodup_append.mp distinct
      refine ⟨_, calls.trans (by rw [List.append_nil]), noneLeftPaused_around distinctFirst all
        (fun other => ⟨noneLeftPaused_failed id other, fun member => ?_⟩) fun _ => rfl, ?_⟩
      · have different : id ≠ other := (apart other member id List.mem_cons_self).symm
        rw [callsOn_cons]
        simp [Call.on, different, callsOn]
      · simp [pauses, resumes]
    | ok value =>
      refine ends_settle.mpr ((ends_saveAll storage _ paused).mono fun saving captured saves => ?_)
      obtain ⟨saved, further, whole⟩ := saves
      refine (ends_resumeAll _ _ captured).mono fun _ after resumes => ?_
      obtain ⟨final, resumed, rfl, all, more, allResumed⟩ := resumes
      refine (ends_publishResult storage _ final after).mono fun _ after publishes => ?_
      obtain ⟨last, calls, publishes⟩ := publishes
      rw [List.map_reverse] at all
      refine ⟨pauses supervisor.ids ++ saved.map .captured ++ resumes resumed ++ last, ?_,
        noneLeftPaused_around distinct all (fun id => ?_) (fun id => ?_), fun manifest member => ?_⟩
      · rw [calls, more, further, show paused.calls = _ from ends]
        simp [ids]
      · have silent : callsOn id (saved.map (.captured : _ → Call parts)) = [] := by
          simp [callsOn, Call.on]
        rw [silent]
        exact ⟨trivial, fun _ => rfl⟩
      · obtain rfl | ⟨manifest, rfl, -⟩ := publishes <;> rfl
      · obtain rfl | ⟨same, rfl, saves, ok⟩ := publishes
        · simp [pauses, resumes] at member
        · obtain rfl : manifest = same := by simpa [pauses, resumes] using member
          cases saving with
          | error error => cases saves
          | ok vms =>
            obtain rfl : supervisor.manifest vms = manifest := Except.ok.inj saves
            obtain ⟨rfl, named⟩ := whole vms rfl
            refine ⟨named, ?_⟩
            rw [(allResumed ok).2, ids, ← List.map_reverse, List.map_map]
            rfl
  · exact fun manifest member => absurd member List.not_mem_nil

end KvmSupervisor

end Minidox.Vmm
