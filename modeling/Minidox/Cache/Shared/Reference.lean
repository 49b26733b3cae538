import Minidox.Cache.Shared.Copies
import Minidox.Cache.Shared.System

/-!
# Every branch owns its files

What a shared cache is for. In the reference model each branch has a full copy of
every file. A fork copies all of them, a write or a store changes the copy of its
own branch, and nothing else changes a byte. Calls take the same steps as in the
system, but there is nothing to map: the mapping steps change nothing.
-/

set_option autoImplicit false

namespace Minidox.Cache

open Foundation

structure Reference where
  copies : CacheBranchId → Option Files
  calls : Thread → Option (Call Unit)

namespace Reference

def file (reference : Reference) (branch : CacheBranchId) (node : NodeId) : Option (List UInt8) :=
  (reference.copies branch).bind fun files => files node

def setCopy (reference : Reference) (branch : CacheBranchId) (files : Option Files) : Reference :=
  { reference with copies := Function.update reference.copies branch files }

def patch (reference : Reference) (branch : CacheBranchId) (node position : Nat)
    (data : List UInt8) : Reference :=
  reference.setCopy branch ((reference.copies branch).map fun files =>
    files.patch node position data)

def setCall (reference : Reference) (thread : Thread) (call : Option (Call Unit)) : Reference :=
  { reference with calls := Function.update reference.calls thread call }

@[simp] theorem calls_setCall (reference : Reference) (thread : Thread)
    (call : Option (Call Unit)) : (reference.setCall thread call).calls thread = call := by
  simp [setCall]

@[simp] theorem copies_setCall (reference : Reference) (thread : Thread)
    (call : Option (Call Unit)) : (reference.setCall thread call).copies = reference.copies := rfl

/-- The actions that no branch can see, when they succeed. -/
def Quiet : Action → Prop
  | .openNode .. | .close .. | .sync .. | .syncAll .. | .unmap .. | .otherPages .. => True
  | _ => False

/-- One step of a running call over the copy of its file. -/
inductive CallStep (reference : Reference) (thread : Thread) (call : Call Unit) :
    Reply → Reference → Prop
  | stopped (error : CacheError) :
      CallStep reference thread call (.failed error) (reference.setCall thread none)
  | readNothing {capacity : Nat} {bytes : List UInt8} (phase : call.phase = .measure)
      (job : call.job = .read capacity) (file : reference.file call.branch call.node = some bytes)
      (nothing : bytes.length ≤ call.offset ∨ capacity = 0) :
      CallStep reference thread call (.read []) (reference.setCall thread none)
  | readStarts {capacity : Nat} {bytes : List UInt8} (phase : call.phase = .measure)
      (job : call.job = .read capacity) (file : reference.file call.branch call.node = some bytes)
      (something : call.offset < bytes.length ∧ 0 < capacity) :
      CallStep reference thread call .running (reference.setCall thread (some
        { call with
          stop := call.offset + min (bytes.length - call.offset) capacity
          phase := .map }))
  | writeNothing {bytes : List UInt8} (phase : call.phase = .measure)
      (job : call.job = .write []) (file : reference.file call.branch call.node = some bytes) :
      CallStep reference thread call (.wrote 0) (reference.setCall thread none)
  | writeStarts {data bytes : List UInt8} (phase : call.phase = .measure)
      (job : call.job = .write data) (file : reference.file call.branch call.node = some bytes)
      (inside : call.offset + data.length ≤ bytes.length) :
      CallStep reference thread call .running (reference.setCall thread (some
        { call with
          stop := call.offset + data.length
          phase := .map }))
  | mapped (phase : call.phase = .map) :
      CallStep reference thread call .running
        (reference.setCall thread (some { call with phase := .copy () }))
  | fetched {capacity : Nat} {bytes : List UInt8} (phase : call.phase = .copy ())
      (job : call.job = .read capacity) (file : reference.file call.branch call.node = some bytes) :
      CallStep reference thread call .running (reference.setCall thread (some
        { call with
          collected := call.collected ++ (bytes.drop call.cursor).take call.chunkLen
          phase := .unmap () }))
  | patched {data : List UInt8} (phase : call.phase = .copy ()) (job : call.job = .write data) :
      CallStep reference thread call .running
        ((reference.patch call.branch call.node call.cursor (call.chunk data)).setCall thread
          (some { call with phase := .unmap () }))
  | torn {data : List UInt8} {stored : Nat} (error : CacheError) (phase : call.phase = .copy ())
      (job : call.job = .write data) (short : stored ≤ (call.chunk data).length) :
      CallStep reference thread call (.torn error stored)
        ((reference.patch call.branch call.node call.cursor
          ((call.chunk data).take stored)).setCall thread none)
  | continues (phase : call.phase = .unmap ()) (more : call.cursor + call.chunkLen < call.stop) :
      CallStep reference thread call .running (reference.setCall thread (some
        { call with
          cursor := call.cursor + call.chunkLen
          phase := .map }))
  | finished (phase : call.phase = .unmap ()) (last : call.stop ≤ call.cursor + call.chunkLen) :
      CallStep reference thread call (call.job.result call.collected)
        (reference.setCall thread none)

inductive Step (reference : Reference) : Action → Reply → Reference → Prop
  | refused (action : Action) : Step reference action .refused reference
  | failed (action : Action) (error : CacheError) (single : ∀ thread, action ≠ .advance thread) :
      Step reference action (.failed error) reference
  | quiet {action : Action} (quiet : Quiet action) : Step reference action .done reference
  | forked {source child : CacheBranchId} {files : Files}
      (live : reference.copies source = some files) (fresh : reference.copies child = none) :
      Step reference (.fork source) (.forked child) (reference.setCopy child (some files))
  | removed {branch : CacheBranchId} {files : Files}
      (live : reference.copies branch = some files) :
      Step reference (.removeBranch branch) .done (reference.setCopy branch none)
  | created {branch : CacheBranchId} {files : Files} {name : String} {node size : Nat}
      (live : reference.copies branch = some files) (fresh : files node = none) :
      Step reference (.createFile branch name size) (.created node)
        (reference.setCopy branch
          (some (Function.update files node (some (List.replicate size 0)))))
  | measured {branch : CacheBranchId} {node : NodeId} {bytes : List UInt8}
      (file : reference.file branch node = some bytes) :
      Step reference (.metadata branch node) (.length bytes.length) reference
  | mapped {branch : CacheBranchId} {node offset : Nat} {flags : MapFlags}
      {mapping : DaxPageMapping} (owner : mapping.branch = branch)
      (page : mapping.key = (node, offset)) (access : mapping.flags = flags) :
      Step reference (.mapPage branch node offset flags) (.mapped mapping) reference
  | stored {mapping : DaxPageMapping} {place : Nat} {data : List UInt8}
      (writable : mapping.flags.write) :
      Step reference (.store mapping place data) .done
        (reference.patch mapping.branch mapping.key.1 (mapping.key.2 + place) data)
  | begun {thread : Thread} {job : Job} {branch : CacheBranchId} {node offset : Nat}
      (idle : reference.calls thread = none) :
      Step reference (.begin thread job branch node offset) .running
        (reference.setCall thread (some (Call.new job branch node offset)))
  | advanced {thread : Thread} {call : Call Unit} {reply : Reply} {after : Reference}
      (active : reference.calls thread = some call)
      (step : CallStep reference thread call reply after) :
      Step reference (.advance thread) reply after

theorem CallStep.deterministic {reference left right : Reference} {thread : Thread}
    {call : Call Unit} {first second : Reply} (toLeft : CallStep reference thread call first left)
    (toRight : CallStep reference thread call second right) (same : first = second) :
    left = right := by
  cases toLeft <;> cases toRight <;> simp_all [Job.result] <;> omega

theorem CallStep.ne_refused {reference after : Reference} {thread : Thread} {call : Call Unit}
    {reply : Reply} (step : CallStep reference thread call reply after) : reply ≠ .refused := by
  cases step with
  | finished =>
    unfold Job.result
    split <;> rintro ⟨⟩
  | _ => rintro ⟨⟩

/-- The reference model leaves nothing open: an action and its reply decide the next state. -/
theorem Step.deterministic {reference left right : Reference} {action : Action} {reply : Reply}
    (toLeft : Step reference action reply left) (toRight : Step reference action reply right) :
    left = right := by
  cases toLeft with
  | refused =>
    cases toRight with
    | refused => rfl
    | advanced active step => exact absurd rfl step.ne_refused
  | failed _ error single =>
    cases toRight with
    | failed => rfl
    | advanced => exact absurd rfl (single _)
  | quiet quiet =>
    cases toRight with
    | quiet => rfl
    | removed => cases quiet
    | stored => cases quiet
    | advanced => cases quiet
  | advanced active step =>
    cases toRight with
    | refused => exact absurd rfl step.ne_refused
    | failed _ error single => exact absurd rfl (single _)
    | quiet quiet => cases quiet
    | advanced active' step' =>
      cases active.symm.trans active'
      exact step.deterministic step' rfl
  | removed live =>
    cases toRight with
    | quiet quiet => cases quiet
    | removed => rfl
  | stored =>
    cases toRight with
    | quiet quiet => cases quiet
    | stored => rfl
  | forked live =>
    cases toRight with
    | forked live' => cases live.symm.trans live'; rfl
  | created live =>
    cases toRight with
    | created live' => cases live.symm.trans live'; rfl
  | measured file =>
    generalize Reply.length _ = reply at toRight
    cases toRight with
    | measured => rfl
    | refused => rfl
    | failed => rfl
    | quiet => rfl
  | mapped | begun =>
    cases toRight
    rfl

end Reference

end Minidox.Cache
