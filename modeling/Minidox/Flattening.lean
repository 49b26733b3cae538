import Minidox.Fork.Accounting
import Minidox.Redox.Disk
import Minidox.Redox.Identity

/-!
# Flattened chains

Identities, disk blocks and pages are looked up through chains of generations. Checkpoints and
accounting work with flattened views of the chains: some are filled from the oldest generation
on, where newer entries replace older ones, and some from the newest on, where older generations
only add keys. All of them hold what a lookup finds.
-/

set_option autoImplicit false

namespace Minidox

open Foundation

def Redox.IdentityBranch.flattened (branch : Redox.IdentityBranch) : Redox.IdentityBranch where
  base := [⟨branch.visibleFiles, branch.visiblePages⟩]
  files := ∅
  pages := ∅

def Redox.CowDisk.flattened (disk : Redox.CowDisk) : Redox.CowDisk :=
  { disk with base := [disk.visibleBlocks], writes := ∅ }

def Fork.PageBranch.flattened (branch : Fork.PageBranch) : Fork.PageBranch where
  base := [branch.visiblePages]
  writes := ∅

/-- Every flattened view has a key exactly when the lookup finds it, with the value that the lookup
finds, and a branch with nothing but the flattened view looks everything up as before; so does
a branch that is restored from the identities of a checkpoint. -/
theorem flattening_agrees_with_lookup :
    (∀ branch : Redox.IdentityBranch,
      (∀ node, branch.visibleFiles[node]? = branch.object node) ∧
      (∀ key, branch.visiblePages[key]? = branch.pageVersion key) ∧
      branch.flattened.object = branch.object ∧
      branch.flattened.pageVersion = branch.pageVersion ∧
      branch.flattened.pageIdentity = branch.pageIdentity ∧
      (Redox.IdentityBranch.ofState branch.state).pageIdentity = branch.pageIdentity) ∧
    (∀ disk : Redox.CowDisk,
      (∀ address, disk.visibleBlocks[address]? = disk.visibleBlock address) ∧
      disk.flattened.visibleBlock = disk.visibleBlock ∧ disk.flattened.image = disk.image) ∧
    ∀ branch : Fork.PageBranch,
      (∀ key, branch.visiblePages[key]? = branch.page key) ∧
      branch.flattened.page = branch.page ∧ branch.flattened.pageBytes = branch.pageBytes := by
  refine ⟨fun branch => ?_, fun disk => ?_, fun branch => ?_⟩
  · have files : ∀ node, branch.visibleFiles[node]? = branch.object node :=
      Overlay.getElem?_flatten _
    have pages : ∀ key, branch.visiblePages[key]? = branch.pageVersion key :=
      Overlay.getElem?_flatten _
    have object : branch.flattened.object = branch.object := funext (Overlay.lookup_single files)
    have version : branch.flattened.pageVersion = branch.pageVersion :=
      funext (Overlay.lookup_single pages)
    obtain ⟨restoredObject, restoredVersion⟩ := branch.lookup_ofState
    refine ⟨files, pages, object, version, ?_, ?_⟩
    · funext node offset
      rw [Redox.IdentityBranch.pageIdentity, Redox.IdentityBranch.pageIdentity, object, version]
    · funext node offset
      rw [Redox.IdentityBranch.pageIdentity, Redox.IdentityBranch.pageIdentity, restoredObject,
        restoredVersion]
  · have blocks : ∀ address, disk.visibleBlocks[address]? = disk.visibleBlock address :=
      Overlay.getElem?_flatten _
    have block : disk.flattened.visibleBlock = disk.visibleBlock :=
      funext (Overlay.lookup_single blocks)
    refine ⟨blocks, block, ?_⟩
    unfold Redox.CowDisk.image
    rw [block]
  · have page : branch.flattened.page = branch.page :=
      funext (Overlay.lookup_single branch.getElem?_visiblePages)
    refine ⟨branch.getElem?_visiblePages, page, ?_⟩
    unfold Fork.PageBranch.pageBytes
    rw [page]

end Minidox
