import Minidox.Cache.Basic

/-!
# Forkable stores

The filesystem branches behind a shared cache. A store gives every file page an
identity; branches that resolve a page to one identity share one cached page.
-/

set_option autoImplicit false

namespace Minidox.Cache

open Foundation Attempt

class ForkableNodeStore (World Store : Type) (Identity : outParam Type) extends
    NodeStore World Store where
  pageIdentity : Store → NodeId → Nat → Except IoError Identity
  preparePageWrite : NodeId → Nat → Attempt (World × Store) IoError Identity
  forkStore : Attempt (World × Store) IoError Store

/-- Stores whose owner can add files to them. -/
class FileMaker (World Store : Type) where
  createFile : String → Nat → Attempt (World × Store) IoError NodeId

/-- The identities that were given out so far, for the statements about them. -/
class IdentityLedger (World Identity : Type) where
  Issued : World → Identity → Prop

/-- All that a store knows of identities was given out in this world. -/
class StoreLedger (World Store : Type) where
  Registered : World → Store → Prop

/-- The world has moved on and has forgotten nothing. -/
structure Advanced (Store Identity : Type) {World : Type} [IdentityLedger World Identity]
    [StoreLedger World Store] (before after : World) : Prop where
  issued : ∀ identity : Identity, IdentityLedger.Issued before identity →
    IdentityLedger.Issued after identity
  registered : ∀ store : Store, StoreLedger.Registered before store →
    StoreLedger.Registered after store

section Laws

variable {World Store Identity : Type} [ForkableNodeStore World Store Identity]

def identityOf (World : Type) {Store Identity : Type} [ForkableNodeStore World Store Identity]
    (store : Store) (key : PageKey) : Option Identity :=
  (ForkableNodeStore.pageIdentity World store key.1 key.2).toOption

def Aligned (key : PageKey) : Prop := key.2 % pageSize = 0

/-- A store call that left every file, its identities and the ledger's past alone. -/
structure Untouched [FileView Store] [IdentityLedger World Identity] [StoreLedger World Store]
    (before after : World × Store) : Prop where
  files : SameFiles after.2 before.2
  identities : ∀ key, identityOf World after.2 key = identityOf World before.2 key
  ledger : Advanced Store Identity before.1 after.1
  registered : StoreLedger.Registered before.1 before.2 → StoreLedger.Registered after.1 after.2

end Laws

/-- What the cache assumes of forkable stores. Writing bytes changes no identity;
preparing a page write gives this page of this branch an identity that was never
given out before; a fork is an equal independent copy. -/
class LawfulForkableStore (World Store Identity : Type) [ForkableNodeStore World Store Identity]
    [FileView Store] [IdentityLedger World Identity] [StoreLedger World Store] : Prop extends
    LawfulNodeStore World Store where
  writeNode_identities : ∀ (node offset : Nat) (data : List UInt8) (world : World)
    (store : Store), (NodeStore.writeNode node offset data).Ends (world, store) fun _ after =>
      (∀ key, identityOf World after.2 key = identityOf World store key) ∧
      Advanced Store Identity world after.1 ∧
      (StoreLedger.Registered world store → StoreLedger.Registered after.1 after.2)
  onOpenNode_untouched : ∀ (node : NodeId) (world : World) (store : Store),
    (NodeStore.onOpenNode node).Ends (world, store) fun _ after => Untouched (world, store) after
  onCloseNode_untouched : ∀ (node : NodeId) (world : World) (store : Store),
    (NodeStore.onCloseNode node).Ends (world, store) fun _ after => Untouched (world, store) after
  preparePageWrite_fresh : ∀ (key : PageKey) (world : World) (store : Store), Aligned key →
    StoreLedger.Registered world store →
    (ForkableNodeStore.preparePageWrite key.1 key.2).Ends (world, store) fun result after =>
      SameFiles after.2 store ∧
      Advanced Store Identity world after.1 ∧ StoreLedger.Registered after.1 after.2 ∧
      (∀ other, Aligned other → other ≠ key →
        identityOf World after.2 other = identityOf World store other) ∧
      (∀ error, result = .error error →
        identityOf World after.2 key = identityOf World store key) ∧
      ∀ identity, result = .ok identity → identityOf World after.2 key = some identity ∧
        ¬ IdentityLedger.Issued world identity ∧ IdentityLedger.Issued after.1 identity
  forkStore_copy : ∀ (world : World) (store : Store),
    (ForkableNodeStore.forkStore).Ends (world, store) fun result after =>
      Untouched (world, store) after ∧
      ∀ child, result = .ok child → SameFiles child store ∧
        (∀ key, identityOf World child key = identityOf World store key) ∧
        (StoreLedger.Registered world store → StoreLedger.Registered after.1 child)

/-- Every byte of a page has the identity of the page. -/
class PageGranular (World Store : Type) {Identity : Type}
    [ForkableNodeStore World Store Identity] : Prop where
  pageIdentity_pageOf : ∀ (store : Store) (node offset : Nat),
    ForkableNodeStore.pageIdentity World store node (pageOf offset) =
      ForkableNodeStore.pageIdentity World store node offset

/-- A new file is zero-filled, was not there before, and every page of it has an
identity of its own that was never given out before. -/
class LawfulFileMaker (World Store Identity : Type) [ForkableNodeStore World Store Identity]
    [FileMaker World Store] [FileView Store] [IdentityLedger World Identity]
    [StoreLedger World Store] : Prop where
  createFile_fresh : ∀ (name : String) (size : Nat) (world : World) (store : Store),
    StoreLedger.Registered world store →
    (FileMaker.createFile name size).Ends (world, store) fun result after =>
      (∀ error, result = .error error → Untouched (world, store) after) ∧
      ∀ node, result = .ok node →
        FileView.fileLen store node = none ∧ FileView.fileLen after.2 node = some size ∧
        FileView.fileByte after.2 node = ByteMap.zero ∧
        (∀ other, other ≠ node → FileView.fileLen after.2 other = FileView.fileLen store other ∧
          FileView.fileByte after.2 other = FileView.fileByte store other) ∧
        (∀ key, key.1 = node → identityOf World store key = none) ∧
        (∀ key, key.1 ≠ node → identityOf World after.2 key = identityOf World store key) ∧
        Advanced Store Identity world after.1 ∧ StoreLedger.Registered after.1 after.2 ∧
        (∀ key identity, Aligned key → key.1 = node →
          identityOf World after.2 key = some identity →
          ¬ IdentityLedger.Issued world identity ∧ IdentityLedger.Issued after.1 identity) ∧
        ∀ key other identity, Aligned key → Aligned other → key.1 = node → other.1 = node →
          identityOf World after.2 key = some identity →
          identityOf World after.2 other = some identity → key = other

/-- Stores of one lineage. Their identities were given out before, and pages with one
identity are one page of files of one length, with the same bytes. One new store is
such a lineage when its pages have identities of their own. -/
structure Coherent {World Store Identity : Type} [ForkableNodeStore World Store Identity]
    [FileView Store] [IdentityLedger World Identity] [StoreLedger World Store] (world : World)
    (stores : List Store) : Prop where
  registered : ∀ store ∈ stores, StoreLedger.Registered world store
  issued : ∀ store ∈ stores, ∀ key (identity : Identity), Aligned key →
    identityOf World store key = some identity → IdentityLedger.Issued world identity
  agrees : ∀ left ∈ stores, ∀ right ∈ stores, ∀ key other (identity : Identity), Aligned key →
    Aligned other → identityOf World left key = some identity →
    identityOf World right other = some identity → key = other ∧
      FileView.fileLen left key.1 = FileView.fileLen right key.1 ∧
      ∀ length index, FileView.fileLen left key.1 = some length → index < pageSize →
        key.2 + index < length →
        FileView.fileByte left key.1 (key.2 + index) = FileView.fileByte right key.1 (key.2 + index)

end Minidox.Cache
