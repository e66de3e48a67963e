import Worktree.Snapshot

/-!
# Working trees

A working tree is the set of files as they are now.  A file written since the last commit carries
its content; a file unchanged since then carries a digest, and its content is in the store; a file
removed leaves a marker, which only a listing of the entries shows.

* `write`, `remove` and `rename` change the tree and touch no store.
* `read` and `readText` get a content, from the tree or from the store.
* `commit` first checks that the store answers for every digest in the tree and then puts the
  written contents, so that it fails before it has changed anything.
-/

namespace Worktree

/-- What a working tree knows of a path. -/
inductive Entry where
  /-- The file was removed. -/
  | removed
  /-- The file was written since the last commit. -/
  | written (content : ByteArray)
  /-- The file is as it was committed. -/
  | committed (digest : Digest)

namespace Entry

instance : DecidableEq Entry
  | removed, removed => .isTrue rfl
  | written a, written b =>
    decidable_of_iff (a.data = b.data)
      ⟨fun h => congrArg written (ByteArray.ext h),
        fun h => congrArg ByteArray.data (written.inj h)⟩
  | committed a, committed b => decidable_of_iff (a = b) ⟨congrArg committed, committed.inj⟩
  | removed, written _ => .isFalse nofun
  | removed, committed _ => .isFalse nofun
  | written _, removed => .isFalse nofun
  | written _, committed _ => .isFalse nofun
  | committed _, removed => .isFalse nofun
  | committed _, written _ => .isFalse nofun

/-- Whether the entry stands for a file. -/
def isLive : Entry → Bool
  | removed => false
  | _ => true

/-- The digest of a committed entry. -/
def committed? : Entry → Option Digest
  | committed d => some d
  | _ => none

/-- The digest of the entry's content. -/
def digest? : Entry → Option Digest
  | removed => none
  | written content => some (.ofContent content)
  | committed d => some d

end Entry

/-- A working tree. -/
structure Tree where
  entries : OrderedMap Path Entry
  deriving DecidableEq

/-- What a commit leaves. -/
structure Commit (σ : Type) where
  /-- The new snapshot. -/
  snapshot : Snapshot
  /-- The tree, all of whose entries are committed now. -/
  tree : Tree
  /-- The store with the contents that were put. -/
  store : σ

namespace Tree

variable {σ : Type} [ObjectStore σ]

/-- The tree without files. -/
def empty : Tree := ⟨.empty⟩

instance : Inhabited Tree := ⟨empty⟩

/-- The tree whose files are those of a snapshot. -/
def ofSnapshot (s : Snapshot) : Tree :=
  ⟨s.entries.mapWithKey fun _ d => .committed d⟩

/-- The tree of a snapshot, if the store answers for all of it. -/
def load (store : σ) (s : Snapshot) : Except Fault Tree := do
  s.verify store
  return ofSnapshot s

/-! ## Asking -/

/-- What the tree knows of a path. -/
def lookup (t : Tree) (p : Path) : Option Entry :=
  t.entries.get? p

/-- What the tree knows of a file, if there is one of this name. -/
def file? (t : Tree) (p : Path) : Option Entry :=
  (t.lookup p).filter Entry.isLive

/-- Whether there is a file of this name. -/
def isLive (t : Tree) (p : Path) : Bool :=
  (t.file? p).isSome

/-- The names of the files, in order. -/
def paths (t : Tree) : List Path :=
  (t.entries.toList.filter fun b => b.2.isLive).map (·.1)

/-- How many files there are. -/
def size (t : Tree) : Nat :=
  t.paths.length

/-- Whether there is no file. -/
def isEmpty (t : Tree) : Bool :=
  t.paths.isEmpty

/-- The paths that are as they were committed, with their digests. -/
def committed (t : Tree) : Snapshot :=
  ⟨t.entries.filterMapWithKey fun _ e => e.committed?⟩

/-- The digest of every file. -/
def digests (t : Tree) : Snapshot :=
  ⟨t.entries.filterMapWithKey fun _ e => e.digest?⟩

/-- Gets the content of a recorded digest for a path; a store that fails to give it out is
corrupt. -/
def fetch (store : σ) (p : Path) (d : Digest) : Except Fault ByteArray :=
  match ObjectStore.get store d with
  | .ok content => .ok content
  | .error _ => .error (.corrupt p d)

/-- The content of a file. -/
def read (store : σ) (t : Tree) (p : Path) : Except Fault ByteArray :=
  match t.lookup p with
  | some (.written content) => .ok content
  | some (.committed d) => fetch store p d
  | some .removed => .error (.notFound p)
  | none => .error (.notFound p)

/-- The content of a file as text. -/
def readText (store : σ) (t : Tree) (p : Path) : Except Fault String := do
  let content ← t.read store p
  match Text.decode content with
  | .ok text => return text
  | .error reason => throw (.invalidEncoding p reason)

/-! ## Changing -/

/-- Gives a file a content. -/
def write (t : Tree) (p : Path) (content : ByteArray) : Tree :=
  ⟨t.entries.insert p (.written content)⟩

/-- Removes a file, or does nothing that a reader can see if there is none. -/
def remove (t : Tree) (p : Path) : Tree :=
  ⟨t.entries.insert p .removed⟩

/-- Moves a file to another name, in place of the file there. -/
def rename (t : Tree) (source target : Path) : Except Fault Tree :=
  match t.file? source with
  | none => .error (.notFound source)
  | some e =>
    if source = target then .ok t
    else .ok ⟨(t.entries.insert source .removed).insert target e⟩

/-! ## Committing -/

/-- What a commit records of an entry, and the store after it. -/
def record (store : σ) (_ : Path) : Entry → Option Digest × σ
  | .removed => (none, store)
  | .written content =>
    let (d, store) := ObjectStore.put store content
    (some d, store)
  | .committed d => (some d, store)

/-- Records the tree: all contents written go to the store, in path order, and the new snapshot
and the new tree refer to them by digest. -/
def commit (store : σ) (t : Tree) : Except Fault (Commit σ) := do
  t.committed.verify store
  let (entries, store) := t.entries.gather record store
  return { snapshot := ⟨entries⟩, tree := ofSnapshot ⟨entries⟩, store }

end Tree

end Worktree
