import Worktree.Comparison

/-!
# Repositories

A repository is a working tree together with the snapshot of its last commit.  The store is given
to every operation that needs it; several repositories may share one.
-/

namespace Worktree

/-- A working tree, the snapshot it was last committed to, and what its reports list. -/
structure Repository where
  tree : Tree
  head : Snapshot
  options : ReportOptions
  deriving DecidableEq

namespace Repository

variable {σ : Type} [ObjectStore σ]

/-- The repository without files and commits. -/
def empty : Repository := ⟨.empty, .empty, {}⟩

instance : Inhabited Repository := ⟨empty⟩

/-- The repository as it was at a snapshot, if the store answers for all of it. -/
def load (store : σ) (head : Snapshot) : Except Fault Repository := do
  let tree ← Tree.load store head
  return { tree, head, options := {} }

/-- The repository with other report options. -/
def withOptions (r : Repository) (options : ReportOptions) : Repository :=
  { r with options }

/-! ## Files -/

/-- Whether there is a file of this name. -/
def isLive (r : Repository) (p : Path) : Bool :=
  r.tree.isLive p

/-- The content of a file. -/
def read (store : σ) (r : Repository) (p : Path) : Except Fault ByteArray :=
  r.tree.read store p

/-- The content of a file as text. -/
def readText (store : σ) (r : Repository) (p : Path) : Except Fault String :=
  r.tree.readText store p

/-- Gives a file a content. -/
def write (r : Repository) (p : Path) (content : ByteArray) : Repository :=
  { r with tree := r.tree.write p content }

/-- Removes a file. -/
def remove (r : Repository) (p : Path) : Repository :=
  { r with tree := r.tree.remove p }

/-- Moves a file to another name. -/
def rename (r : Repository) (source target : Path) : Except Fault Repository := do
  let tree ← r.tree.rename source target
  return { r with tree }

/-! ## History -/

/-- The content that a file had at the last commit. -/
def readHead (store : σ) (r : Repository) (p : Path) : Except Fault ByteArray :=
  match r.head.lookup p with
  | some d => Tree.fetch store p d
  | none => .error (.notFound p)

/-- How the files stand against the last commit. -/
def reportWith (options : ReportOptions) (store : σ) (r : Repository) : Except Fault Report :=
  r.tree.report options store r.head

/-- How the files stand against the last commit, by the repository's own options. -/
def report (store : σ) (r : Repository) : Except Fault Report :=
  r.reportWith r.options store

/-- Records the tree as the new head; gives the new repository and the new store. -/
def commit (store : σ) (r : Repository) : Except Fault (Repository × σ) := do
  let c ← r.tree.commit store
  return ({ r with tree := c.tree, head := c.snapshot }, c.store)

end Repository

end Worktree
