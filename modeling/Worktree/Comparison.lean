import Worktree.Report
import Worktree.Tree

/-!
# Comparing a tree with a snapshot

A file is untracked when only the tree has it, deleted when only the snapshot has it, and otherwise
modified or unmodified as the two digests differ or agree.  Contents are compared by digest alone,
so a file written again with the bytes it had is unmodified.

* `Status.ofDigests` is that table for one path.
* `Tree.report` lists all paths of either side; it fails when the tree refers to an object that
  the store does not have.
-/

namespace Worktree

/-- The status of a path with this digest in the tree and that one in the snapshot; a path in
neither has none. -/
def Status.ofDigests : Option Digest → Option Digest → Option Status
  | some _, none => some .untracked
  | none, some _ => some .deleted
  | some current, some recorded => some (if current = recorded then .unmodified else .modified)
  | none, none => none

namespace Snapshot

/-- The status of every path of two snapshots, the current one and the recorded one. -/
def statuses (current recorded : Snapshot) : OrderedMap Path Status :=
  current.entries.merge (fun _ => Status.ofDigests) recorded.entries

/-- The listed differences of two snapshots, the current one and the recorded one. -/
def difference (options : ReportOptions) (current recorded : Snapshot) : Report :=
  .ofLines (((current.statuses recorded).toList.filter fun b => options.admits b.2).map
    fun b => ⟨b.1.text, b.2⟩)

end Snapshot

/-- How the files of a tree stand against a snapshot. -/
def Tree.report {σ : Type} [ObjectStore σ] (options : ReportOptions) (store : σ)
    (recorded : Snapshot) (t : Tree) : Except Fault Report := do
  t.committed.verify store
  return t.digests.difference options recorded

end Worktree
