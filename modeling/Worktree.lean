import Worktree.Main
import Worktree.Snapshot.Json
import Worktree.Store.Damaged
import Worktree.Proofs.Aliases
import Worktree.Proofs.CanonicalForm
import Worktree.Proofs.Checkpoints
import Worktree.Proofs.Committing
import Worktree.Proofs.CutTexts
import Worktree.Proofs.Deposits
import Worktree.Proofs.Failing
import Worktree.Proofs.FreshWalk
import Worktree.Proofs.HexText
import Worktree.Proofs.Interleaving
import Worktree.Proofs.Isolation
import Worktree.Proofs.Moving
import Worktree.Proofs.Putting
import Worktree.Proofs.ReadingText
import Worktree.Proofs.Requests
import Worktree.Proofs.Searching
import Worktree.Proofs.Spellings
import Worktree.Proofs.TextForms
import Worktree.Proofs.TextKeys
import Worktree.Proofs.TwoMaps
import Worktree.Proofs.Written
