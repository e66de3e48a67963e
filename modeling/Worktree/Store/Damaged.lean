import Worktree.Store

/-!
# Damaged stores

A store in memory that may have lost objects.  For each digest two things can fail on their own:
giving out the content, and answering that it is there.  Damage leaves the listing of objects and
the putting of contents alone, and putting a content again does not mend it.
-/

namespace Worktree

/-- What is wrong with an object. -/
structure Damage where
  /-- The content is not given out. -/
  unreadable : Bool
  /-- The store denies having the object. -/
  hidden : Bool
  deriving DecidableEq

/-- A store in memory together with its damage. -/
structure DamagedStore where
  base : Store
  damage : OrderedMap Digest Damage

namespace DamagedStore

/-- A store without damage. -/
def ofStore (s : Store) : DamagedStore := ⟨s, .empty⟩

/-- The intact store without objects. -/
def empty : DamagedStore := ofStore .empty

instance : Inhabited DamagedStore := ⟨empty⟩

/-- What is wrong with the object of a digest. -/
def damageOf (s : DamagedStore) (d : Digest) : Damage :=
  (s.damage.get? d).getD ⟨false, false⟩

/-- Sets what is wrong with the object of a digest. -/
def setDamage (s : DamagedStore) (d : Digest) (x : Damage) : DamagedStore :=
  { s with damage := s.damage.insert d x }

instance : ObjectStore DamagedStore where
  put s content :=
    let (d, base) := s.base.put content
    (d, { s with base })
  get s d := if (s.damageOf d).unreadable then .error (.objectNotFound d) else s.base.get d
  contains s d := !(s.damageOf d).hidden && s.base.contains d
  digests s := s.base.digests

end DamagedStore

end Worktree
