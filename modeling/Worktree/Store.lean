import Worktree.Fault
import Worktree.OrderedMap.Basic

/-!
# Object stores

A store keeps contents under their digests.  Trees and snapshots refer to contents by digest only,
so one store can serve any number of them; every operation that changes a store returns the new
one.

* `ObjectStore` is what the library asks of a store.  `get` and `contains` may disagree, and may
  fail for objects that were put: a store can be damaged.
* `Store` is the store in memory.  The first content put under a digest stays.
-/

namespace Worktree

/-- What a tree needs from a store. -/
class ObjectStore (σ : Type) where
  /-- Keeps a content and tells its digest. -/
  put : σ → ByteArray → Digest × σ
  /-- The content of a digest. -/
  get : σ → Digest → Except Fault ByteArray
  /-- Whether the store answers for a digest. -/
  contains : σ → Digest → Bool
  /-- The digests of all objects in ascending order. -/
  digests : σ → List Digest

namespace ObjectStore

variable {σ : Type} [ObjectStore σ]

/-- How many objects a store holds. -/
def size (s : σ) : Nat :=
  (digests s).length

end ObjectStore

/-- A store in memory. -/
structure Store where
  objects : OrderedMap Digest ByteArray

namespace Store

/-- The store without objects. -/
def empty : Store := ⟨.empty⟩

instance : Inhabited Store := ⟨empty⟩

/-- Keeps a content under its digest, unless there is one already. -/
def put (s : Store) (content : ByteArray) : Digest × Store :=
  let d := Digest.ofContent content
  if s.objects.contains d then (d, s) else (d, ⟨s.objects.insert d content⟩)

/-- The content kept under a digest. -/
def get (s : Store) (d : Digest) : Except Fault ByteArray :=
  match s.objects.get? d with
  | some content => .ok content
  | none => .error (.objectNotFound d)

/-- Whether an object is kept under a digest. -/
def contains (s : Store) (d : Digest) : Bool :=
  s.objects.contains d

/-- The digests of the objects in ascending order. -/
def digests (s : Store) : List Digest :=
  s.objects.keys

instance : ObjectStore Store where
  put := put
  get := get
  contains := contains
  digests := digests

end Store

end Worktree
