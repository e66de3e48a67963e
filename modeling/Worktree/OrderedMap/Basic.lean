/-!
# Ordered maps

A finite map is the list of its bindings in strictly ascending key order.  The order is part of the
type, so listing a map needs no sorting, no key occurs twice, and two maps with the same bindings
are the same map.

* `OrderedMap.get?`, `insert`, `ofList` and `mapWithKey` are the usual operations; `ofList` keeps
  the last binding of a repeated key.
* `OrderedMap.merge` combines two maps key by key.
* `OrderedMap.gather` walks a map in ascending key order and threads a state through the walk.
-/

namespace Worktree

/-- A finite map from `κ` to `α`, held as its bindings in strictly ascending key order. -/
structure OrderedMap (κ α : Type) [Ord κ] where
  /-- The bindings in ascending key order. -/
  toList : List (κ × α)
  ascending : toList.Pairwise fun a b => compare a.1 b.1 = .lt

namespace OrderedMap

variable {κ α β γ σ : Type} [Ord κ]

@[ext] theorem ext {m n : OrderedMap κ α} (h : m.toList = n.toList) : m = n := by
  cases m
  cases n
  cases h
  rfl

instance [DecidableEq κ] [DecidableEq α] : DecidableEq (OrderedMap κ α) :=
  fun m n => decidable_of_iff (m.toList = n.toList) ⟨ext, fun h => h ▸ rfl⟩

/-- The map without bindings. -/
def empty : OrderedMap κ α where
  toList := []
  ascending := .nil

instance : Inhabited (OrderedMap κ α) := ⟨empty⟩

/-- The value bound to a key, if there is one. -/
def get? (m : OrderedMap κ α) (k : κ) : Option α :=
  (m.toList.find? fun b => compare b.1 k == .eq).map (·.2)

/-- Whether a key is bound. -/
def contains (m : OrderedMap κ α) (k : κ) : Bool :=
  (m.get? k).isSome

/-- The keys in ascending order. -/
def keys (m : OrderedMap κ α) : List κ :=
  m.toList.map (·.1)

/-- How many keys are bound. -/
def size (m : OrderedMap κ α) : Nat :=
  m.toList.length

/-- Whether no key is bound. -/
def isEmpty (m : OrderedMap κ α) : Bool :=
  m.toList.isEmpty

/-- The first binding, in key order, with a given property. -/
def find? (m : OrderedMap κ α) (p : κ → α → Bool) : Option (κ × α) :=
  m.toList.find? fun b => p b.1 b.2

/-! ## Insertion -/

/-- Puts a binding where its key belongs, in place of the binding that has this key. -/
def insertBinding (k : κ) (a : α) : List (κ × α) → List (κ × α)
  | [] => [(k, a)]
  | b :: rest =>
    match compare k b.1 with
    | .lt => (k, a) :: b :: rest
    | .eq => (k, a) :: rest
    | .gt => b :: insertBinding k a rest

theorem mem_insertBinding {k : κ} {a : α} {c : κ × α} {l : List (κ × α)}
    (h : c ∈ insertBinding k a l) : c = (k, a) ∨ c ∈ l := by
  induction l with
  | nil => exact .inl (List.mem_singleton.mp h)
  | cons b rest ih =>
      unfold insertBinding at h
      split at h
      · exact (List.mem_cons.mp h).imp_right id
      · exact (List.mem_cons.mp h).imp_right (List.mem_cons_of_mem b)
      · rcases List.mem_cons.mp h with rfl | h
        · exact .inr List.mem_cons_self
        · exact (ih h).imp_right (List.mem_cons_of_mem b)

/-- Insertion keeps the bindings in order. -/
theorem pairwise_insertBinding [Std.TransOrd κ] (k : κ) (a : α) {l : List (κ × α)}
    (h : l.Pairwise fun a b => compare a.1 b.1 = .lt) :
    (insertBinding k a l).Pairwise fun a b => compare a.1 b.1 = .lt := by
  induction l with
  | nil => exact List.pairwise_singleton ..
  | cons b rest ih =>
      obtain ⟨hb, hrest⟩ := List.pairwise_cons.mp h
      unfold insertBinding
      split
      · next hlt =>
        refine List.pairwise_cons.mpr ⟨fun c hc => ?_, h⟩
        rcases List.mem_cons.mp hc with rfl | hc
        · exact hlt
        · exact Std.TransCmp.lt_trans hlt (hb c hc)
      · next heq =>
        exact List.pairwise_cons.mpr
          ⟨fun c hc => Std.TransCmp.lt_of_eq_of_lt heq (hb c hc), hrest⟩
      · next hgt =>
        refine List.pairwise_cons.mpr ⟨fun c hc => ?_, ih hrest⟩
        rcases mem_insertBinding hc with rfl | hc
        · exact Std.OrientedCmp.gt_iff_lt.mp hgt
        · exact hb c hc

/-- Binds a key to a value, in place of what it was bound to. -/
def insert [Std.TransOrd κ] (m : OrderedMap κ α) (k : κ) (a : α) : OrderedMap κ α where
  toList := insertBinding k a m.toList
  ascending := pairwise_insertBinding k a m.ascending

/-- The map of a list of bindings; of those with the same key the last one counts. -/
def ofList [Std.TransOrd κ] (l : List (κ × α)) : OrderedMap κ α :=
  l.foldl (fun m b => m.insert b.1 b.2) empty

/-! ## Whole-map operations -/

/-- Bindings listed in order stay in order when some are left out and the keys stay. -/
theorem pairwise_of_keys_sublist {l : List (κ × α)} {r : List (κ × β)}
    (h : l.Pairwise fun a b => compare a.1 b.1 = .lt)
    (hs : (r.map (·.1)).Sublist (l.map (·.1))) :
    r.Pairwise fun a b => compare a.1 b.1 = .lt := by
  have hkeys : (l.map (·.1)).Pairwise fun x y => compare x y = .lt := List.pairwise_map.mpr h
  exact List.pairwise_map.mp (hkeys.sublist hs)

/-- Applies a function to every value. -/
def mapWithKey (m : OrderedMap κ α) (f : κ → α → β) : OrderedMap κ β where
  toList := m.toList.map fun b => (b.1, f b.1 b.2)
  ascending := List.pairwise_map.mpr m.ascending

/-- One step of `filterMapWithKey`. -/
def keepBinding (f : κ → α → Option β) (b : κ × α) : Option (κ × β) :=
  (f b.1 b.2).map (b.1, ·)

omit [Ord κ] in
theorem keys_filterMap_sublist (f : κ → α → Option β) (l : List (κ × α)) :
    ((l.filterMap (keepBinding f)).map (·.1)).Sublist (l.map (·.1)) := by
  induction l with
  | nil => exact .slnil
  | cons b rest ih =>
      cases h : f b.1 b.2 with
      | none => simpa [keepBinding, h] using ih.cons b.1
      | some c => simpa [keepBinding, h] using ih.cons_cons b.1

/-- Applies a function to every value and drops the keys for which it gives nothing. -/
def filterMapWithKey (m : OrderedMap κ α) (f : κ → α → Option β) : OrderedMap κ β where
  toList := m.toList.filterMap (keepBinding f)
  ascending := pairwise_of_keys_sublist m.ascending (keys_filterMap_sublist f m.toList)

/-- The keys of either of two maps. -/
def unionKeys [Std.TransOrd κ] (m : OrderedMap κ α) (n : OrderedMap κ β) : OrderedMap κ Unit :=
  n.toList.foldl (fun u b => u.insert b.1 ()) (m.mapWithKey fun _ _ => ())

/-- Combines two maps: each key of either is given to `f` together with what the maps bind it
to, and keeps what `f` gives. -/
def merge [Std.TransOrd κ] (f : κ → Option α → Option β → Option γ)
    (m : OrderedMap κ α) (n : OrderedMap κ β) : OrderedMap κ γ :=
  (unionKeys m n).filterMapWithKey fun k _ => f k (m.get? k) (n.get? k)

/-- The bindings that `gather` keeps and the state it ends in. -/
def gatherBindings (f : σ → κ → α → Option β × σ) : List (κ × α) → σ → List (κ × β) × σ
  | [], s => ([], s)
  | b :: rest, s =>
    let here := f s b.1 b.2
    let later := gatherBindings f rest here.2
    (here.1.toList.map (b.1, ·) ++ later.1, later.2)

omit [Ord κ] in
theorem keys_gatherBindings_sublist (f : σ → κ → α → Option β × σ) (l : List (κ × α)) (s : σ) :
    ((gatherBindings f l s).1.map (·.1)).Sublist (l.map (·.1)) := by
  induction l generalizing s with
  | nil => exact .slnil
  | cons b rest ih =>
      cases h : (f s b.1 b.2).1 with
      | none => simpa [gatherBindings, h] using (ih _).cons b.1
      | some c => simpa [gatherBindings, h] using (ih _).cons_cons b.1

/-- Walks a map in ascending key order with a state: each binding may leave a value under its key
and passes the state on. -/
def gather (f : σ → κ → α → Option β × σ) (m : OrderedMap κ α) (s : σ) :
    OrderedMap κ β × σ :=
  ({ toList := (gatherBindings f m.toList s).1
     ascending := pairwise_of_keys_sublist m.ascending (keys_gatherBindings_sublist f m.toList s) },
    (gatherBindings f m.toList s).2)

end OrderedMap

end Worktree
