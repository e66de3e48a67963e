import Worktree.Proofs.Committing
import Worktree.Proofs.Spellings

/-!
# Keys that are texts

The keys of a tree and of a snapshot are canonical paths, and no other key can be made.  One who
keeps plain texts for keys has to see to that himself: he normalises a spelling where it comes in,
copies keys as they are from one map to another, and normalises again where he looks up.  This file
keeps trees and snapshots in that way and shows that it is enough.

* `TextTree` and `TextSnapshot` have texts for keys, and `TextTree.Made` and `TextSnapshot.Made` say
  how one comes by them, changes, snapshots read from JSON and commits on any store among them;
* `Tree.byText` and `Snapshot.byText` forget that keys are canonical, and each operation on texts is
  the operation on paths (`Tree.write_byText`, `Tree.load_byText`, `Tree.commit_byText`, ...);
* `TextTree.Made.exists_byText` and `TextSnapshot.Made.exists_byText` follow for all that can be
  made: its keys are canonical;
* `keys_stay_canonical` says this with what it brings: what a map lists is what it answers when it
  is asked for the listed texts.
-/

namespace Worktree

open ObjectStore (putAll)

/-- A text as a key; nothing says that it is canonical. -/
structure Key where
  text : String
  deriving DecidableEq

namespace Key

/-- Keys are ordered by their bytes. -/
instance : Ord Key := ⟨fun a b => Text.compare a.text b.text⟩

instance : Std.TransOrd Key where
  eq_swap {a b} := @Std.OrientedCmp.eq_swap _ Text.compare _ a.text b.text
  isLE_trans {a b c} := @Std.TransCmp.isLE_trans _ Text.compare _ a.text b.text c.text

instance : Std.LawfulEqOrd Key where
  compare_self {a} := @Std.ReflCmp.compare_self _ Text.compare _ a.text
  eq_of_compare {a b} h :=
    congrArg Key.mk (@Std.LawfulEqCmp.eq_of_compare _ Text.compare _ a.text b.text h)

/-- The key that a spelling is entered and looked up under. -/
def ofSpelling (t : String) : Key := ⟨Path.normalize t⟩

theorem lookup_map_mk {α : Type} (l : List (String × α)) (k : String) :
    (l.map fun b => (Key.mk b.1, b.2)).lookup ⟨k⟩ = l.lookup k := by
  induction l with
  | nil => rfl
  | cons b rest ih =>
      have hkey : ((⟨k⟩ : Key) == ⟨b.1⟩) = (k == b.1) := by
        rw [Bool.eq_iff_iff]
        simp
      rw [List.map_cons, List.lookup_cons, List.lookup_cons, hkey, ih]

end Key

namespace Path

/-- The text of a path as a key. -/
def key (p : Path) : Key := ⟨p.text⟩

theorem key_injective {p q : Path} (h : p.key = q.key) : p = q :=
  text_injective (congrArg Key.text h)

@[simp] theorem key_inj {p q : Path} : p.key = q.key ↔ p = q :=
  ⟨key_injective, congrArg key⟩

theorem key_ofString (t : String) : (ofString t).key = .ofSpelling t := rfl

/-- A path that is spelled as it is written is entered under its own text. -/
@[simp] theorem ofSpelling_text (p : Path) : Key.ofSpelling p.text = p.key :=
  congrArg Key.mk (normalize_of_isCanonical p.canonical)

end Path

/-! ## Maps from paths as maps from texts -/

namespace OrderedMap

variable {α β σ : Type}

/-- The bindings of a map with the texts of its paths for keys. -/
def byText (m : OrderedMap Path α) : OrderedMap Key α where
  toList := m.toList.map fun b => (b.1.key, b.2)
  ascending := List.pairwise_map.mpr m.ascending

theorem mem_byText_iff {m : OrderedMap Path α} {k : Key} {a : α} :
    (k, a) ∈ m.byText.toList ↔ ∃ p : Path, p.key = k ∧ m.get? p = some a := by
  simp only [byText, List.mem_map, get?_eq_some_iff, Prod.exists, Prod.mk.injEq]
  constructor
  · intro h
    obtain ⟨p, b, hmem, hkey, rfl⟩ := h
    exact ⟨p, hkey, hmem⟩
  · intro h
    obtain ⟨p, hkey, hmem⟩ := h
    exact ⟨p, a, hmem, hkey, rfl⟩

@[simp] theorem get?_byText (m : OrderedMap Path α) (p : Path) : m.byText.get? p.key = m.get? p := by
  refine Option.ext fun a => ?_
  rw [get?_eq_some_iff, mem_byText_iff]
  simp

theorem map_insertBinding (p : Path) (a : α) (l : List (Path × α)) :
    (insertBinding p a l).map (fun b => (b.1.key, b.2)) =
      insertBinding p.key a (l.map fun b => (b.1.key, b.2)) := by
  induction l with
  | nil => rfl
  | cons b rest ih =>
      have hcompare : compare p.key b.1.key = compare p b.1 := rfl
      rw [List.map_cons, insertBinding, insertBinding, hcompare]
      cases compare p b.1 with
      | lt => rfl
      | eq => rfl
      | gt => rw [List.map_cons, ih]

theorem byText_insert (m : OrderedMap Path α) (p : Path) (a : α) :
    (m.insert p a).byText = m.byText.insert p.key a :=
  ext (map_insertBinding p a m.toList)

theorem byText_ofList (l : List (Path × α)) :
    (ofList l).byText = ofList (l.map fun b => (b.1.key, b.2)) := by
  have hfold : ∀ m : OrderedMap Path α, (l.foldl (fun m b => m.insert b.1 b.2) m).byText =
      (l.map fun b => (b.1.key, b.2)).foldl (fun m b => m.insert b.1 b.2) m.byText := by
    induction l with
    | nil => exact fun _ => rfl
    | cons b rest ih =>
        intro m
        rw [List.foldl_cons, ih, byText_insert]
        rfl
  exact hfold empty

theorem byText_mapWithKey (m : OrderedMap Path α) (f : α → β) :
    (m.mapWithKey fun _ a => f a).byText = m.byText.mapWithKey fun _ a => f a := by
  apply ext
  simp [byText, mapWithKey]

/-- A walk that does the same at a path and at its text is the same walk over texts. -/
theorem byText_gather {f : σ → Path → α → Option β × σ} {g : σ → Key → α → Option β × σ}
    (h : ∀ s p a, g s p.key a = f s p a) (m : OrderedMap Path α) (s : σ) :
    m.byText.gather g s = ((m.gather f s).1.byText, (m.gather f s).2) := by
  have hwalk : ∀ (l : List (Path × α)) (s : σ),
      gatherBindings g (l.map fun b => (b.1.key, b.2)) s =
        ((gatherBindings f l s).1.map fun b => (b.1.key, b.2), (gatherBindings f l s).2) := by
    intro l
    induction l with
    | nil => exact fun _ => rfl
    | cons b rest ih =>
        intro s
        rw [List.map_cons, gatherBindings, gatherBindings, ih, h]
        cases (f s b.1 b.2).1 <;> simp
  have hlist := congrArg Prod.fst (hwalk m.toList s)
  have hstate := congrArg Prod.snd (hwalk m.toList s)
  exact Prod.ext (ext hlist) hstate

end OrderedMap

/-! ## Snapshots and trees with texts for keys -/

/-- A snapshot whose keys are texts. -/
structure TextSnapshot where
  entries : OrderedMap Key Digest

/-- A working tree whose keys are texts. -/
structure TextTree where
  entries : OrderedMap Key Entry

namespace TextSnapshot

/-- The snapshot of a list of spellings with digests, entered in the order of the list. -/
def ofList (l : List (String × Digest)) : TextSnapshot :=
  ⟨.ofList (l.map fun b => (.ofSpelling b.1, b.2))⟩

/-- The snapshot of a map of spellings, entered in the order of the map. -/
def ofMap (m : OrderedMap Key Digest) : TextSnapshot :=
  ofList (m.toList.map fun b => (b.1.text, b.2))

/-- Reads a snapshot from a JSON value: first a map of the keys as they are, then the snapshot of
this map. -/
def ofNode : Json.Node → Except Json.ReadError TextSnapshot
  | .object members closed => do
    let entries ← members.mapM Snapshot.readMember
    Json.expectEnd closed
    return ofMap (.ofList (entries.map fun b => (⟨b.1⟩, b.2)))
  | n => .error (n.unfit "a map")

/-- Reads a snapshot from JSON text. -/
def ofJson (t : String) : Except Json.ReadError TextSnapshot :=
  Json.Document.read ofNode t

/-- The recorded digest of a spelling. -/
def lookup (s : TextSnapshot) (path : String) : Option Digest :=
  s.entries.get? (.ofSpelling path)

end TextSnapshot

namespace TextTree

variable {σ : Type} [ObjectStore σ]

/-- The tree without files. -/
def empty : TextTree := ⟨.empty⟩

/-- The tree of a snapshot, with its keys as they are. -/
def ofSnapshot (s : TextSnapshot) : TextTree :=
  ⟨s.entries.mapWithKey fun _ d => .committed d⟩

/-- The tree of a snapshot, if the store answers for all of it. -/
def load (store : σ) (s : TextSnapshot) : Option TextTree :=
  if s.entries.toList.all fun b => ObjectStore.contains store b.2 then some (ofSnapshot s) else none

/-- What the tree knows of a spelling. -/
def lookup (t : TextTree) (path : String) : Option Entry :=
  t.entries.get? (.ofSpelling path)

/-- Whether there is a file of this name. -/
def isLive (t : TextTree) (path : String) : Bool :=
  (t.lookup path).any Entry.isLive

/-- The keys of the files, in order. -/
def paths (t : TextTree) : List String :=
  (t.entries.toList.filter fun b => b.2.isLive).map fun b => b.1.text

/-- How many files there are. -/
def size (t : TextTree) : Nat :=
  t.paths.length

def write (t : TextTree) (path : String) (content : ByteArray) : TextTree :=
  ⟨t.entries.insert (.ofSpelling path) (.written content)⟩

def remove (t : TextTree) (path : String) : TextTree :=
  ⟨t.entries.insert (.ofSpelling path) .removed⟩

def rename (t : TextTree) (source target : String) : Option TextTree :=
  ((t.lookup source).filter Entry.isLive).map fun e =>
    if Key.ofSpelling source = .ofSpelling target then t
    else ⟨(t.entries.insert (.ofSpelling source) .removed).insert (.ofSpelling target) e⟩

/-- Records the tree, if the store answers for all committed entries.  The tree keeps its keys as
they are, and the snapshot is made of the map of these keys. -/
def commit (store : σ) (t : TextTree) : Option (TextSnapshot × TextTree × σ) :=
  if t.entries.toList.all fun b => b.2.committed?.all (ObjectStore.contains store) then
    let walked := t.entries.gather (fun s k e => Tree.record s (.ofString k.text) e) store
    some (.ofMap walked.1, ofSnapshot ⟨walked.1⟩, walked.2)
  else none

end TextTree

/-! ## Operations on texts are operations on paths -/

/-- A snapshot with the texts of its paths for keys. -/
def Snapshot.byText (s : Snapshot) : TextSnapshot := ⟨s.entries.byText⟩

/-- A tree with the texts of its paths for keys. -/
def Tree.byText (t : Tree) : TextTree := ⟨t.entries.byText⟩

namespace Snapshot

theorem lookup_byText (s : Snapshot) (path : String) :
    s.byText.lookup path = s.lookup (.ofString path) :=
  s.entries.get?_byText (.ofString path)

theorem byText_ofList (l : List (String × Digest)) :
    TextSnapshot.ofList l = (ofList (l.map fun b => (.ofString b.1, b.2))).byText := by
  rw [TextSnapshot.ofList, ofList, byText, OrderedMap.byText_ofList, List.map_map]
  rfl

/-- A map of canonical texts is entered as it is. -/
theorem ofMap_byText (m : OrderedMap Path Digest) :
    TextSnapshot.ofMap m.byText = byText ⟨m⟩ := by
  have hmeant : (m.byText.toList.map fun b => (b.1.text, b.2)).map
      (fun b => (Path.ofString b.1, b.2)) = m.toList := by
    simp [OrderedMap.byText, Path.key, Function.comp_def]
  rw [TextSnapshot.ofMap, byText_ofList, hmeant, ofList, OrderedMap.ofList_toList]

/-- Entering spellings in the order of a map of them comes to the same as sorting them. -/
theorem ofMap_ofList (l : List (String × Digest)) :
    TextSnapshot.ofMap (.ofList (l.map fun b => (⟨b.1⟩, b.2))) = (ofSpellings l).byText := by
  have hlookup := fun k : String => OrderedMap.get?_ofList (l.map fun b => (Key.mk b.1, b.2)) ⟨k⟩
  generalize OrderedMap.ofList (l.map fun b => (Key.mk b.1, b.2)) = m at *
  have hordered : (m.toList.map fun b => (b.1.text, b.2)).Pairwise
      fun a b => Text.precedes a.1 b.1 = true := by
    refine List.pairwise_map.mpr (m.ascending.imp ?_)
    intro a b hlt
    exact Text.precedes_of_lt hlt
  have hlast : ∀ k, (m.toList.map fun b => (b.1.text, b.2)).reverse.lookup k =
      l.reverse.lookup k := by
    intro k
    rw [← Key.lookup_map_mk, ← Key.lookup_map_mk l.reverse, List.map_reverse, List.map_reverse,
      ← hlookup, ← OrderedMap.lookup_reverse_toList, List.map_map]
    exact congrArg (fun r => List.lookup (Key.mk k) (List.reverse r)) (List.map_id m.toList)
  rw [TextSnapshot.ofMap, byText_ofList, ← ofSpellings_of_pairwise hordered,
    ofSpellings_congr hlast]

theorem ofNode_byText (n : Json.Node) :
    TextSnapshot.ofNode n = (ofNode n).map byText := by
  cases n with
  | object members closed =>
      show (members.mapM readMember >>= fun entries => _) =
        Except.map byText (members.mapM readMember >>= fun entries => _)
      cases members.mapM readMember with
      | error e => rfl
      | ok entries =>
          cases closed with
          | false => rfl
          | true => exact congrArg Except.ok (ofMap_ofList entries)
  | _ => rfl

theorem ofJson_byText (t : String) : TextSnapshot.ofJson t = (ofJson t).map byText := by
  unfold TextSnapshot.ofJson ofJson Json.Document.read
  simp only [ofNode_byText]
  cases ofNode (Json.Document.ofText t).root with
  | error e => rfl
  | ok s => cases (Json.Document.ofText t).trailing <;> rfl

end Snapshot

namespace Tree

theorem lookup_byText (t : Tree) (path : String) :
    t.byText.lookup path = t.lookup (.ofString path) :=
  t.entries.get?_byText (.ofString path)

theorem paths_byText (t : Tree) : t.byText.paths = t.paths.map Path.text := by
  simp [TextTree.paths, paths, byText, OrderedMap.byText, List.filter_map, Function.comp_def,
    Path.key]

theorem write_byText (t : Tree) (path : String) (content : ByteArray) :
    t.byText.write path content = (t.write (.ofString path) content).byText :=
  congrArg TextTree.mk (t.entries.byText_insert (.ofString path) (.written content)).symm

theorem remove_byText (t : Tree) (path : String) :
    t.byText.remove path = (t.remove (.ofString path)).byText :=
  congrArg TextTree.mk (t.entries.byText_insert (.ofString path) .removed).symm

theorem rename_byText (t : Tree) (source target : String) :
    t.byText.rename source target =
      (t.rename (.ofString source) (.ofString target)).toOption.map byText := by
  have hsame : Key.ofSpelling source = .ofSpelling target ↔
      Path.ofString source = .ofString target := by
    rw [← Path.key_ofString, ← Path.key_ofString, Path.key_inj]
  rw [TextTree.rename, lookup_byText, rename, file?]
  cases (t.lookup (.ofString source)).filter Entry.isLive with
  | none => rfl
  | some e =>
      by_cases hpath : Path.ofString source = .ofString target
      · simp [if_pos hpath, if_pos (hsame.mpr hpath), Except.toOption]
      · rw [Option.map_some, if_neg fun h => hpath (hsame.mp h)]
        simp only [if_neg hpath]
        refine congrArg (fun m => some (TextTree.mk m)) ?_
        rw [OrderedMap.byText_insert, OrderedMap.byText_insert]
        rfl

theorem ofSnapshot_byText (s : Snapshot) : TextTree.ofSnapshot s.byText = (ofSnapshot s).byText :=
  congrArg TextTree.mk (s.entries.byText_mapWithKey Entry.committed).symm

section Stores

variable {σ : Type} [ObjectStore σ]

omit [ObjectStore σ] in
theorem toOption_map {ε α β : Type} (result : Except ε α) (g : α → β) :
    (result.map g).toOption = result.toOption.map g := by
  cases result <;> rfl

/-- Checking a snapshot is asking the store for each of its digests. -/
theorem toOption_verify (store : σ) (s : Snapshot) :
    (s.verify store).toOption =
      if s.toList.all fun b => ObjectStore.contains store b.2 then some () else none := by
  cases hcheck : s.verify store with
  | error f =>
      obtain ⟨p, d, hp, hd⟩ := (failsAtFirst_verify s store).fails_iff.mp ⟨f, hcheck⟩
      have hmem : (p, d) ∈ s.toList := OrderedMap.get?_eq_some_iff.mp hp
      rw [if_neg]
      · rfl
      · intro hall
        have hcontains := List.all_eq_true.mp hall (p, d) hmem
        rw [hd] at hcontains
        exact absurd hcontains (by decide)
  | ok u =>
      have hfound := Snapshot.not_missing_iff.mp ((failsAtFirst_verify s store).not_missing hcheck)
      rw [if_pos]
      · rfl
      · apply List.all_eq_true.mpr
        intro b hb
        exact hfound b.1 b.2 (OrderedMap.get?_eq_some_iff.mpr hb)

theorem load_byText (store : σ) (s : Snapshot) :
    TextTree.load store s.byText = (load store s).toOption.map byText := by
  have hall : (s.byText.entries.toList.all fun b => ObjectStore.contains store b.2) =
      s.toList.all fun b => ObjectStore.contains store b.2 :=
    List.all_map
  rw [TextTree.load, hall, ofSnapshot_byText, load_eq_map, toOption_map, toOption_verify]
  split <;> rfl

theorem commit_byText (store : σ) (t : Tree) :
    t.byText.commit store = (t.commit store).toOption.map fun c =>
      (c.snapshot.byText, c.tree.byText, c.store) := by
  have hall : (t.byText.entries.toList.all fun b =>
      b.2.committed?.all (ObjectStore.contains store)) =
        t.committed.toList.all fun b => ObjectStore.contains store b.2 := by
    rw [byText, OrderedMap.byText, List.all_map, Snapshot.toList, committed,
      OrderedMap.filterMapWithKey, List.all_filterMap]
    congr 1
    funext b
    cases hb : b.2.committed? <;> simp [OrderedMap.keepBinding, hb]
  have hrecord : ∀ (store : σ) (p : Path) (e : Entry),
      record store (.ofString p.key.text) e = record store p e := by
    intro store p e
    rw [Path.key, Path.ofString_text]
  have hwalk := OrderedMap.byText_gather (f := record)
    (g := fun store k e => record store (.ofString k.text) e) hrecord t.entries store
  rw [TextTree.commit, hall, commit_eq_map, toOption_map, toOption_verify]
  split
  · have htree := ofSnapshot_byText ⟨(t.entries.gather record store).1⟩
    simp only [byText, hwalk, Snapshot.ofMap_byText]
    exact congrArg some (Prod.ext rfl (Prod.ext htree rfl))
  · rfl

end Stores

end Tree

/-! ## All that can be made -/

mutual

/-- The trees that can be made: without files, from a snapshot that can be made, and by changes. -/
inductive TextTree.Made : TextTree → Prop where
  | empty : TextTree.Made .empty
  | load {σ : Type} [ObjectStore σ] {store : σ} {s : TextSnapshot} {t : TextTree}
      (hs : TextSnapshot.Made s) (h : TextTree.load store s = some t) : TextTree.Made t
  | write {t : TextTree} (ht : TextTree.Made t) (path : String) (content : ByteArray) :
      TextTree.Made (t.write path content)
  | remove {t : TextTree} (ht : TextTree.Made t) (path : String) : TextTree.Made (t.remove path)
  | rename {t u : TextTree} (ht : TextTree.Made t) {source target : String}
      (h : t.rename source target = some u) : TextTree.Made u
  | commit {σ : Type} [ObjectStore σ] {store store' : σ} {t u : TextTree} {s : TextSnapshot}
      (ht : TextTree.Made t) (h : t.commit store = some (s, u, store')) : TextTree.Made u

/-- The snapshots that can be made: from spellings, one after the other or in a map, from JSON, and
by committing a tree that can be made. -/
inductive TextSnapshot.Made : TextSnapshot → Prop where
  | ofList (l : List (String × Digest)) : TextSnapshot.Made (.ofList l)
  | ofMap (m : OrderedMap Key Digest) : TextSnapshot.Made (.ofMap m)
  | ofJson {text : String} {s : TextSnapshot} (h : TextSnapshot.ofJson text = .ok s) :
      TextSnapshot.Made s
  | commit {σ : Type} [ObjectStore σ] {store store' : σ} {t u : TextTree} {s : TextSnapshot}
      (ht : TextTree.Made t) (h : t.commit store = some (s, u, store')) : TextSnapshot.Made s

end

mutual

/-- **Trees that can be made are trees.** -/
theorem TextTree.Made.exists_byText : ∀ {t : TextTree}, t.Made → ∃ u : Tree, u.byText = t
  | _, .empty => ⟨.empty, rfl⟩
  | _, @TextTree.Made.load _ _ _ _ _ hs h => by
      obtain ⟨s, rfl⟩ := TextSnapshot.Made.exists_byText hs
      rw [Tree.load_byText, Option.map_eq_some_iff] at h
      obtain ⟨u, -, hu⟩ := h
      exact ⟨u, hu⟩
  | _, .write ht path content => by
      obtain ⟨u, rfl⟩ := TextTree.Made.exists_byText ht
      exact ⟨_, (u.write_byText path content).symm⟩
  | _, .remove ht path => by
      obtain ⟨u, rfl⟩ := TextTree.Made.exists_byText ht
      exact ⟨_, (u.remove_byText path).symm⟩
  | _, .rename ht h => by
      obtain ⟨u, rfl⟩ := TextTree.Made.exists_byText ht
      rw [Tree.rename_byText, Option.map_eq_some_iff] at h
      obtain ⟨w, -, hw⟩ := h
      exact ⟨w, hw⟩
  | _, @TextTree.Made.commit _ _ _ _ _ _ _ ht h => by
      obtain ⟨u, rfl⟩ := TextTree.Made.exists_byText ht
      rw [Tree.commit_byText, Option.map_eq_some_iff] at h
      obtain ⟨c, -, hc⟩ := h
      exact ⟨c.tree, (Prod.mk.inj (Prod.mk.inj hc).2).1⟩

/-- **Snapshots that can be made are snapshots.** -/
theorem TextSnapshot.Made.exists_byText :
    ∀ {s : TextSnapshot}, s.Made → ∃ u : Snapshot, u.byText = s
  | _, .ofList l => ⟨_, (Snapshot.byText_ofList l).symm⟩
  | _, .ofMap m => ⟨_, (Snapshot.byText_ofList _).symm⟩
  | _, .ofJson h => by
      rw [Snapshot.ofJson_byText, map_eq_ok_iff] at h
      obtain ⟨u, -, hu⟩ := h
      exact ⟨u, hu⟩
  | _, @TextSnapshot.Made.commit _ _ _ _ _ _ _ ht h => by
      obtain ⟨u, rfl⟩ := TextTree.Made.exists_byText ht
      rw [Tree.commit_byText, Option.map_eq_some_iff] at h
      obtain ⟨c, -, hc⟩ := h
      exact ⟨c.snapshot, (Prod.mk.inj hc).1⟩

end

/-! ## Listing and looking up -/

/-- The keys of a map are canonical and ascend, and what the map lists is what it answers: a text is
listed with a value exactly when it is canonical and looking it up finds the value. -/
structure CanonicalKeys {α : Type} (m : OrderedMap Key α) : Prop where
  normal : ∀ k ∈ m.keys, Path.normalize k.text = k.text
  ascending : m.keys.Pairwise fun j k => Text.compare j.text k.text = .lt
  listed_iff : ∀ (p : String) (a : α),
    (⟨p⟩, a) ∈ m.toList ↔ Path.normalize p = p ∧ m.get? (.ofSpelling p) = some a

theorem canonicalKeys_byText {α : Type} (m : OrderedMap Path α) : CanonicalKeys m.byText where
  normal k hk := by
    obtain ⟨⟨j, a⟩, hmem, rfl⟩ := List.mem_map.mp hk
    obtain ⟨p, rfl, -⟩ := OrderedMap.mem_byText_iff.mp hmem
    exact Path.normalize_of_isCanonical p.canonical
  ascending := m.byText.pairwise_keys
  listed_iff p a := by
    rw [OrderedMap.mem_byText_iff]
    constructor
    · intro h
      obtain ⟨q, hq, ha⟩ := h
      obtain rfl : q.text = p := congrArg Key.text hq
      refine ⟨Path.normalize_of_isCanonical q.canonical, ?_⟩
      rw [Path.ofSpelling_text, OrderedMap.get?_byText, ha]
    · intro h
      obtain ⟨hp, ha⟩ := h
      rw [← Path.key_ofString, OrderedMap.get?_byText] at ha
      exact ⟨.ofString p, congrArg Key.mk hp, ha⟩

/-- The tree lists what it answers, entries and files. -/
structure TextTree.Canonical (t : TextTree) : Prop where
  entries : CanonicalKeys t.entries
  paths_ascending : t.paths.Pairwise fun p q => Text.compare p q = .lt
  mem_paths_iff : ∀ p, p ∈ t.paths ↔ Path.normalize p = p ∧ t.isLive p = true
  size_eq : t.size = {p | Path.normalize p = p ∧ t.isLive p = true}.ncard

namespace Tree

theorem isLive_byText (t : Tree) (path : String) :
    t.byText.isLive path = t.isLive (.ofString path) := by
  rw [TextTree.isLive, lookup_byText, isLive_eq_any]

theorem canonical_byText (t : Tree) : t.byText.Canonical := by
  have hmem : ∀ p, p ∈ t.byText.paths ↔ Path.normalize p = p ∧ t.byText.isLive p = true := by
    intro p
    rw [paths_byText, isLive_byText, List.mem_map]
    constructor
    · intro h
      obtain ⟨q, hq, rfl⟩ := h
      rw [Path.ofString_text]
      exact ⟨Path.normalize_of_isCanonical q.canonical, mem_paths_iff.mp hq⟩
    · intro h
      obtain ⟨hp, hlive⟩ := h
      exact ⟨.ofString p, mem_paths_iff.mpr hlive, hp⟩
  have hascending : t.byText.paths.Pairwise fun p q => Text.compare p q = .lt :=
    List.pairwise_map.mpr (t.byText.entries.ascending.filter _)
  refine ⟨canonicalKeys_byText t.entries, hascending, hmem, ?_⟩
  have hnodup : t.byText.paths.Nodup := by
    rw [paths_byText, paths_eq_paths_digests]
    exact t.digests.entries.nodup_keys.map fun _ _ => Path.text_injective
  exact (ncard_eq_length hnodup hmem).symm

/-- Committing the tree of a snapshot records the snapshot again and puts nothing. -/
theorem recorded_ofSnapshot {σ : Type} [ObjectStore σ] (store : σ) (s : Snapshot) :
    (ofSnapshot s).recorded store = ⟨s, ofSnapshot s, store⟩ := by
  have hwalk : ∀ l : List (Path × Digest),
      OrderedMap.gatherBindings record (l.map fun b => (b.1, Entry.committed b.2)) store =
        (l, store) := by
    intro l
    induction l with
    | nil => rfl
    | cons b rest ih =>
        rw [List.map_cons, OrderedMap.gatherBindings]
        simp only [record, ih]
        rfl
  have hentries : ((ofSnapshot s).entries.gather record store).1 = s.entries :=
    OrderedMap.ext (congrArg Prod.fst (hwalk s.toList))
  have hstore : ((ofSnapshot s).entries.gather record store).2 = store :=
    congrArg Prod.snd (hwalk s.toList)
  simp only [recorded, hentries, hstore]

end Tree

/-- **Keys stay canonical.**  Trees and snapshots with texts for keys, made in any way and changed
in any order by operations that normalise what they are given, have canonical keys, and are trees
and snapshots of paths.  What these list is what they answer, although looking up normalises again,
and the files are as many as the canonical texts that name one.  Loading a snapshot that the store
has all objects of, and committing, gives the snapshot back. -/
theorem keys_stay_canonical :
    (∀ t : TextTree, t.Made → t.Canonical ∧ ∃ u : Tree, u.byText = t) ∧
    (∀ s : TextSnapshot, s.Made → CanonicalKeys s.entries ∧ ∃ u : Snapshot, u.byText = s) ∧
    (∀ t : Tree, t.byText.Canonical ∧
      (∀ path, t.byText.lookup path = t.lookup (.ofString path)) ∧
      (∀ path, t.byText.isLive path = t.isLive (.ofString path)) ∧
      t.byText.paths = t.paths.map Path.text ∧ t.byText.size = t.size) ∧
    (∀ s : Snapshot, CanonicalKeys s.byText.entries ∧
      ∀ path, s.byText.lookup path = s.lookup (.ofString path)) ∧
    ∀ (σ : Type) [ObjectStore σ] (store : σ) (s : Snapshot),
      (∀ p d, s.lookup p = some d → ObjectStore.contains store d = true) →
        ∃ t, Tree.load store s = .ok t ∧ t.commit store = .ok ⟨s, t, store⟩ := by
  refine ⟨?_, ?_, ?_, ?_, ?_⟩
  · intro t ht
    obtain ⟨u, rfl⟩ := ht.exists_byText
    exact ⟨u.canonical_byText, u, rfl⟩
  · intro s hs
    obtain ⟨u, rfl⟩ := hs.exists_byText
    exact ⟨canonicalKeys_byText u.entries, u, rfl⟩
  · intro t
    refine ⟨t.canonical_byText, t.lookup_byText, t.isLive_byText, t.paths_byText, ?_⟩
    rw [TextTree.size, t.paths_byText, List.length_map, Tree.size]
  · intro s
    exact ⟨canonicalKeys_byText s.entries, s.lookup_byText⟩
  · intro σ _ store s hintact
    have hfound : ∀ p d, ¬ s.Missing store p d := Snapshot.not_missing_iff.mpr hintact
    refine ⟨.ofSnapshot s, Tree.load_eq_ok_iff.mpr ⟨hfound, rfl⟩, ?_⟩
    exact Tree.commit_eq_ok_iff.mpr
      ⟨Tree.not_missing_ofSnapshot hfound, Tree.recorded_ofSnapshot store s⟩

/-- Two files are spelled in roundabout ways, loaded, and one of them is written and the tree
committed. -/
theorem keys_stay_canonical_of_spellings :
    let d := Digest.ofContent ⟨#[97]⟩
    let store := putAll Store.empty [⟨#[97]⟩]
    let s := TextSnapshot.ofList [("./a//b", d), ("x/../c", d)]
    let u : Snapshot := .ofList [(.ofString "a/b", d), (.ofString "c", d)]
    ∃ t after w store', TextTree.load store s = some t ∧
      (t.write "/c/." ⟨#[98]⟩).commit store = some (after, w, store') ∧ w.Canonical ∧
      CanonicalKeys after.entries ∧
      (∀ p e, u.lookup p = some e → ObjectStore.contains store e = true) ∧
      ∃ t, Tree.load store u = .ok t ∧ t.commit store = .ok ⟨u, t, store⟩ := by
  intro d store s u
  have hload : TextTree.load store s = some (.ofSnapshot s) := by
    rw [TextTree.load, if_pos (by decide +kernel)]
  have hcommit : ∃ after w store', ((TextTree.ofSnapshot s).write "/c/." ⟨#[98]⟩).commit store =
      some (after, w, store') := by
    rw [TextTree.commit, if_pos (by decide +kernel)]
    exact ⟨_, _, _, rfl⟩
  have hintact : ∀ p e, u.lookup p = some e → ObjectStore.contains store e = true := by
    intro p e he
    have hmem := List.mem_map_of_mem (f := Prod.snd) (OrderedMap.mem_of_get?_ofList he)
    obtain rfl : e = d := by simpa using hmem
    decide +kernel
  obtain ⟨after, w, store', hafter⟩ := hcommit
  obtain ⟨htrees, hsnapshots, -, -, hagain⟩ := keys_stay_canonical
  have hmade : ((TextTree.ofSnapshot s).write "/c/." ⟨#[98]⟩).Made :=
    .write (.load (.ofList _) hload) _ _
  exact ⟨_, after, w, store', hload, hafter, (htrees w (.commit hmade hafter)).1,
    (hsnapshots after (.commit hmade hafter)).1, hintact, hagain Store store u hintact⟩

end Worktree
