import Mathlib.Data.Set.Card
import Mathlib.Data.Set.Function
import Worktree.OrderedMap.Lemmas
import Worktree.Store.Damaged

/-!
# What a store holds after contents were put

A content put into a store is kept under its own digest, and what is kept already stays.  So what a
store in memory holds can be read off the list of the contents put into it, and three things never
change however many are put: an object stays as it is, an object hashes to the digest it is kept
under, and every digest kept is that of a content that was put.

* `Store.get?_put` is the single step, and `Store.get?_putAll` the whole list;
* `Store.get?_putAll_of_get?`, `Store.contains_putAll` and `Store.eq_or_mem_of_get?_putAll` follow;
* `Store.IsPut` are the stores that putting alone can make; they keep every object under its own
  digest, so what comes back is what was put, unless digests collide (`Store.get?_ofContent`).
-/

namespace Worktree

/-- A store whose `put` tells the digest of the content. -/
class ContentAddressed (σ : Type) [ObjectStore σ] : Prop where
  fst_put (s : σ) (content : ByteArray) : (ObjectStore.put s content).1 = .ofContent content

/-- Among two contents whose digests differ, digests tell contents apart. -/
theorem Digest.injOn_of_eq_or_eq {a b : ByteArray} {known : Set ByteArray}
    (hknown : ∀ c ∈ known, c = a ∨ c = b) (hne : ofContent a ≠ .ofContent b) :
    Set.InjOn ofContent known := by
  have hpair : Set.InjOn ofContent {a, b} := Set.injOn_pair.mpr fun heq => absurd heq hne
  exact hpair.mono hknown

/-- A list without repetitions is as long as the set of its members is large. -/
theorem ncard_eq_length {α : Type} {l : List α} {s : Set α} (hnodup : l.Nodup)
    (h : ∀ a, a ∈ l ↔ a ∈ s) : s.ncard = l.length := by
  classical
  have hs : s = (l.toFinset : Set α) := by
    ext a
    rw [← h a]
    simp
  rw [hs, Set.ncard_coe_finset, List.toFinset_card_of_nodup hnodup]

/-- Puts contents one after the other. -/
def ObjectStore.putAll {σ : Type} [ObjectStore σ] (s : σ) (contents : List ByteArray) : σ :=
  contents.foldl (fun s c => (ObjectStore.put s c).2) s

namespace Store

open ObjectStore (putAll)

theorem ext_get? {s u : Store} (h : ∀ d, s.objects.get? d = u.objects.get? d) : s = u := by
  cases s
  cases u
  exact congrArg Store.mk (OrderedMap.ext_get? h)

theorem contains_iff {s : Store} {d : Digest} :
    s.contains d = true ↔ ∃ c, s.objects.get? d = some c :=
  Option.isSome_iff_exists

theorem get_eq_ok_iff {s : Store} {d : Digest} {c : ByteArray} :
    s.get d = .ok c ↔ s.objects.get? d = some c := by
  unfold get
  cases s.objects.get? d <;> simp

theorem mem_digests_iff {s : Store} {d : Digest} : d ∈ s.digests ↔ s.contains d = true :=
  OrderedMap.mem_keys_iff

theorem fst_put (s : Store) (content : ByteArray) : (s.put content).1 = .ofContent content := by
  by_cases hkept : s.objects.contains (.ofContent content) = true
  · simp [put, hkept]
  · simp [put, hkept]

/-- **One content put.**  Its digest is bound to what was kept there already, or else to the
content; every other digest keeps what it had. -/
theorem get?_put (s : Store) (content : ByteArray) (d : Digest) :
    (s.put content).2.objects.get? d
      = if d = .ofContent content then some ((s.objects.get? d).getD content)
        else s.objects.get? d := by
  unfold put
  by_cases hd : d = .ofContent content
  · subst hd
    by_cases hkept : s.objects.contains (.ofContent content) = true
    · obtain ⟨c, hc⟩ := contains_iff.mp hkept
      simp [hkept, hc]
    · have hnone : s.objects.get? (.ofContent content) = none := by
        simpa [OrderedMap.contains] using hkept
      simp [hkept, hnone]
  · by_cases hkept : s.objects.contains (.ofContent content) = true
    · simp [hkept, hd]
    · simp [hkept, hd, OrderedMap.get?_insert_of_ne]

/-- **All contents put.**  A digest is bound to what was kept there already, or else to the first
content put that has it. -/
theorem get?_putAll (s : Store) (contents : List ByteArray) (d : Digest) :
    (putAll s contents).objects.get? d
      = (s.objects.get? d).or (contents.find? fun c => Digest.ofContent c = d) := by
  induction contents generalizing s with
  | nil => simp [putAll]
  | cons first rest ih =>
      have hlater : (putAll s (first :: rest)).objects.get? d
          = ((s.put first).2.objects.get? d).or (rest.find? fun c => Digest.ofContent c = d) :=
        ih _
      rw [hlater, get?_put]
      by_cases hd : d = .ofContent first
      · have hfirst : ((first :: rest).find? fun c => Digest.ofContent c = d) = some first :=
          List.find?_cons_of_pos (by simp [hd])
        rw [if_pos hd, hfirst]
        cases s.objects.get? d <;> rfl
      · rw [if_neg hd, List.find?_cons_of_neg (by simpa using Ne.symm hd)]

/-- What is kept stays as it is. -/
theorem get?_putAll_of_get? {s : Store} {d : Digest} {c : ByteArray}
    (h : s.objects.get? d = some c) (contents : List ByteArray) :
    (putAll s contents).objects.get? d = some c := by
  rw [get?_putAll, h, Option.some_or]

/-- The digests kept are the old ones and those of the contents put. -/
theorem contains_putAll (s : Store) (contents : List ByteArray) (d : Digest) :
    (putAll s contents).contains d = true ↔
      s.contains d = true ∨ ∃ c ∈ contents, .ofContent c = d := by
  unfold contains OrderedMap.contains
  rw [get?_putAll, Option.isSome_or, Bool.or_eq_true, List.find?_isSome]
  simp

/-- An object kept afterwards was kept before or is one of the contents put. -/
theorem eq_or_mem_of_get?_putAll {s : Store} {contents : List ByteArray} {d : Digest}
    {c : ByteArray} (h : (putAll s contents).objects.get? d = some c) :
    s.objects.get? d = some c ∨ c ∈ contents ∧ .ofContent c = d := by
  rw [get?_putAll, Option.or_eq_some_iff] at h
  rcases h with hold | ⟨-, hfind⟩
  · exact .inl hold
  · exact .inr ⟨List.mem_of_find?_eq_some hfind, by simpa using List.find?_some hfind⟩

/-- What a store made of contents gives out is one of them. -/
theorem mem_of_get_putAll_empty {contents : List ByteArray} {d : Digest} {c : ByteArray}
    (h : (putAll Store.empty contents).get d = .ok c) : c ∈ contents := by
  rcases eq_or_mem_of_get?_putAll (get_eq_ok_iff.mp h) with hempty | ⟨hmem, -⟩
  · exact absurd hempty nofun
  · exact hmem

/-! ## Stores made by putting -/

/-- A store that putting contents into an empty one can make. -/
def IsPut (s : Store) : Prop :=
  ∃ contents, putAll Store.empty contents = s

theorem IsPut.putAll {s : Store} (h : s.IsPut) (contents : List ByteArray) :
    (putAll s contents).IsPut := by
  obtain ⟨before, rfl⟩ := h
  exact ⟨before ++ contents, List.foldl_append⟩

/-- Every object hashes to the digest it is kept under. -/
theorem IsPut.ofContent_eq {s : Store} (h : s.IsPut) {d : Digest} {c : ByteArray}
    (hc : s.objects.get? d = some c) : .ofContent c = d := by
  obtain ⟨contents, rfl⟩ := h
  rcases eq_or_mem_of_get?_putAll hc with hempty | ⟨-, hd⟩
  · exact absurd hempty nofun
  · exact hd

/-- What is kept under the digest of a content is this content, where no other content that is
known has the digest. -/
theorem get?_ofContent {s : Store} (h : s.IsPut) {known : Set ByteArray}
    (hinj : Set.InjOn Digest.ofContent known)
    (hstored : ∀ d c, s.objects.get? d = some c → c ∈ known) {content : ByteArray}
    (hknown : content ∈ known) (hkept : s.contains (.ofContent content) = true) :
    s.objects.get? (.ofContent content) = some content := by
  obtain ⟨kept, hget⟩ := contains_iff.mp hkept
  have heq : kept = content := hinj (hstored _ _ hget) hknown (h.ofContent_eq hget)
  rw [hget, heq]

end Store

instance : ContentAddressed Store where
  fst_put := Store.fst_put

instance : ContentAddressed DamagedStore where
  fst_put s content := s.base.fst_put content

end Worktree
