import Worktree.Text.Order

/-!
# Paths

A path is a text in canonical form: names joined by single slashes, or the empty text for the root.
There are no directories; `docs/a.md` is one path, and two spellings mean the same file when
`normalize` takes them to the same text.

* `normalize` cuts a spelling at its slashes, walks the segments from the root (an empty segment
  and `.` stay, `..` goes up and stays at the root, every other segment is a name that goes down)
  and joins the names that are left.
* `isCanonical_normalize` says that the result is canonical, which is what makes
  `Path.ofString` possible; `normalize_of_isCanonical` says that a canonical text stays as it is.
* Paths are ordered by their bytes.
-/

namespace Worktree

namespace Path

/-- The pieces of a text between its slashes. -/
def segments (t : String) : List (List Char) :=
  t.toList.splitOn '/'

/-- A segment that names something, rather than standing for where one is or for the way up. -/
def IsName (s : List Char) : Prop :=
  s ≠ [] ∧ s ≠ ['.'] ∧ s ≠ ['.', '.']

instance (s : List Char) : Decidable (IsName s) :=
  inferInstanceAs (Decidable (_ ∧ _ ∧ _))

/-- A text is canonical when it is empty or all its segments are names. -/
def IsCanonical (t : String) : Prop :=
  t = "" ∨ ∀ s ∈ segments t, IsName s

instance (t : String) : Decidable (IsCanonical t) :=
  inferInstanceAs (Decidable (_ ∨ _))

/-- One step from the place reached by the names in `trail`, the last name first. -/
def step (trail : List (List Char)) (s : List Char) : List (List Char) :=
  if s = [] ∨ s = ['.'] then trail
  else if s = ['.', '.'] then trail.tail
  else s :: trail

/-- The names that lead from the root to where a walk along the segments ends, the last name
first. -/
def walk (trail : List (List Char)) (segs : List (List Char)) : List (List Char) :=
  segs.foldl step trail

/-- Joins names with slashes. -/
def join (names : List (List Char)) : String :=
  String.ofList (['/'].intercalate names)

/-- The canonical spelling of a path. -/
def normalize (t : String) : String :=
  join (walk [] (segments t)).reverse

/-! ## The canonical form -/

/-- A segment holds no slash. -/
theorem slash_not_mem_of_mem_splitOn {cs s : List Char} (h : s ∈ cs.splitOn '/') : '/' ∉ s := by
  induction cs generalizing s with
  | nil =>
      obtain rfl : s = [] := by simpa [List.splitOn, List.splitOnP_nil] using h
      exact List.not_mem_nil
  | cons c rest ih =>
      unfold List.splitOn at h ih
      rw [List.splitOnP_cons_eq_if_modifyHead] at h
      split at h
      · rcases List.mem_cons.mp h with rfl | h
        · exact List.not_mem_nil
        · exact ih h
      · next hc =>
        cases hs : List.splitOnP (· == '/') rest with
        | nil => exact absurd hs (List.splitOnP_ne_nil _ rest)
        | cons first others =>
            rw [hs] at h ih
            rcases List.mem_cons.mp h with rfl | h
            · intro hmem
              rcases List.mem_cons.mp hmem with rfl | hmem
              · exact hc rfl
              · exact ih List.mem_cons_self hmem
            · exact ih (List.mem_cons_of_mem first h)

/-- A walk collects names without slashes only. -/
theorem isName_of_mem_walk {trail segs : List (List Char)}
    (htrail : ∀ s ∈ trail, IsName s ∧ '/' ∉ s) (hsegs : ∀ s ∈ segs, '/' ∉ s) :
    ∀ s ∈ walk trail segs, IsName s ∧ '/' ∉ s := by
  induction segs generalizing trail with
  | nil => exact htrail
  | cons first rest ih =>
      refine ih ?_ fun s hs => hsegs s (List.mem_cons_of_mem first hs)
      intro s hs
      unfold step at hs
      split at hs
      · exact htrail s hs
      · next hstay =>
        split at hs
        · exact htrail s (List.mem_of_mem_tail hs)
        · next hup =>
          rcases List.mem_cons.mp hs with rfl | hs
          · exact ⟨⟨fun h => hstay (.inl h), fun h => hstay (.inr h), hup⟩,
              hsegs _ List.mem_cons_self⟩
          · exact htrail s hs

/-- Cutting what `join` made of names gives the names back. -/
theorem segments_join {names : List (List Char)} (hne : names ≠ [])
    (h : ∀ s ∈ names, '/' ∉ s) : segments (join names) = names := by
  unfold segments join
  rw [String.toList_ofList]
  exact List.splitOn_intercalate '/' h hne

/-- Joined names are canonical. -/
theorem isCanonical_join {names : List (List Char)} (h : ∀ s ∈ names, IsName s ∧ '/' ∉ s) :
    IsCanonical (join names) := by
  cases hn : names with
  | nil => exact .inl rfl
  | cons first rest =>
      rw [← hn]
      refine .inr fun s hs => ?_
      rw [segments_join (by simp [hn]) fun s hs => (h s hs).2] at hs
      exact (h s hs).1

/-- **Normalising gives a canonical text.** -/
theorem isCanonical_normalize (t : String) : IsCanonical (normalize t) :=
  isCanonical_join fun s hs =>
    isName_of_mem_walk (fun _ h => absurd h List.not_mem_nil)
      (fun _ h => slash_not_mem_of_mem_splitOn h) s (List.mem_reverse.mp hs)

/-- A walk along names goes down all of them. -/
theorem walk_of_isName {trail segs : List (List Char)} (h : ∀ s ∈ segs, IsName s) :
    walk trail segs = segs.reverse ++ trail := by
  induction segs generalizing trail with
  | nil => rfl
  | cons first rest ih =>
      obtain ⟨hempty, hdot, hup⟩ := h first List.mem_cons_self
      have hstep : step trail first = first :: trail := by
        rw [step, if_neg (fun hstay => hstay.elim hempty hdot), if_neg hup]
      calc walk trail (first :: rest)
          = walk (first :: trail) rest := by rw [walk, List.foldl_cons, hstep, walk]
        _ = rest.reverse ++ first :: trail := ih fun s hs => h s (List.mem_cons_of_mem first hs)
        _ = (first :: rest).reverse ++ trail := by simp

/-- **Canonical texts are their own normal form.** -/
theorem normalize_of_isCanonical {t : String} (h : IsCanonical t) : normalize t = t := by
  rcases h with rfl | h
  · rfl
  · have hwalk : (walk [] (segments t)).reverse = segments t := by
      rw [walk_of_isName h]
      simp
    rw [normalize, hwalk, join, segments, List.intercalate_splitOn, String.ofList_toList]

end Path

/-- The name of a file in the tree: a text in canonical form. -/
structure Path where
  text : String
  canonical : Path.IsCanonical text
  deriving DecidableEq

namespace Path

/-- The path that a spelling means. -/
def ofString (t : String) : Path :=
  ⟨normalize t, isCanonical_normalize t⟩

instance : Inhabited Path := ⟨ofString ""⟩

instance : ToString Path := ⟨text⟩

theorem text_injective {p q : Path} (h : p.text = q.text) : p = q := by
  cases p
  cases q
  cases h
  rfl

/-- A path is what its own text spells. -/
@[simp] theorem ofString_text (p : Path) : ofString p.text = p :=
  text_injective (normalize_of_isCanonical p.canonical)

/-- Two spellings mean the same path when they normalise alike. -/
theorem ofString_eq_iff {a b : String} : ofString a = ofString b ↔ normalize a = normalize b :=
  ⟨congrArg text, fun h => text_injective h⟩

/-- Paths are ordered by their bytes. -/
instance : Ord Path := ⟨fun p q => Text.compare p.text q.text⟩

instance : Std.TransOrd Path where
  eq_swap {p q} := @Std.OrientedCmp.eq_swap _ Text.compare _ p.text q.text
  isLE_trans {p q r} := @Std.TransCmp.isLE_trans _ Text.compare _ p.text q.text r.text

instance : Std.LawfulEqOrd Path where
  compare_self {p} := @Std.ReflCmp.compare_self _ Text.compare _ p.text
  eq_of_compare {p q} h :=
    text_injective (@Std.LawfulEqCmp.eq_of_compare _ Text.compare _ p.text q.text h)

end Path

end Worktree
