import Mathlib.Data.Set.Operations
import Worktree.Path

/-!
# The canonical form of a spelling

Normalising walks along the segments of a text and writes down the names that are left.  Two texts
with a slash between them are walked one after the other, so the walk along the second begins where
the first leads, and nothing of the first matters but that place.

* `trail_append_slash`: the second text is walked from where the first leads;
* `trail_normalize`: a text and its canonical form lead to the same place;
* `normalize_append_slash`: what follows the first text from there on;
* `normalize_parent` and `normalize_child`: one step up, which stays at the root, and one step down.

`normalize_is_canonical_form` puts this together with what makes the form canonical: a text is a
canonical form exactly when it is its own.
-/

namespace Worktree.Path

/-- The names that lead from the root to what a text spells, the last name first. -/
def trail (t : String) : List (List Char) :=
  walk [] (segments t)

/-- A text without the last of its segments; empty if there is no other. -/
def parent (t : String) : String :=
  join (segments t).dropLast

/-- A text with one name more. -/
def child (t name : String) : String :=
  if t = "" then name else t ++ "/" ++ name

theorem normalize_eq (t : String) : normalize t = join (trail t).reverse := rfl

/-! ## Segments and walks -/

/-- A slash between two texts separates the segments of the one from those of the other. -/
theorem segments_append_slash (a b : String) :
    segments (a ++ "/" ++ b) = segments a ++ segments b := by
  have hchars : (a ++ "/" ++ b).toList = a.toList ++ '/' :: b.toList := by simp
  rw [segments, hchars, List.splitOn_append_cons_self]
  rfl

/-- A text without slashes is one segment. -/
theorem segments_of_slash_not_mem {t : String} (h : '/' ∉ t.toList) : segments t = [t.toList] :=
  List.splitOn_eq_singleton h

theorem walk_append (trail l r : List (List Char)) :
    walk trail (l ++ r) = walk (walk trail l) r :=
  List.foldl_append

/-- **Texts are walked one after the other.** -/
theorem trail_append_slash (a b : String) : trail (a ++ "/" ++ b) = walk (trail a) (segments b) := by
  rw [trail, segments_append_slash, walk_append]
  rfl

theorem isName_of_mem_trail {t : String} {s : List Char} (h : s ∈ trail t) :
    IsName s ∧ '/' ∉ s :=
  isName_of_mem_walk (fun _ hs => absurd hs List.not_mem_nil)
    (fun _ hs => slash_not_mem_of_mem_splitOn hs) s h

/-- Joined names lead where the names lead. -/
theorem trail_join {names : List (List Char)} (h : ∀ s ∈ names, IsName s ∧ '/' ∉ s) :
    trail (join names) = names.reverse := by
  by_cases hne : names = []
  -- Nothing joined is the empty text, whose one segment is empty and stays at the root.
  · subst hne
    decide
  · rw [trail, segments_join hne fun s hs => (h s hs).2, walk_of_isName fun s hs => (h s hs).1,
      List.append_nil]

/-- **A text and its canonical form lead to the same place.** -/
theorem trail_normalize (t : String) : trail (normalize t) = trail t := by
  have hnames : ∀ s ∈ (trail t).reverse, IsName s ∧ '/' ∉ s := by
    intro s hs
    apply isName_of_mem_trail
    exact List.mem_reverse.mp hs
  rw [normalize_eq, trail_join hnames, List.reverse_reverse]

/-! ## What follows a text -/

theorem normalize_append_slash (a b : String) :
    normalize (a ++ "/" ++ b) = join (walk (trail a) (segments b)).reverse := by
  rw [normalize_eq, trail_append_slash]

/-- **Only the canonical form of a beginning matters.** -/
theorem normalize_normalize_append_slash (a b : String) :
    normalize (normalize a ++ "/" ++ b) = normalize (a ++ "/" ++ b) := by
  rw [normalize_append_slash, normalize_append_slash, trail_normalize]

/-- A segment that is empty or one dot stays. -/
theorem normalize_stay (a : String) {s : String} (h : s = "" ∨ s = ".") :
    normalize (a ++ "/" ++ s) = normalize a := by
  have hstay : walk (trail a) (segments s) = trail a := by
    rcases h with rfl | rfl
    · rfl
    · rfl
  rw [normalize_append_slash, hstay, normalize_eq]

/-- The parent of joined names is what is joined without the last name. -/
theorem parent_join {names : List (List Char)} (h : ∀ s ∈ names, '/' ∉ s) :
    parent (join names) = join names.dropLast := by
  by_cases hne : names = []
  · subst hne
    decide
  · rw [parent, segments_join hne h]

/-- **One step up** leaves the last name out, and stays at the root. -/
theorem normalize_parent (a : String) : normalize (a ++ "/" ++ "..") = parent (normalize a) := by
  have hnames : ∀ s ∈ (trail a).reverse, '/' ∉ s := by
    intro s hs
    exact (isName_of_mem_trail (List.mem_reverse.mp hs)).2
  have hup : walk (trail a) (segments "..") = (trail a).tail := rfl
  rw [normalize_append_slash, hup, normalize_eq, parent_join hnames, List.dropLast_reverse]

/-- Joined names are the empty text only if there are none. -/
theorem join_eq_empty_iff {names : List (List Char)} (h : ∀ s ∈ names, IsName s ∧ '/' ∉ s) :
    join names = "" ↔ names = [] := by
  constructor
  · intro hempty
    have htrail := trail_join h
    rw [hempty] at htrail
    exact List.reverse_eq_nil_iff.mp htrail.symm
  · rintro rfl
    rfl

/-- One name more is joined at the end. -/
theorem join_append_singleton {names : List (List Char)} (hne : names ≠ []) (s : List Char) :
    join (names ++ [s]) = join names ++ "/" ++ String.ofList s := by
  apply String.toList_injective
  induction names with
  | nil => exact absurd rfl hne
  | cons first rest ih =>
      cases rest with
      | nil => simp [join, List.intercalate_cons_cons]
      | cons next others =>
          have hrest := ih (List.cons_ne_nil next others)
          simp only [join, String.toList_ofList, String.toList_append] at hrest ⊢
          rw [List.cons_append, List.cons_append, List.intercalate_cons_cons, ← List.cons_append,
            hrest, List.intercalate_cons_cons]
          simp

/-- **One step down** puts the name at the end. -/
theorem normalize_child (a : String) {name : String} (hslash : '/' ∉ name.toList)
    (hname : IsName name.toList) : normalize (a ++ "/" ++ name) = child (normalize a) name := by
  have hnames : ∀ s ∈ (trail a).reverse, IsName s ∧ '/' ∉ s := by
    intro s hs
    exact isName_of_mem_trail (List.mem_reverse.mp hs)
  have hdown : walk (trail a) (segments name) = name.toList :: trail a := by
    rw [segments_of_slash_not_mem hslash, walk_of_isName (by simpa using hname)]
    rfl
  rw [normalize_append_slash, hdown, List.reverse_cons, child, normalize_eq]
  by_cases hne : (trail a).reverse = []
  · rw [if_pos ((join_eq_empty_iff hnames).mpr hne), hne]
    apply String.toList_injective
    simp [join]
  · rw [if_neg fun hempty => hne ((join_eq_empty_iff hnames).mp hempty),
      join_append_singleton hne, String.ofList_toList]

/-! ## The canonical form -/

/-- A text is its own canonical form exactly when it is canonical. -/
theorem normalize_eq_self_iff {t : String} : normalize t = t ↔ IsCanonical t := by
  constructor
  · intro h
    rw [← h]
    exact isCanonical_normalize t
  · exact normalize_of_isCanonical

theorem range_normalize : Set.range normalize = {t | IsCanonical t} := by
  apply Set.ext
  intro t
  constructor
  · rintro ⟨a, rfl⟩
    exact isCanonical_normalize a
  · intro h
    exact ⟨t, normalize_of_isCanonical h⟩

theorem isName_toList {name : String} (hempty : name ≠ "") (hdot : name ≠ ".")
    (hup : name ≠ "..") : IsName name.toList := by
  refine ⟨?_, ?_, ?_⟩
  · exact fun h => hempty (String.toList_injective h)
  · exact fun h => hdot (String.toList_injective h)
  · exact fun h => hup (String.toList_injective h)

/-- **Normalising takes the canonical form.**  What it gives is canonical; a text is its own form
exactly when it is canonical, so normalising again changes nothing, and the forms are the canonical
texts.  The form of a text with more after a slash is that of its own form with the same after a
slash.  An empty segment and one dot add nothing, two dots leave out the last segment, if there is
one, and every other segment is added at the end. -/
theorem normalize_is_canonical_form :
    (∀ a, IsCanonical (normalize a)) ∧
    (∀ q, normalize q = q ↔ IsCanonical q) ∧
    (∀ a, normalize (normalize a) = normalize a) ∧
    Set.range normalize = {q | IsCanonical q} ∧
    (∀ a b, normalize (a ++ "/" ++ b) = normalize (normalize a ++ "/" ++ b)) ∧
    (∀ a, normalize (a ++ "/") = normalize a ∧ normalize (a ++ "/.") = normalize a ∧
      normalize (a ++ "/..") = parent (normalize a)) ∧
    ∀ a s, '/' ∉ s.toList → s ≠ "" → s ≠ "." → s ≠ ".." →
      normalize (a ++ "/" ++ s) = child (normalize a) s := by
  refine ⟨isCanonical_normalize, fun q => normalize_eq_self_iff, ?_, range_normalize, ?_, ?_, ?_⟩
  · intro a
    exact normalize_of_isCanonical (isCanonical_normalize a)
  · intro a b
    exact (normalize_normalize_append_slash a b).symm
  · intro a
    -- The texts that are appended begin with the slash.
    have hempty : a ++ "/" = a ++ "/" ++ "" := by simp
    have hdot : a ++ "/." = a ++ "/" ++ "." := by rw [String.append_assoc]; rfl
    have hup : a ++ "/.." = a ++ "/" ++ ".." := by rw [String.append_assoc]; rfl
    rw [hempty, hdot, hup]
    exact ⟨normalize_stay a (.inl rfl), normalize_stay a (.inr rfl), normalize_parent a⟩
  · intro a s hslash hempty hdot hup
    exact normalize_child a hslash (isName_toList hempty hdot hup)

/-- Dots that are neither one nor two make a name, and so does a backslash. -/
theorem normalize_is_canonical_form_of_odd_names :
    normalize ("/x/./b/../" ++ "/" ++ "...") = child (normalize "/x/./b/../") "..." ∧
      normalize ("../" ++ "/" ++ "a\\.") = child (normalize "../") "a\\." := by
  obtain ⟨-, -, -, -, -, -, hchild⟩ := normalize_is_canonical_form
  exact ⟨hchild "/x/./b/../" "..." (by decide) (by decide) (by decide) (by decide),
    hchild "../" "a\\." (by decide) (by decide) (by decide) (by decide)⟩

end Worktree.Path
