import Worktree.Proofs.CutRows
import Worktree.Proofs.Rendering

/-!
# Values that are cut

What a cut leaves of the text of a value is read as far as it goes.  All that is whole before the
cut is kept; what the cut is in stays open; and in the place of the innermost value there may be
nothing that makes sense.  As in the reading of whole values, the builder that meets the cut does so
inside some frames, and these are left open around it.

* `Node.CutShort` — what is left of a value;
* `Node.hasCut_tokens` — what the builder has at the end of a row that is cut;
* `Document.ofText_of_cut` — what a text that is cut holds, and `Document.read_of_cut` — a reader
  refuses the text if it refuses all that can be left of the value.
-/

namespace Worktree.Json

/-! ## Values that are cut -/

namespace Node

/-- **What is left of a value** when its text is cut.  What the cut is in stays open, and what comes
before it is whole. -/
inductive CutShort : Node → Node → Prop where
  /-- Nothing that makes sense is left. -/
  | nothing (n : Node) : CutShort n broken
  | array (before after : List Node) :
      CutShort (.array (before ++ after) true) (.array before false)
  | item (before after : List Node) {n m : Node} (h : CutShort n m) :
      CutShort (.array (before ++ n :: after) true) (.array (before ++ [m]) false)
  | object (before after : List (Literal × Node)) :
      CutShort (.object (before ++ after) true) (.object before false)
  | member (before after : List (Literal × Node)) (key : Literal) {n m : Node}
      (h : CutShort n m) :
      CutShort (.object (before ++ (key, n) :: after) true)
        (.object (before ++ [(key, m)]) false)

end Node

/-- The builder has read of a value, inside some frames, what a cut leaves of it. -/
structure Builder.HasCut (frames : List Frame) (n : Node) (s : Builder) : Prop where
  soFar : ∃ m, n.CutShort m ∧ s.soFar = enclose frames m
  open_end : ∀ x, s ≠ trailing x

namespace Builder.HasCut

open Builder (push)

variable {frames : List Frame} {n : Node}

/-- What is left inside a frame is left, with the frame open, of the value that has the frame. -/
theorem of_frame {f : Frame} {part : Node} {s : Builder} (h : HasCut (f :: frames) part s)
    (hframe : ∀ m, part.CutShort m → n.CutShort (f.enclose m)) : HasCut frames n s := by
  obtain ⟨m, hm, hsoFar⟩ := h.soFar
  exact ⟨⟨f.enclose m, hframe m hm, hsoFar⟩, h.open_end⟩

/-- Of a single token nothing is left. -/
theorem of_single {t : Token} {us : List Token} (h : Token.CutRow [t] us) :
    HasCut frames n (us.foldl push (.value frames)) := by
  cases h with
  | before => exact ⟨⟨.broken, .nothing n, rfl⟩, nofun⟩
  | inside => exact ⟨⟨.broken, .nothing n, rfl⟩, nofun⟩
  | after _ h => cases h

/-! ### Items -/

/-- An item that is cut, or something after it. -/
theorem of_item {before rest : List Node} {us : List Token} (hn : n.isComplete = true)
    (hhere : ∀ us, Token.CutRow n.tokens us →
      HasCut (.item before :: frames) n (us.foldl push (.value (.item before :: frames))))
    (hlater : ∀ us, Token.CutRow (Node.itemTokens false rest ++ [.closeArray]) us →
      HasCut frames (.array (before.reverse ++ n :: rest) true)
        (us.foldl push (.after (.item before :: frames) n)))
    (h : Token.CutRow (n.tokens ++ (Node.itemTokens false rest ++ [.closeArray])) us) :
    HasCut frames (.array (before.reverse ++ n :: rest) true)
      (us.foldl push (.value (.item before :: frames))) := by
  rcases h.append_cases with hcut | ⟨ws, rfl, hcut⟩
  · exact (hhere us hcut).of_frame fun m hm => .item before.reverse rest hm
  · rw [List.foldl_append, Node.foldl_push_tokens n hn]
    exact hlater ws hcut

/-- After an item that is whole. -/
theorem after_item (before rest : List Node) :
    HasCut frames (.array (before.reverse ++ n :: rest) true)
      (.after (.item before :: frames) n) := by
  have hcut := Node.CutShort.array (before.reverse ++ [n]) rest
  rw [List.append_assoc, List.singleton_append] at hcut
  exact ⟨⟨_, hcut, rfl⟩, nofun⟩

/-- No value begins with the end of an array, so the first item is read as an item. -/
theorem foldl_push_arrayStart (hn : n.isComplete = true) {later us : List Token}
    (h : Token.CutRow (n.tokens ++ later) us) (hus : us ≠ []) :
    us.foldl push (.arrayStart frames) = us.foldl push (.value (.item [] :: frames)) := by
  obtain ⟨u, rest, rfl⟩ := List.exists_cons_of_ne_nil hus
  have hclose : u ≠ .closeArray := by
    rintro rfl
    rcases h.head_eq with hinvalid | hhead
    · exact absurd hinvalid (by simp)
    · cases n with
      | broken => exact absurd hn (by simp [Node.isComplete])
      | _ => simp [Node.tokens] at hhead
  rw [List.foldl_cons, List.foldl_cons]
  cases u with
  | closeArray => exact absurd rfl hclose
  | _ => rfl

/-! ### Members -/

/-- A member that is cut after its key, or something after it. -/
theorem of_member {before rest : List (Literal × Node)} {key : Literal} {us : List Token}
    (hn : n.isComplete = true)
    (hhere : ∀ us, Token.CutRow n.tokens us →
      HasCut (.member before key :: frames) n
        (us.foldl push (.value (.member before key :: frames))))
    (hlater : ∀ us, Token.CutRow (Node.memberTokens false rest ++ [.closeObject]) us →
      HasCut frames (.object (before.reverse ++ (key, n) :: rest) true)
        (us.foldl push (.after (.member before key :: frames) n)))
    (h : Token.CutRow
      (.colon :: (n.tokens ++ (Node.memberTokens false rest ++ [.closeObject]))) us) :
    HasCut frames (.object (before.reverse ++ (key, n) :: rest) true)
      (us.foldl push (.colon frames before key)) := by
  cases h with
  | before =>
      exact ⟨⟨_, .member before.reverse rest key (.nothing n), rfl⟩, nofun⟩
  | after _ h =>
      rcases h.append_cases with hcut | ⟨ws, rfl, hcut⟩
      · exact (hhere _ hcut).of_frame fun m hm => .member before.reverse rest key hm
      · rw [List.foldl_cons, List.foldl_append]
        show HasCut _ _ (ws.foldl push
          (n.tokens.foldl push (.value (.member before key :: frames))))
        rw [Node.foldl_push_tokens n hn]
        exact hlater ws hcut

/-- After a member that is whole. -/
theorem after_member (before rest : List (Literal × Node)) (key : Literal) :
    HasCut frames (.object (before.reverse ++ (key, n) :: rest) true)
      (.after (.member before key :: frames) n) := by
  have hcut := Node.CutShort.object (before.reverse ++ [(key, n)]) rest
  rw [List.append_assoc, List.singleton_append] at hcut
  exact ⟨⟨_, hcut, rfl⟩, nofun⟩

end Builder.HasCut

namespace Node

open Builder (push HasCut)

mutual

/-- **Values are read as far as they go**, in any frames. -/
theorem hasCut_tokens : ∀ n : Node, n.isComplete = true → ∀ (frames : List Frame)
    (us : List Token), Token.CutRow n.tokens us →
    HasCut frames n (us.foldl push (.value frames))
  | null, _, _, _, hus => .of_single hus
  | .bool _, _, _, _, hus => .of_single hus
  | number _, _, _, _, hus => .of_single hus
  | literal _, _, _, _, hus => .of_single hus
  | array [] closed, h, frames, us, hus => by
      obtain ⟨rfl, -⟩ := isComplete_array h
      cases hus with
      | before => exact ⟨⟨_, .nothing _, rfl⟩, nofun⟩
      | after _ hus =>
          cases hus with
          | before => exact ⟨⟨_, .array [] [], rfl⟩, nofun⟩
          | after _ hus => cases hus
  | array (n :: rest) closed, h, frames, us, hus => by
      obtain ⟨rfl, hitems⟩ := isComplete_array h
      obtain ⟨hn, hrest⟩ := areComplete_cons hitems
      cases hus with
      | before => exact ⟨⟨_, .nothing _, rfl⟩, nofun⟩
      | @after _ _ us hus =>
          have hrow : Token.CutRow (n.tokens ++ (itemTokens false rest ++ [.closeArray])) us := by
            simpa [itemTokens] using hus
          show HasCut _ _ (us.foldl push (.arrayStart frames))
          by_cases hempty : us = []
          · rw [hempty]
            exact ⟨⟨_, .array [] (n :: rest), rfl⟩, nofun⟩
          · rw [HasCut.foldl_push_arrayStart hn hrow hempty]
            exact .of_item hn (hasCut_tokens n hn (.item [] :: frames))
              (hasCut_itemTokens rest hrest frames [] n) hrow
  | object [] closed, h, frames, us, hus => by
      obtain ⟨rfl, -⟩ := isComplete_object h
      cases hus with
      | before => exact ⟨⟨_, .nothing _, rfl⟩, nofun⟩
      | after _ hus =>
          cases hus with
          | before => exact ⟨⟨_, .object [] [], rfl⟩, nofun⟩
          | after _ hus => cases hus
  | object ((key, n) :: rest) closed, h, frames, us, hus => by
      obtain ⟨rfl, hmembers⟩ := isComplete_object h
      obtain ⟨hn, hrest⟩ := areMembersComplete_cons hmembers
      cases hus with
      | before => exact ⟨⟨_, .nothing _, rfl⟩, nofun⟩
      | @after _ _ us hus =>
          have hrow : Token.CutRow (.literal key :: .colon ::
              (n.tokens ++ (memberTokens false rest ++ [.closeObject]))) us := by
            simpa [memberTokens] using hus
          cases hrow with
          | before => exact ⟨⟨_, .object [] ((key, n) :: rest), rfl⟩, nofun⟩
          | inside => exact ⟨⟨_, .object [] ((key, n) :: rest), rfl⟩, nofun⟩
          | after _ hrow =>
              exact .of_member hn (hasCut_tokens n hn (.member [] key :: frames))
                (hasCut_memberTokens rest hrest frames [] key n) hrow
  | broken, h, _, _, _ => absurd h (by simp [isComplete])

theorem hasCut_itemTokens : ∀ items : List Node, areComplete items = true →
    ∀ (frames : List Frame) (before : List Node) (n : Node) (us : List Token),
      Token.CutRow (itemTokens false items ++ [Token.closeArray]) us →
      HasCut frames (.array (before.reverse ++ n :: items) true)
        (us.foldl push (.after (.item before :: frames) n))
  | [], _, _, before, _, _, hus => by
      cases hus with
      | before => exact .after_item before []
      | after _ hus => cases hus
  | m :: rest, h, frames, before, n, _, hus => by
      obtain ⟨hm, hrest⟩ := areComplete_cons h
      cases hus with
      | before => exact .after_item before (m :: rest)
      | @after _ _ us hus =>
          have hrow : Token.CutRow (m.tokens ++ (itemTokens false rest ++ [.closeArray])) us := by
            simpa using hus
          have hcut := HasCut.of_item hm (hasCut_tokens m hm (.item (n :: before) :: frames))
            (hasCut_itemTokens rest hrest frames (n :: before) m) hrow
          rw [List.reverse_cons, List.append_assoc] at hcut
          exact hcut

theorem hasCut_memberTokens : ∀ members : List (Literal × Node),
    areMembersComplete members = true →
    ∀ (frames : List Frame) (before : List (Literal × Node)) (key : Literal) (n : Node)
      (us : List Token), Token.CutRow (memberTokens false members ++ [Token.closeObject]) us →
      HasCut frames (.object (before.reverse ++ (key, n) :: members) true)
        (us.foldl push (.after (.member before key :: frames) n))
  | [], _, _, before, key, _, _, hus => by
      cases hus with
      | before => exact .after_member before [] key
      | after _ hus => cases hus
  | (k, m) :: rest, h, frames, before, key, n, _, hus => by
      obtain ⟨hm, hrest⟩ := areMembersComplete_cons h
      cases hus with
      | before => exact .after_member before ((k, m) :: rest) key
      | @after _ _ us hus =>
          have hrow : Token.CutRow (.literal k :: .colon ::
              (m.tokens ++ (memberTokens false rest ++ [.closeObject]))) us := by
            simpa using hus
          show HasCut _ _ (us.foldl push (.key frames ((key, n) :: before)))
          -- Without the next key, the members before it are what is left.
          have hkey : ∀ s : Builder, s.soFar = (Builder.key frames ((key, n) :: before)).soFar →
              (∀ x, s ≠ .trailing x) →
              HasCut frames (.object (before.reverse ++ (key, n) :: (k, m) :: rest) true) s := by
            intro s hsoFar hopen
            have hcut := CutShort.object (before.reverse ++ [(key, n)]) ((k, m) :: rest)
            rw [List.append_assoc, List.singleton_append] at hcut
            refine ⟨⟨_, hcut, ?_⟩, hopen⟩
            rw [hsoFar, ← List.reverse_cons]
            rfl
          cases hrow with
          | before => exact hkey _ rfl nofun
          | inside => exact hkey _ rfl nofun
          | after _ hrow =>
              have hcut := HasCut.of_member hm
                (hasCut_tokens m hm (.member ((key, n) :: before) k :: frames))
                (hasCut_memberTokens rest hrest frames ((key, n) :: before) k m) hrow
              rw [List.reverse_cons, List.append_assoc] at hcut
              exact hcut

end

/-! ### What is left of each kind of value -/

variable {m : Node}

theorem eq_broken_of_cutShort_literal {l : Literal} (h : (literal l).CutShort m) : m = broken := by
  cases h
  rfl

theorem cutShort_array_cases {items : List Node} (h : (array items true).CutShort m) :
    m = broken ∨ (∃ before after, items = before ++ after ∧ m = array before false) ∨
      ∃ before after n rest, items = before ++ n :: after ∧ n.CutShort rest ∧
        m = array (before ++ [rest]) false := by
  generalize hn : array items true = n at h
  cases h with
  | nothing => exact .inl rfl
  | array before after =>
      obtain ⟨rfl, -⟩ := array.inj hn
      exact .inr (.inl ⟨before, after, rfl, rfl⟩)
  | @item before after n rest h =>
      obtain ⟨rfl, -⟩ := array.inj hn
      exact .inr (.inr ⟨before, after, n, rest, rfl, h, rfl⟩)
  | _ => exact absurd hn nofun

theorem cutShort_object_cases {members : List (Literal × Node)}
    (h : (object members true).CutShort m) :
    m = broken ∨ (∃ before after, members = before ++ after ∧ m = object before false) ∨
      ∃ before after key n rest, members = before ++ (key, n) :: after ∧ n.CutShort rest ∧
        m = object (before ++ [(key, rest)]) false := by
  generalize hn : object members true = n at h
  cases h with
  | nothing => exact .inl rfl
  | object before after =>
      obtain ⟨rfl, -⟩ := object.inj hn
      exact .inr (.inl ⟨before, after, rfl, rfl⟩)
  | @member before after key n rest h =>
      obtain ⟨rfl, -⟩ := object.inj hn
      exact .inr (.inr ⟨before, after, key, n, rest, rfl, h, rfl⟩)
  | _ => exact absurd hn nofun

/-! ### Values without words -/

theorem isWord_of_mem_itemTokens {items : List Node} {t : Token} {first : Bool}
    (h : ∀ n ∈ items, ∀ t ∈ n.tokens, t.isWord = false) (ht : t ∈ itemTokens first items) :
    t.isWord = false := by
  induction items generalizing first with
  | nil => exact absurd ht List.not_mem_nil
  | cons n rest ih =>
      rw [itemTokens, List.mem_append, List.mem_append] at ht
      rcases ht with (hcomma | hhere) | hlater
      · cases first with
        | true => exact absurd hcomma List.not_mem_nil
        | false =>
            obtain rfl := List.mem_singleton.mp hcomma
            rfl
      · exact h n List.mem_cons_self t hhere
      · exact ih (fun m hm => h m (List.mem_cons_of_mem n hm)) hlater

theorem isWord_of_mem_memberTokens {members : List (Literal × Node)} {t : Token} {first : Bool}
    (h : ∀ m ∈ members, ∀ t ∈ m.2.tokens, t.isWord = false)
    (ht : t ∈ memberTokens first members) : t.isWord = false := by
  induction members generalizing first with
  | nil => exact absurd ht List.not_mem_nil
  | cons m rest ih =>
      obtain ⟨key, n⟩ := m
      simp only [memberTokens, List.mem_append, List.mem_cons] at ht
      rcases ht with (hcomma | rfl | rfl | hhere) | hlater
      · cases first with
        | true => exact absurd hcomma List.not_mem_nil
        | false =>
            obtain rfl := List.mem_singleton.mp hcomma
            rfl
      · rfl
      · rfl
      · exact h (key, n) List.mem_cons_self t hhere
      · exact ih (fun x hx => h x (List.mem_cons_of_mem _ hx)) hlater

theorem isWord_of_mem_tokens_array {items : List Node}
    (h : ∀ n ∈ items, ∀ t ∈ n.tokens, t.isWord = false) :
    ∀ t ∈ (array items true).tokens, t.isWord = false := by
  intro t ht
  simp only [tokens, if_true, List.mem_cons, List.mem_append, List.not_mem_nil, or_false] at ht
  rcases ht with rfl | hitem | rfl
  · rfl
  · exact isWord_of_mem_itemTokens h hitem
  · rfl

theorem isWord_of_mem_tokens_object {members : List (Literal × Node)}
    (h : ∀ m ∈ members, ∀ t ∈ m.2.tokens, t.isWord = false) :
    ∀ t ∈ (object members true).tokens, t.isWord = false := by
  intro t ht
  simp only [tokens, if_true, List.mem_cons, List.mem_append, List.not_mem_nil, or_false] at ht
  rcases ht with rfl | hmember | rfl
  · rfl
  · exact isWord_of_mem_memberTokens h hmember
  · rfl

theorem isWord_of_mem_tokens_text (u : String) : ∀ t ∈ (text u).tokens, t.isWord = false := by
  intro t ht
  obtain rfl := List.mem_singleton.mp ht
  rfl

end Node

/-! ## Texts that are cut -/

namespace Document

variable {n : Node} {t rest : String}

/-- **A text that is cut** holds what is left of its value, and nothing follows it. -/
theorem ofText_of_cut (hn : n.isComplete = true) (hword : ∀ t ∈ n.tokens, t.isWord = false)
    (h : n.render = t ++ rest) (hrest : rest ≠ "") :
    ∃ m, n.CutShort m ∧ ofText t = ⟨m, false⟩ := by
  have hchars : n.tokens.flatMap Token.spell = t.toList ++ rest.toList := by
    rw [← String.toList_append, ← h, Node.render, String.toList_ofList]
  obtain ⟨us, hcut, hread⟩ := Token.exists_cutRow (Node.row_tokens n hn).valid hword hchars
    (mt String.toList_eq_nil_iff.mp hrest) (s := .start) (.inl rfl)
  obtain ⟨⟨m, hm, hsoFar⟩, hopen⟩ := Node.hasCut_tokens n hn [] us hcut
  refine ⟨m, hm, ?_⟩
  have htokens : Token.ofText t = us := hread
  rw [ofText, htokens, ofTokens]
  split
  · next x hx => exact absurd hx (hopen x)
  · rw [hsoFar]
    rfl

/-- A reader refuses such a text if it refuses what can be left of the value. -/
theorem read_of_cut {α : Type} {reader : Node → Except ReadError α} (hn : n.isComplete = true)
    (hword : ∀ t ∈ n.tokens, t.isWord = false)
    (hrefuse : ∀ m, n.CutShort m → reader m = .error .malformed)
    (h : n.render = t ++ rest) (hrest : rest ≠ "") : read reader t = .error .malformed := by
  obtain ⟨m, hm, htext⟩ := ofText_of_cut hn hword h hrest
  rw [read, htext]
  show (reader m >>= _) = _
  rw [hrefuse m hm]
  rfl

end Document

/-! ## Reading several parts -/

section Parts

variable {α β : Type} {f : α → Except ReadError β} {l : List α}

theorem exists_forall₂_of_forall (h : ∀ a ∈ l, ∃ b, f a = .ok b) :
    ∃ r, List.Forall₂ (fun a b => f a = .ok b) l r := by
  induction l with
  | nil => exact ⟨[], .nil⟩
  | cons a rest ih =>
      obtain ⟨b, hb⟩ := h a List.mem_cons_self
      obtain ⟨r, hr⟩ := ih fun c hc => h c (List.mem_cons_of_mem a hc)
      exact ⟨b :: r, .cons hb hr⟩

/-- Parts that are whole are read, however many are left. -/
theorem exists_mapM_eq_ok (h : ∀ a ∈ l, ∃ b, f a = .ok b) : ∃ r, l.mapM f = .ok r := by
  obtain ⟨r, hr⟩ := exists_forall₂_of_forall h
  exact ⟨r, mapM_eq_ok hr⟩

/-- The last part that is left decides the error, if the parts before it are whole. -/
theorem mapM_append_eq_error (h : ∀ a ∈ l, ∃ b, f a = .ok b) {a : α} {e : ReadError}
    (ha : f a = .error e) : (l ++ [a]).mapM f = .error e := by
  obtain ⟨r, hr⟩ := exists_forall₂_of_forall h
  exact mapM_eq_error hr ha []

/-- What is done part by part is done for the parts before a place too. -/
theorem exists_foldlM_eq_ok {f : β → α → Except ReadError β} {b c : β} {before after : List α}
    (h : (before ++ after).foldlM f b = .ok c) : ∃ d, before.foldlM f b = .ok d := by
  rw [List.foldlM_append] at h
  cases hbefore : before.foldlM f b with
  | ok d => exact ⟨d, rfl⟩
  | error e =>
      rw [hbefore] at h
      exact absurd h nofun

end Parts

end Worktree.Json
