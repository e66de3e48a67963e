import Worktree.Proofs.Lexing

/-!
# Rows of tokens that are cut

A text that loses its end may lose it anywhere: between two tokens, or inside one.  This file says
what is read of it, as long as its tokens are marks and literals.  (Of a word that is cut, what is
left may be a word, and then nothing tells that there was more.)

* `Lexer.isInside_foldl_push` — a literal that is open stays open until its token is read, so
  `Lexer.finish_cut_literal`: a literal that is cut is no token;
* `Token.CutRow` — what a cut leaves of a row: it stops before a token, or inside a literal;
* `Token.exists_cutRow` — that is what is read.
-/

namespace Worktree.Json

/-! ## Literals that are cut -/

namespace Lexer

/-- A literal is open. -/
def IsInside (s : Lexer) : Prop :=
  ∃ body, s.mode = .quoted body ∨ s.mode = .escaped body

variable {s : Lexer}

theorem finish_of_isInside (hs : s.IsInside) : s.finish = s.tokens.reverse ++ [.invalid] := by
  obtain ⟨body, hmode | hmode⟩ := hs <;> simp [finish, hmode]

theorem length_tokens_le_begin (ts : List Token) (c : Char) :
    ts.length ≤ (begin ts c).tokens.length := by
  unfold begin
  split
  · exact le_rfl
  · split
    · exact le_rfl
    · split
      · exact Nat.le_succ _
      · exact le_rfl

/-- Tokens that have been read stay. -/
theorem length_tokens_le_push (s : Lexer) (c : Char) :
    s.tokens.length ≤ (s.push c).tokens.length := by
  obtain ⟨ts, mode⟩ := s
  cases mode with
  | between => exact length_tokens_le_begin ts c
  | word letters =>
      unfold push
      dsimp only
      split
      · exact le_rfl
      · refine le_trans ?_ (length_tokens_le_begin _ c)
        simp
  | quoted body =>
      unfold push
      dsimp only
      split
      · exact Nat.le_succ _
      · split <;> exact le_rfl
  | escaped body => exact le_rfl

theorem length_tokens_le_foldl_push (s : Lexer) (cs : List Char) :
    s.tokens.length ≤ (cs.foldl push s).tokens.length := by
  induction cs generalizing s with
  | nil => exact le_rfl
  | cons c rest ih => exact le_trans (length_tokens_le_push s c) (ih (s.push c))

/-- An open literal stays open until its token is read. -/
theorem isInside_push (hs : s.IsInside) (c : Char) :
    ((s.push c).IsInside ∧ (s.push c).tokens = s.tokens) ∨
      s.tokens.length < (s.push c).tokens.length := by
  obtain ⟨ts, mode⟩ := s
  obtain ⟨body, rfl | rfl⟩ := hs
  · unfold push
    dsimp only
    split
    · exact .inr (Nat.lt_succ_self _)
    · split
      · exact .inl ⟨⟨_, .inr rfl⟩, rfl⟩
      · exact .inl ⟨⟨_, .inl rfl⟩, rfl⟩
  · exact .inl ⟨⟨_, .inl rfl⟩, rfl⟩

theorem isInside_foldl_push (hs : s.IsInside) (cs : List Char) :
    ((cs.foldl push s).IsInside ∧ (cs.foldl push s).tokens = s.tokens) ∨
      s.tokens.length < (cs.foldl push s).tokens.length := by
  induction cs generalizing s with
  | nil => exact .inl ⟨hs, rfl⟩
  | cons c rest ih =>
      rw [List.foldl_cons]
      rcases isInside_push hs c with ⟨hopen, htokens⟩ | hmore
      · rw [← htokens]
        exact ih hopen
      · exact .inr (lt_of_lt_of_le hmore (length_tokens_le_foldl_push _ rest))

/-- **A literal that is cut** is no token.  It has not been closed: the rest of its body is read
before its token is. -/
theorem finish_cut_literal (hs : s.IsOutside) {l : Literal} {cs rest : List Char}
    (h : l.Spells (cs ++ rest)) (hcs : cs ≠ []) (hrest : rest ≠ []) :
    (cs.foldl push s).finish = s.finish ++ [.invalid] := by
  obtain ⟨body, ps, hbody, -, htext⟩ := h
  obtain ⟨c, begun, rfl⟩ := List.exists_cons_of_ne_nil hcs
  obtain ⟨left, mark, rfl⟩ := (List.eq_nil_or_concat rest).resolve_left hrest
  rw [List.concat_eq_append, List.cons_append, List.cons.injEq, ← List.append_assoc] at htext
  obtain ⟨rfl, htail⟩ := htext
  obtain ⟨rfl, -⟩ := List.append_inj' htail rfl
  have hopen : s.push '"' = ⟨s.finish.reverse, .quoted []⟩ := push_eq_begin hs (by decide)
  rw [List.foldl_cons, hopen]
  have hinside : IsInside ⟨s.finish.reverse, .quoted []⟩ := ⟨[], .inl rfl⟩
  rcases isInside_foldl_push hinside begun with ⟨hstill, htokens⟩ | hclosed
  · rw [finish_of_isInside hstill, htokens, List.reverse_reverse]
  · have hread := foldl_push_body hbody s.finish.reverse []
    rw [List.foldl_append] at hread
    have hmore := length_tokens_le_foldl_push
      (begun.foldl push ⟨s.finish.reverse, .quoted []⟩) left
    rw [hread] at hmore
    exact absurd hclosed (not_lt_of_ge hmore)

end Lexer

/-! ## Rows that are cut -/

namespace Token

/-- **What a cut leaves of a row.**  The row stops before a token, or a literal is cut. -/
inductive CutRow : List Token → List Token → Prop where
  | before (t : Token) (ts : List Token) : CutRow (t :: ts) []
  | inside (l : Literal) (ts : List Token) : CutRow (literal l :: ts) [invalid]
  | after (t : Token) {ts us : List Token} (h : CutRow ts us) : CutRow (t :: ts) (t :: us)

namespace CutRow

variable {ts us vs : List Token}

/-- One of two rows is cut, and what comes before it stays. -/
theorem append_cases (h : CutRow (ts ++ us) vs) :
    CutRow ts vs ∨ ∃ ws, vs = ts ++ ws ∧ CutRow us ws := by
  induction ts generalizing vs with
  | nil => exact .inr ⟨vs, rfl, h⟩
  | cons t rest ih =>
      cases h with
      | before => exact .inl (.before t rest)
      | inside l => exact .inl (.inside l rest)
      | after _ h =>
          rcases ih h with hhere | ⟨ws, rfl, hlater⟩
          · exact .inl (.after t hhere)
          · exact .inr ⟨ws, rfl, hlater⟩

theorem head_eq {u : Token} (h : CutRow ts (u :: us)) : u = invalid ∨ ts.head? = some u := by
  cases h with
  | inside => exact .inl rfl
  | after => exact .inr rfl

end CutRow

/-- A mark is a single character. -/
theorem length_spell {t : Token} (hword : t.isWord = false) (hliteral : ∀ l, t ≠ literal l) :
    t.spell.length ≤ 1 := by
  cases t with
  | null => exact absurd hword (by decide)
  | bool b => exact absurd hword (by simp [isWord])
  | number n => exact absurd hword (by simp [isWord])
  | literal l => exact absurd rfl (hliteral l)
  | _ => simp [spell]

/-- **Rows are read as far as they go**, if there are no words in them: of a word that is cut, what
is left may be a word. -/
theorem exists_cutRow {ts : List Token} (hvalid : invalid ∉ ts)
    (hword : ∀ t ∈ ts, t.isWord = false) {cs rest : List Char}
    (h : ts.flatMap spell = cs ++ rest) (hrest : rest ≠ []) {s : Lexer} (hs : s.IsOutside) :
    ∃ us, CutRow ts us ∧ (cs.foldl Lexer.push s).finish = s.finish ++ us := by
  induction ts generalizing cs s with
  | nil =>
      rw [List.flatMap_nil] at h
      exact absurd (List.append_eq_nil_iff.mp h.symm).2 hrest
  | cons t later ih =>
      have ht : t ≠ invalid := fun heq => hvalid (heq ▸ List.mem_cons_self)
      have htword : t.isWord = false := hword t List.mem_cons_self
      -- The cut is after the token: the token is read, and the rest of the row is cut.
      have hafter : ∀ begun, cs = t.spell ++ begun → later.flatMap spell = begun ++ rest →
          ∃ us, CutRow (t :: later) us ∧ (cs.foldl Lexer.push s).finish = s.finish ++ us := by
        intro begun hcs hlater
        obtain ⟨us, hcut, hfinish⟩ := ih (fun hmem => hvalid (List.mem_cons_of_mem t hmem))
          (fun u hu => hword u (List.mem_cons_of_mem t hu)) hlater
          (s := ⟨t :: s.finish.reverse, .between⟩) (.inl rfl)
        refine ⟨t :: us, .after t hcut, ?_⟩
        rw [hcs, List.foldl_append, Lexer.foldl_push_of_spells hs htword (spells_spell ht), hfinish]
        simp [Lexer.finish]
      rw [List.flatMap_cons] at h
      rcases List.append_eq_append_iff.mp h with ⟨begun, hcs, hlater⟩ | ⟨left, hspell, hleft⟩
      · exact hafter begun hcs hlater
      by_cases hend : left = []
      · subst hend
        exact hafter [] (by simpa using hspell.symm) (by simpa using hleft.symm)
      by_cases hbegin : cs = []
      · subst hbegin
        exact ⟨[], .before t later, by simp⟩
      by_cases hliteral : ∃ l, t = literal l
      · obtain ⟨l, rfl⟩ := hliteral
        have hspells : l.Spells (cs ++ left) := hspell ▸ l.spells_spell
        exact ⟨[invalid], .inside l later, Lexer.finish_cut_literal hs hspells hbegin hend⟩
      · have hshort := length_spell htword fun l hl => hliteral ⟨l, hl⟩
        have hcs := List.length_pos_iff.mpr hbegin
        have hleft := List.length_pos_iff.mpr hend
        rw [hspell, List.length_append] at hshort
        omega

end Token

end Worktree.Json
