import Mathlib.Data.List.Chain
import Worktree.Proofs.Spelling

/-!
# Tokens are read off a text

Marks and literals tell where they end; a word, which is a keyword or a number, ends with whatever
is no letter, so two words in a row would run into one.  Between two tokens there may be blanks.

* `Token.Spells` says which characters spell a token;
* `Token.Row` — tokens that may be written in a row: each is one, and no two words meet;
* `Token.Spread` — a text that spells some tokens in their order, with blanks anywhere between;
* `Token.ofText_of_spread` — a row is what such a text holds.
-/

namespace Worktree.Json

/-! ## Tokens -/

namespace Token

/-- The ways to write a token.  Numbers and literals leave some freedom, the others none. -/
def Spells : Token → List Char → Prop
  | number n, cs => n.Spells cs
  | literal l, cs => l.Spells cs
  | invalid, _ => False
  | t, cs => cs = t.spell

/-- **Our spelling** of a token is one. -/
theorem spells_spell {t : Token} (ht : t ≠ invalid) : t.Spells t.spell := by
  cases t with
  | number n => exact n.spells_spell
  | literal l => exact l.spells_spell
  | invalid => exact absurd rfl ht
  | _ => exact rfl

/-- Whether a token is a keyword or a number. -/
def isWord : Token → Bool
  | null => true
  | bool _ => true
  | number _ => true
  | _ => false

variable {t : Token} {cs : List Char}

theorem isLetter_of_spells (ht : t.isWord = true) (h : t.Spells cs) :
    ∀ c ∈ cs, Lexer.isLetter c = true := by
  have hkeyword : ∀ k ∈ keywords, k.spell.all Lexer.isLetter = true := by decide
  cases t with
  | null =>
      obtain rfl : cs = _ := h
      exact List.all_eq_true.mp (hkeyword null (by decide))
  | bool b =>
      obtain rfl : cs = _ := h
      exact List.all_eq_true.mp (hkeyword (bool b) (by cases b <;> decide))
  | number n => exact Number.Spells.isLetter h
  | _ => exact absurd ht (by simp [isWord])

/-- **Words read back.** -/
theorem ofWord_of_spells (ht : t.isWord = true) (h : t.Spells cs) : ofWord cs = [t] := by
  cases t with
  | null =>
      obtain rfl : cs = _ := h
      decide
  | bool b =>
      obtain rfl : cs = _ := h
      cases b <;> decide
  | number n =>
      obtain ⟨c, rest, rfl, hnull, htrue, hfalse⟩ := Number.Spells.exists_cons h
      have hkeyword : (keywords.find? fun k => k.spell.isPrefixOf (c :: rest)) = none := by
        simp [keywords, spell, List.isPrefixOf, hnull.symm, htrue.symm, hfalse.symm]
      unfold ofWord
      rw [hkeyword]
      simp only [Number.scan?_of_spells h]
  | _ => exact absurd ht (by simp [isWord])

theorem ne_nil_of_spells (ht : t.isWord = true) (h : t.Spells cs) : cs ≠ [] := by
  rintro rfl
  have hnone : ofWord [] = [invalid] := by decide
  have hword := hnone.symm.trans (ofWord_of_spells ht h)
  obtain rfl : invalid = t := by simpa using hword
  exact absurd ht (by decide)

end Token

/-! ## Steps of the reader -/

namespace Lexer

/-- No literal is open. -/
def IsOutside (s : Lexer) : Prop :=
  s.mode = .between ∨ ∃ letters, s.mode = .word letters

variable {s : Lexer}

/-- Outside literals a character that is no letter ends what is unfinished and begins anew. -/
theorem push_eq_begin (hs : s.IsOutside) {c : Char} (hc : isLetter c = false) :
    s.push c = begin s.finish.reverse c := by
  obtain ⟨ts, mode⟩ := s
  rcases hs with rfl | ⟨letters, rfl⟩
  · simp [push, finish]
  · simp [push, finish, hc]

/-- A blank only ends what is unfinished. -/
theorem push_blank (hs : s.IsOutside) {c : Char} (hc : isBlank c = true) :
    s.push c = ⟨s.finish.reverse, .between⟩ := by
  have hletter : isLetter c = false := by simp [isLetter, hc]
  rw [push_eq_begin hs hletter, begin, if_pos hc]

theorem push_quoted {ts : List Token} {body : List Char} {c : Char} (hmark : c ≠ '"')
    (hslash : c ≠ '\\') : push ⟨ts, .quoted body⟩ c = ⟨ts, .quoted (c :: body)⟩ := by
  simp [push, hmark, hslash]

/-- The digits of an escape by code unit are neither marks nor backslashes. -/
theorem plain_of_hexUnit? {a b c d : Char} {n : Nat} (h : Literal.hexUnit? a b c d = some n) :
    ∀ x ∈ [a, b, c, d], x ≠ '"' ∧ x ≠ '\\' := by
  have hdigit : ∀ {x : Char} {k : Nat}, Text.hexValue? x.toNat = some k → x ≠ '"' ∧ x ≠ '\\' := by
    intro x k hx
    constructor <;> rintro rfl <;> exact absurd hx (by decide +revert)
  simp only [Literal.hexUnit?, Option.bind_eq_bind, Option.bind_eq_some_iff] at h
  obtain ⟨_, ha, _, hb, _, hc, _, hd, -⟩ := h
  simp [hdigit ha, hdigit hb, hdigit hc, hdigit hd]

/-- A body is read to its end and leaves the literal open. -/
theorem foldl_push_body {cs : List Char} {ps : List Literal.Piece} (h : Literal.Body cs ps)
    (ts : List Token) (body : List Char) :
    cs.foldl push ⟨ts, .quoted body⟩ = ⟨ts, .quoted (cs.reverse ++ body)⟩ := by
  induction h generalizing body with
  | nil => rfl
  | @plain c cs ps _ hmark hslash _ ih =>
      rw [List.foldl_cons, push_quoted hmark hslash, ih]
      simp
  | @short e c cs ps _ _ ih =>
      have hescape : ['\\', e].foldl push ⟨ts, .quoted body⟩ =
          ⟨ts, .quoted (e :: '\\' :: body)⟩ := rfl
      have hread := ih (e :: '\\' :: body)
      rw [← hescape] at hread
      rw [List.reverse_cons, List.reverse_cons, List.append_assoc, List.append_assoc]
      exact hread
  | @unit a b c d n cs ps hn _ ih =>
      have hplain := plain_of_hexUnit? hn
      have hescape : ['\\', 'u', a, b, c, d].foldl push ⟨ts, .quoted body⟩ =
          ⟨ts, .quoted (d :: c :: b :: a :: 'u' :: '\\' :: body)⟩ := by
        show [a, b, c, d].foldl push ⟨ts, .quoted ('u' :: '\\' :: body)⟩ = _
        simp only [List.mem_cons, List.not_mem_nil, or_false, forall_eq_or_imp, forall_eq]
          at hplain
        simp [push, hplain]
      have hread := ih (d :: c :: b :: a :: 'u' :: '\\' :: body)
      rw [← hescape] at hread
      simpa using hread

/-- A literal is read as one token. -/
theorem foldl_push_literal (hs : s.IsOutside) {l : Literal} {cs : List Char} (h : l.Spells cs) :
    cs.foldl push s = ⟨.literal l :: s.finish.reverse, .between⟩ := by
  obtain ⟨body, ps, hbody, rfl, rfl⟩ := h
  have hopen : s.push '"' = ⟨s.finish.reverse, .quoted []⟩ := push_eq_begin hs (by decide)
  have htoken : Token.ofBody body = .literal (Literal.ofPieces ps) := by
    unfold Token.ofBody
    rw [Literal.decode?_of_body hbody]
  rw [List.foldl_cons, hopen, List.foldl_append, foldl_push_body hbody]
  simp [push, htoken]

/-- A token that is no word is read whatever comes before it. -/
theorem foldl_push_of_spells (hs : s.IsOutside) {t : Token} (ht : t.isWord = false)
    {cs : List Char} (h : t.Spells cs) :
    cs.foldl push s = ⟨t :: s.finish.reverse, .between⟩ := by
  cases t with
  | literal l => exact foldl_push_literal hs h
  | invalid => exact absurd h id
  | null => exact absurd ht (by decide)
  | bool b => exact absurd ht (by simp [Token.isWord])
  | number n => exact absurd ht (by simp [Token.isWord])
  | _ =>
      obtain rfl : cs = _ := h
      exact push_eq_begin hs (by decide)

theorem foldl_push_letters {ts : List Token} {letters cs : List Char}
    (h : ∀ c ∈ cs, isLetter c = true) :
    cs.foldl push ⟨ts, .word letters⟩ = ⟨ts, .word (cs.reverse ++ letters)⟩ := by
  induction cs generalizing letters with
  | nil => rfl
  | cons c rest ih =>
      have hc : isLetter c = true := h c List.mem_cons_self
      have hpush : push ⟨ts, .word letters⟩ c = ⟨ts, .word (c :: letters)⟩ := by
        simp [push, hc]
      rw [List.foldl_cons, hpush, ih fun d hd => h d (List.mem_cons_of_mem c hd)]
      simp

/-- Letters are kept as a word when nothing is unfinished. -/
theorem foldl_push_word (ts : List Token) {cs : List Char} (hne : cs ≠ [])
    (hletters : ∀ c ∈ cs, isLetter c = true) :
    cs.foldl push ⟨ts, .between⟩ = ⟨ts, .word cs.reverse⟩ := by
  obtain ⟨c, rest, rfl⟩ := List.exists_cons_of_ne_nil hne
  have hc := hletters c List.mem_cons_self
  have hbegin : begin ts c = ⟨ts, .word [c]⟩ := by
    simp only [isLetter, Bool.and_eq_true, Bool.not_eq_true', bne_iff_ne, ne_eq,
      Option.isNone_iff_eq_none] at hc
    simp [begin, hc]
  rw [List.foldl_cons]
  show rest.foldl push (begin ts c) = _
  rw [hbegin, foldl_push_letters fun d hd => hletters d (List.mem_cons_of_mem c hd)]
  simp

end Lexer

/-! ## Rows of tokens -/

namespace Token

/-- Tokens that may be written in a row: each is one, and no word follows a word. -/
structure Row (ts : List Token) : Prop where
  valid : invalid ∉ ts
  apart : ts.IsChain fun t u => t.isWord = true → u.isWord = false

namespace Row

theorem nil : Row [] :=
  ⟨List.not_mem_nil, .nil⟩

theorem singleton {t : Token} (ht : t ≠ invalid) : Row [t] :=
  ⟨fun h => ht (List.mem_singleton.mp h).symm, .singleton t⟩

theorem tail {t : Token} {ts : List Token} (h : Row (t :: ts)) : Row ts :=
  ⟨fun hmem => h.valid (List.mem_cons_of_mem t hmem), (List.isChain_cons.mp h.apart).2⟩

/-- Two rows are one with a token between them that is no word. -/
theorem append_cons {ts us : List Token} (hts : Row ts) (hus : Row us) {t : Token}
    (hword : t.isWord = false) (hvalid : t ≠ invalid) : Row (ts ++ t :: us) := by
  constructor
  · intro hmem
    rcases List.mem_append.mp hmem with hmem | hmem
    · exact hts.valid hmem
    rcases List.mem_cons.mp hmem with heq | hmem
    · exact hvalid heq.symm
    · exact hus.valid hmem
  · refine List.isChain_append.mpr ⟨hts.apart, List.isChain_cons.mpr ⟨?_, hus.apart⟩, ?_⟩
    · intro u _ ht
      exact absurd ht (by simp [hword])
    · intro u _ v hv _
      obtain rfl := Option.some.inj hv
      exact hword

theorem cons {us : List Token} (hus : Row us) {t : Token} (hword : t.isWord = false)
    (hvalid : t ≠ invalid) : Row (t :: us) :=
  nil.append_cons hus hword hvalid

end Row

/-! ## Texts of a row -/

/-- The characters spell the tokens one after the other, with blanks anywhere between them. -/
inductive Spread : List Token → List Char → Prop where
  | nil : Spread [] []
  | blank {ts : List Token} {c : Char} {cs : List Char} (hc : isBlank c = true)
      (h : Spread ts cs) : Spread ts (c :: cs)
  | token {t : Token} {ts : List Token} {spelled cs : List Char} (ht : t.Spells spelled)
      (h : Spread ts cs) : Spread (t :: ts) (spelled ++ cs)

/-- Without blanks, and each in our spelling, tokens are spread too. -/
theorem Row.spread {ts : List Token} (hts : Row ts) : Spread ts (ts.flatMap spell) := by
  induction ts with
  | nil => exact .nil
  | cons t rest ih =>
      have hvalid : t ≠ invalid := fun heq => hts.valid (heq ▸ List.mem_cons_self)
      exact .token (spells_spell hvalid) (ih hts.tail)

/-- A row that is read on joins what has been read, unless a word would follow a word. -/
theorem finish_foldl_push {ts : List Token} {cs : List Char} (h : Spread ts cs) (hts : Row ts)
    {s : Lexer} (hs : s.IsOutside)
    (hfirst : s.mode = .between ∨ ∀ t ∈ ts.head?, t.isWord = false) :
    (cs.foldl Lexer.push s).finish = s.finish ++ ts := by
  induction h generalizing s with
  | nil => simp
  | blank hc _ ih =>
      rw [List.foldl_cons, Lexer.push_blank hs hc, ih hts (.inl rfl) (.inl rfl)]
      simp [Lexer.finish]
  | @token t rest spelled cs hspelled _ ih =>
      rw [List.foldl_append]
      cases ht : t.isWord with
      | false =>
          rw [Lexer.foldl_push_of_spells hs ht hspelled, ih hts.tail (.inl rfl) (.inl rfl)]
          simp [Lexer.finish]
      | true =>
          -- The word stays unfinished; what comes next in the row is no word and will finish it.
          obtain ⟨read, mode⟩ := s
          obtain rfl : mode = .between := by
            rcases hfirst with hbetween | hmark
            · exact hbetween
            · exact absurd ht (by simp [hmark t rfl])
          have hnext : ∀ u ∈ rest.head?, u.isWord = false :=
            fun u hu => (List.isChain_cons.mp hts.apart).1 u hu ht
          have hread := Lexer.foldl_push_word read (ne_nil_of_spells ht hspelled)
            (isLetter_of_spells ht hspelled)
          rw [hread, ih hts.tail (.inr ⟨_, rfl⟩) (.inr hnext)]
          simp [Lexer.finish, ofWord_of_spells ht hspelled]

/-- **Rows read back** from every text that spreads them. -/
theorem ofText_of_spread {ts : List Token} (hts : Row ts) {t : String}
    (h : Spread ts t.toList) : ofText t = ts :=
  finish_foldl_push h hts (.inl rfl) (.inl rfl)

end Token

end Worktree.Json
