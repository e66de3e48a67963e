import Mathlib.Data.List.Basic
import Mathlib.Tactic.IntervalCases
import Mathlib.Tactic.SplitIfs
import Worktree.Json.Token

/-!
# How literals and numbers may be spelled

The format leaves a writer some freedom: a character of a literal may stand there as it is or be
escaped, in one of two ways, and a power of ten may have a sign.  A reader accepts all of it; our
writer uses one way.

* `Literal.Spells` and `Number.Spells` say which characters spell a literal and a number;
* `Literal.decode?_of_body` and `Number.scan?_of_spells` — whatever spells it reads back, with
  nothing left over;
* `Literal.spells_spell` and `Number.spells_spell` — what we write is one of the spellings.
-/

namespace Worktree.Json

/-! ## Literals -/

namespace Literal

/-- **Bodies.**  Characters that may stand between the marks of a literal, and the pieces that they
are. -/
inductive Body : List Char → List Piece → Prop where
  | nil : Body [] []
  | plain {c : Char} {cs : List Char} {ps : List Piece} (hc : 0x20 ≤ c.toNat) (hmark : c ≠ '"')
      (hslash : c ≠ '\\') (h : Body cs ps) : Body (c :: cs) (.char c :: ps)
  | short {e c : Char} {cs : List Char} {ps : List Piece} (he : shortEscape? e = some c)
      (h : Body cs ps) : Body ('\\' :: e :: cs) (.char c :: ps)
  | unit {a b c d : Char} {n : Nat} {cs : List Char} {ps : List Piece}
      (hn : hexUnit? a b c d = some n) (h : Body cs ps) :
      Body ('\\' :: 'u' :: a :: b :: c :: d :: cs) (.unit n :: ps)

/-- What pieces make: a text, unless half of a surrogate pair is missing. -/
def ofPieces (ps : List Piece) : Literal :=
  (join? ps).elim .unpaired fun cs => .text (String.ofList cs)

/-- The ways to write a literal, with its marks. -/
def Spells (l : Literal) (cs : List Char) : Prop :=
  ∃ body ps, Body body ps ∧ ofPieces ps = l ∧ cs = '"' :: (body ++ ['"'])

theorem pieces?_of_body {cs : List Char} {ps : List Piece} (h : Body cs ps) :
    pieces? cs = some ps := by
  induction h with
  | nil => rfl
  | plain hc _ hslash _ ih => simp [pieces?, hslash, hc, ih]
  | @short e c cs ps he _ ih =>
      have hu : e ≠ 'u' := by
        rintro rfl
        simp [shortEscape?] at he
      simp [pieces?, hu, he, ih]
  | unit hn _ ih => simp [pieces?, hn, ih]

/-- **Bodies read back.** -/
theorem decode?_of_body {cs : List Char} {ps : List Piece} (h : Body cs ps) :
    decode? cs = some (ofPieces ps) := by
  unfold decode? ofPieces
  rw [pieces?_of_body h]
  cases hjoin : join? ps <;> simp [hjoin]

/-- **Escapes.**  A character is escaped by a letter, or as a control by its code, or it is written
as it is. -/
theorem escape_cases (c : Char) :
    (∃ e, shortEscape? e = some c ∧ escape c = ['\\', e]) ∨
    (c.toNat < 0x20 ∧ escape c = ['\\', 'u', '0', '0'] ++ Text.hexPair (UInt8.ofNat c.toNat)) ∨
    (0x20 ≤ c.toNat ∧ c ≠ '"' ∧ c ≠ '\\' ∧ escape c = [c]) := by
  unfold escape
  split_ifs with h₁ h₂ h₃ h₄ h₅ h₆ h₇ hcontrol
  · exact .inl ⟨'"', congrArg some h₁.symm, rfl⟩
  · exact .inl ⟨'\\', congrArg some h₂.symm, rfl⟩
  · exact .inl ⟨'b', congrArg some h₃.symm, rfl⟩
  · exact .inl ⟨'f', congrArg some h₄.symm, rfl⟩
  · exact .inl ⟨'n', congrArg some h₅.symm, rfl⟩
  · exact .inl ⟨'r', congrArg some h₆.symm, rfl⟩
  · exact .inl ⟨'t', congrArg some h₇.symm, rfl⟩
  · exact .inr (.inl ⟨hcontrol, rfl⟩)
  · exact .inr (.inr ⟨by omega, h₁, h₂, rfl⟩)

/-- A piece that stands for a character, whatever pieces follow. -/
def Piece.Stands (p : Piece) (c : Char) : Prop :=
  ∀ ps, join? (p :: ps) = (join? ps).map (c :: ·)

theorem Piece.stands_char (c : Char) : (Piece.char c).Stands c :=
  fun _ => by rw [join?]

/-- A code unit below the surrogates stands for the character of that number. -/
theorem Piece.stands_unit {n : Nat} (hn : n < 0xd800) : (Piece.unit n).Stands (Char.ofNat n) := by
  have hhigh : isHigh n = false := by simp [isHigh]; omega
  have hlow : isLow n = false := by simp [isLow]; omega
  intro ps
  cases ps with
  | nil => simp [join?, hhigh, hlow]
  | cons p rest => cases p <;> simp [join?, hhigh, hlow]

theorem hexUnit?_hexPair {n : Nat} (hn : n < 0x20) :
    hexUnit? '0' '0' (Nat.digitChar (n / 16)) (Nat.digitChar (n % 16)) = some n := by
  interval_cases n <;> decide

/-- The escape of a character is one piece, and it stands for the character. -/
theorem exists_piece_escape (c : Char) :
    ∃ p : Piece, p.Stands c ∧
      ∀ {cs : List Char} {ps : List Piece}, Body cs ps → Body (escape c ++ cs) (p :: ps) := by
  rcases escape_cases c with ⟨e, he, hescape⟩ | ⟨hcontrol, hescape⟩ | ⟨hc, hmark, hslash, hescape⟩
  · refine ⟨.char c, Piece.stands_char c, ?_⟩
    intro cs ps h
    rw [hescape]
    exact .short he h
  · refine ⟨.unit c.toNat, ?_, ?_⟩
    · have hstands := Piece.stands_unit (n := c.toNat) (by omega)
      rwa [Char.ofNat_toNat] at hstands
    · intro cs ps h
      have hbyte : (UInt8.ofNat c.toNat).toNat = c.toNat := by
        rw [UInt8.toNat_ofNat']
        omega
      rw [hescape, Text.hexPair, hbyte]
      exact .unit (hexUnit?_hexPair hcontrol) h
  · refine ⟨.char c, Piece.stands_char c, ?_⟩
    intro cs ps h
    rw [hescape]
    exact .plain hc hmark hslash h

/-- What we write between the marks of a text is a body of that text. -/
theorem body_encode (cs : List Char) :
    ∃ ps, Body (cs.flatMap escape) ps ∧ join? ps = some cs := by
  induction cs with
  | nil => exact ⟨[], .nil, rfl⟩
  | cons c rest ih =>
      -- Joining goes piece by piece because no piece of an escape is half of a surrogate pair.
      obtain ⟨ps, hbody, hjoin⟩ := ih
      obtain ⟨p, hp, hescape⟩ := exists_piece_escape c
      refine ⟨p :: ps, hescape hbody, ?_⟩
      rw [hp, hjoin]
      rfl

/-- **Our spelling** of a literal is one. -/
theorem spells_spell (l : Literal) : l.Spells l.spell := by
  cases l with
  | text t =>
      obtain ⟨ps, hbody, hjoin⟩ := body_encode t.toList
      refine ⟨encode t, ps, hbody, ?_, rfl⟩
      rw [ofPieces, hjoin, Option.elim, String.ofList_toList]
  | unpaired =>
      exact ⟨['\\', 'u', 'd', '8', '0', '0'], [.unit 0xd800], .unit (by decide) .nil, rfl, rfl⟩

end Literal

/-! ## Numbers -/

namespace Number

/-- One digit or more. -/
structure Digits (cs : List Char) : Prop where
  nonempty : cs ≠ []
  isDigit : ∀ c ∈ cs, c.isDigit = true

/-- The digits of an integer part; zero comes first only if it is alone. -/
structure SpellsWhole (n : Nat) (cs : List Char) : Prop where
  digits : Digits cs
  alone : cs.head? = some '0' → cs.length = 1
  value : Nat.ofDigitChars 10 cs 0 = n

/-- The ways to write a fraction: nothing, or a point and digits. -/
inductive SpellsFraction : List (Fin 10) → List Char → Prop where
  | none : SpellsFraction [] []
  | point {cs : List Char} (h : Digits cs) : SpellsFraction (cs.map digitOf) ('.' :: cs)

/-- The ways to write an exponent, which may have a sign and leading zeros. -/
inductive SpellsPower : Int → List Char → Prop where
  | unsigned {cs : List Char} (h : Digits cs) : SpellsPower (Nat.ofDigitChars 10 cs 0) cs
  | plus {cs : List Char} (h : Digits cs) : SpellsPower (Nat.ofDigitChars 10 cs 0) ('+' :: cs)
  | minus {cs : List Char} (h : Digits cs) : SpellsPower (-Nat.ofDigitChars 10 cs 0) ('-' :: cs)

/-- The ways to write a power of ten, if there is one. -/
inductive SpellsExponent : Option Int → List Char → Prop where
  | none : SpellsExponent none []
  | power {c : Char} {cs : List Char} {e : Int} (hc : c = 'e' ∨ c = 'E') (h : SpellsPower e cs) :
      SpellsExponent (some e) (c :: cs)

/-- **The ways to write a number**, part by part. -/
inductive Spells (n : Number) : List Char → Prop where
  | parts {whole fraction exponent : List Char} (hwhole : SpellsWhole n.whole whole)
      (hfraction : SpellsFraction n.fraction fraction)
      (hexponent : SpellsExponent n.exponent exponent) :
      Spells n ((if n.negative then ['-'] else []) ++ (whole ++ (fraction ++ exponent)))

/-! ### Reading -/

theorem ne_of_isDigit {c d : Char} (hc : c.isDigit = true) (hd : d.isDigit = false) : c ≠ d := by
  rintro rfl
  exact absurd hc (by simp [hd])

theorem Digits.exists_cons {cs : List Char} (h : Digits cs) :
    ∃ c rest, cs = c :: rest ∧ c.isDigit = true := by
  obtain ⟨c, rest, rfl⟩ := List.exists_cons_of_ne_nil h.nonempty
  exact ⟨c, rest, rfl, h.isDigit c List.mem_cons_self⟩

/-- A text that does not begin with a digit. -/
def NoDigit (cs : List Char) : Prop :=
  ∀ c ∈ cs.head?, c.isDigit = false

theorem noDigit_nil : NoDigit [] :=
  fun _ h => absurd h nofun

/-- Digits are read up to the first character that is none. -/
theorem digits?_append {cs rest : List Char} (h : Digits cs) (hrest : NoDigit rest) :
    digits? (cs ++ rest) = some (cs, rest) := by
  have htake : rest.takeWhile Char.isDigit = [] ∧ rest.dropWhile Char.isDigit = rest := by
    cases rest with
    | nil => exact ⟨rfl, rfl⟩
    | cons c cs =>
        have hc : c.isDigit = false := hrest c rfl
        simp [hc]
  unfold digits?
  rw [List.takeWhile_append_of_pos h.isDigit, List.dropWhile_append_of_pos h.isDigit, htake.1,
    htake.2, List.append_nil, if_neg (by simpa using h.nonempty)]

theorem digits?_of_digits {cs : List Char} (h : Digits cs) : digits? cs = some (cs, []) := by
  simpa using digits?_append h noDigit_nil

theorem whole?_append {n : Nat} {cs rest : List Char} (h : SpellsWhole n cs)
    (hrest : NoDigit rest) : whole? (cs ++ rest) = some (n, rest) := by
  have hzero : ¬ (cs.length > 1 && cs.head? == some '0') := by
    intro hlong
    rw [Bool.and_eq_true, decide_eq_true_eq, beq_iff_eq] at hlong
    have hlength := h.alone hlong.2
    omega
  unfold whole?
  rw [digits?_append h.digits hrest]
  show (if _ then none else some (Nat.ofDigitChars 10 cs 0, rest)) = _
  rw [if_neg hzero, h.value]

theorem SpellsExponent.noDigit {e : Option Int} {cs : List Char} (h : SpellsExponent e cs) :
    NoDigit cs := by
  cases h with
  | none => exact noDigit_nil
  | power hc _ =>
      intro c hmem
      obtain rfl := Option.some.inj hmem
      rcases hc with rfl | rfl <;> decide

theorem SpellsFraction.noDigit_append {f : List (Fin 10)} {cs rest : List Char}
    (h : SpellsFraction f cs) (hrest : NoDigit rest) : NoDigit (cs ++ rest) := by
  cases h with
  | none => exact hrest
  | point _ =>
      intro c hmem
      obtain rfl := Option.some.inj hmem
      decide

theorem fraction?_append {f : List (Fin 10)} {e : Option Int} {cs rest : List Char}
    (h : SpellsFraction f cs) (he : SpellsExponent e rest) :
    fraction? (cs ++ rest) = some (f, rest) := by
  cases h with
  | none =>
      cases he with
      | none => rfl
      | power hc _ => rcases hc with rfl | rfl <;> rfl
  | point hdigits =>
      simp [fraction?, digits?_append hdigits he.noDigit]

theorem power?_of_spells {e : Int} {cs : List Char} (h : SpellsPower e cs) :
    power? cs = some (e, []) := by
  cases h with
  | unsigned hdigits =>
      obtain ⟨c, rest, rfl, hc⟩ := hdigits.exists_cons
      have hminus : c ≠ '-' := ne_of_isDigit hc (by decide)
      have hplus : c ≠ '+' := ne_of_isDigit hc (by decide)
      simp [power?, hminus, hplus, digits?_of_digits hdigits]
  | plus hdigits => simp [power?, digits?_of_digits hdigits]
  | minus hdigits => simp [power?, digits?_of_digits hdigits]

theorem exponent?_of_spells {e : Option Int} {cs : List Char} (h : SpellsExponent e cs) :
    exponent? cs = some (e, []) := by
  cases h with
  | none => rfl
  | power hc hpower => simp [exponent?, hc, power?_of_spells hpower]

/-- **Numbers read back.** -/
theorem scan?_of_spells {n : Number} {cs : List Char} (h : n.Spells cs) :
    scan? cs = some (n, []) := by
  obtain @⟨whole, fraction, exponent, hwhole, hfraction, hexponent⟩ := h
  have hunsigned : ∀ negative, unsigned? negative (whole ++ (fraction ++ exponent)) =
      some ({ n with negative }, []) := by
    intro negative
    have hread := whole?_append hwhole (hfraction.noDigit_append hexponent.noDigit)
    simp [unsigned?, hread, fraction?_append hfraction hexponent, exponent?_of_spells hexponent]
  cases hsign : n.negative with
  | true =>
      have hn : n = { n with negative := true } := by rw [← hsign]
      rw [hn]
      exact hunsigned true
  | false =>
      have hn : n = { n with negative := false } := by rw [← hsign]
      obtain ⟨c, rest, rfl, hc⟩ := hwhole.digits.exists_cons
      have hminus : c ≠ '-' := ne_of_isDigit hc (by decide)
      have hread := hunsigned false
      rw [← hn] at hread
      simpa [scan?, hminus] using hread

/-! ### Letters -/

theorem isLetter_of_isDigit {c : Char} (hc : c.isDigit = true) : Lexer.isLetter c = true := by
  have hrange : 48 ≤ c.toNat ∧ c.toNat ≤ 57 := by
    simpa [Char.isDigit, UInt32.le_iff_toNat_le] using hc
  obtain ⟨hlow, hhigh⟩ := hrange
  rw [← Char.ofNat_toNat c]
  interval_cases c.toNat <;> decide

theorem Digits.isLetter {cs : List Char} (h : Digits cs) : ∀ c ∈ cs, Lexer.isLetter c = true :=
  fun c hc => isLetter_of_isDigit (h.isDigit c hc)

theorem SpellsPower.isLetter {e : Int} {cs : List Char} (h : SpellsPower e cs) :
    ∀ c ∈ cs, Lexer.isLetter c = true := by
  cases h with
  | unsigned hdigits => exact hdigits.isLetter
  | plus hdigits => exact List.forall_mem_cons.mpr ⟨by decide, hdigits.isLetter⟩
  | minus hdigits => exact List.forall_mem_cons.mpr ⟨by decide, hdigits.isLetter⟩

theorem SpellsFraction.isLetter {f : List (Fin 10)} {cs : List Char} (h : SpellsFraction f cs) :
    ∀ c ∈ cs, Lexer.isLetter c = true := by
  cases h with
  | none => exact fun c hc => absurd hc List.not_mem_nil
  | point hdigits => exact List.forall_mem_cons.mpr ⟨by decide, hdigits.isLetter⟩

theorem SpellsExponent.isLetter {e : Option Int} {cs : List Char} (h : SpellsExponent e cs) :
    ∀ c ∈ cs, Lexer.isLetter c = true := by
  cases h with
  | none => exact fun c hc => absurd hc List.not_mem_nil
  | power hc hpower =>
      refine List.forall_mem_cons.mpr ⟨?_, hpower.isLetter⟩
      rcases hc with rfl | rfl <;> decide

/-- A number is written with letters of a word only. -/
theorem Spells.isLetter {n : Number} {cs : List Char} (h : n.Spells cs) :
    ∀ c ∈ cs, Lexer.isLetter c = true := by
  obtain ⟨hwhole, hfraction, hexponent⟩ := h
  have hsign : ∀ c ∈ (if n.negative then ['-'] else []), Lexer.isLetter c = true := by
    cases n.negative with
    | true => exact List.forall_mem_singleton.mpr (by decide)
    | false => exact fun c hc => absurd hc List.not_mem_nil
  rw [List.forall_mem_append, List.forall_mem_append, List.forall_mem_append]
  exact ⟨hsign, hwhole.digits.isLetter, hfraction.isLetter, hexponent.isLetter⟩

/-- A number begins as no keyword does. -/
theorem Spells.exists_cons {n : Number} {cs : List Char} (h : n.Spells cs) :
    ∃ c rest, cs = c :: rest ∧ c ≠ 'n' ∧ c ≠ 't' ∧ c ≠ 'f' := by
  obtain ⟨hwhole, -, -⟩ := h
  obtain ⟨c, rest, rfl, hc⟩ := hwhole.digits.exists_cons
  cases n.negative with
  | true => exact ⟨'-', _, rfl, by decide⟩
  | false =>
      exact ⟨c, _, rfl, ne_of_isDigit hc (by decide), ne_of_isDigit hc (by decide),
        ne_of_isDigit hc (by decide)⟩

/-! ### Writing -/

theorem digits_toDigits (n : Nat) : Digits (Nat.toDigits 10 n) where
  nonempty := Nat.toDigits_ne_nil
  isDigit _ h := Nat.isDigit_of_mem_toDigits (by decide) (by decide) h

/-- The digits of a number that is not zero begin with another digit than zero. -/
theorem head?_toDigits_ne {n : Nat} (hn : 0 < n) : (Nat.toDigits 10 n).head? ≠ some '0' := by
  induction n using Nat.strongRecOn with
  | ind n ih =>
    by_cases hsmall : n < 10
    · rw [Nat.toDigits_of_lt_base hsmall]
      interval_cases n <;> decide
    · rw [Nat.toDigits_of_base_le (by decide) (by omega),
        List.head?_append_of_ne_nil _ Nat.toDigits_ne_nil]
      exact ih (n / 10) (by omega) (by omega)

theorem spellsWhole_toDigits (n : Nat) : SpellsWhole n (Nat.toDigits 10 n) where
  digits := digits_toDigits n
  alone hhead := by
    by_cases hn : n = 0
    · subst hn
      decide
    · exact absurd hhead (head?_toDigits_ne (Nat.pos_of_ne_zero hn))
  value := Nat.ofDigitChars_ten_toDigits

theorem digitOf_digitChar : ∀ d : Fin 10, digitOf (Nat.digitChar d.val) = d := by
  decide

theorem spellsFraction_cons (d : Fin 10) (ds : List (Fin 10)) :
    SpellsFraction (d :: ds) ('.' :: (d :: ds).map fun d => Nat.digitChar d.val) := by
  have hdigits : Digits ((d :: ds).map fun d => Nat.digitChar d.val) := by
    refine ⟨List.cons_ne_nil _ _, fun c hc => ?_⟩
    obtain ⟨e, -, rfl⟩ := List.mem_map.mp hc
    rw [Nat.isDigit_digitChar]
    exact decide_eq_true e.isLt
  have hback : ((d :: ds).map fun d => Nat.digitChar d.val).map digitOf = d :: ds := by
    rw [List.map_map]
    exact (List.map_congr_left fun d _ => digitOf_digitChar d).trans (List.map_id _)
  have hpoint := SpellsFraction.point hdigits
  rwa [hback] at hpoint

/-- An integer is written as the digits of its magnitude after its sign. -/
theorem spellsPower_toString (e : Int) : SpellsPower e (toString e).toList := by
  cases e with
  | ofNat n =>
      have hspell := SpellsPower.unsigned (digits_toDigits n)
      rw [Nat.ofDigitChars_ten_toDigits] at hspell
      have hdigits : (toString (Int.ofNat n)).toList = Nat.toDigits 10 n := Nat.toList_repr
      rwa [hdigits]
  | negSucc n =>
      have hspell := SpellsPower.minus (digits_toDigits (n + 1))
      rw [Nat.ofDigitChars_ten_toDigits] at hspell
      rw [Int.toString_eq_repr, Int.repr, String.toList_append, Nat.toList_repr]
      exact hspell

/-- **Our spelling** of a number is one. -/
theorem spells_spell (n : Number) : n.Spells n.spell := by
  rw [spell, List.append_assoc, List.append_assoc]
  refine .parts (spellsWhole_toDigits n.whole) ?_ ?_
  · cases n.fraction with
    | nil => exact .none
    | cons d ds => exact spellsFraction_cons d ds
  · cases n.exponent with
    | none => exact .none
    | some e => exact .power (.inl rfl) (spellsPower_toString e)

end Number

end Worktree.Json
