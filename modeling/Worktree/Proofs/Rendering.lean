import Mathlib.Data.List.Forall2
import Worktree.Json.Reading
import Worktree.Proofs.Lexing

/-!
# Values read back from their texts

A value in which nothing is missing has a row of tokens, and every text that spells these tokens,
with blanks anywhere between them, gives the value back with nothing left over.  Both follow the
value: what its parts are written as is part of its row, and the builder that reads a value inside
any frames stands after that value in the same frames.

* `Node.HasText` — a text that spells a value; `Node.hasText_render` — what we render is one;
* `Document.ofText_of_hasText` — such a text holds the value and nothing else.
-/

namespace Worktree.Json

namespace Node

/-! ## Parts -/

theorem isComplete_array {items : List Node} {closed : Bool}
    (h : (array items closed).isComplete = true) : closed = true ∧ areComplete items = true := by
  simpa [isComplete] using h

theorem isComplete_object {members : List (Literal × Node)} {closed : Bool}
    (h : (object members closed).isComplete = true) :
    closed = true ∧ areMembersComplete members = true := by
  simpa [isComplete] using h

theorem areComplete_cons {n : Node} {rest : List Node} (h : areComplete (n :: rest) = true) :
    n.isComplete = true ∧ areComplete rest = true := by
  simpa [areComplete] using h

theorem areMembersComplete_cons {key : Literal} {n : Node} {rest : List (Literal × Node)}
    (h : areMembersComplete ((key, n) :: rest) = true) :
    n.isComplete = true ∧ areMembersComplete rest = true := by
  simpa [areMembersComplete] using h

/-! ## The row of a value -/

mutual

/-- **Values are rendered as rows.** -/
theorem row_tokens : ∀ n : Node, n.isComplete = true → Token.Row n.tokens
  | null, _ => .singleton (by decide)
  | bool b, _ => .singleton (by simp)
  | number n, _ => .singleton (by simp)
  | literal l, _ => .singleton (by simp)
  | array items closed, h => by
      obtain ⟨rfl, hitems⟩ := isComplete_array h
      have hclose := (row_itemTokens items hitems).append_cons .nil (t := .closeArray) rfl nofun
      exact hclose.cons rfl nofun
  | object members closed, h => by
      obtain ⟨rfl, hmembers⟩ := isComplete_object h
      have hclose :=
        (row_memberTokens members hmembers).append_cons .nil (t := .closeObject) rfl nofun
      exact hclose.cons rfl nofun
  | broken, h => absurd h (by simp [isComplete])

theorem row_itemTokens : ∀ items : List Node, areComplete items = true →
    Token.Row (itemTokens true items)
  | [], _ => .nil
  | n :: rest, h => by
      obtain ⟨hn, hrest⟩ := areComplete_cons h
      have hhere := row_tokens n hn
      have hlater := row_itemTokens rest hrest
      cases rest with
      | nil => simpa [itemTokens] using hhere
      | cons m others =>
          have hrow := hhere.append_cons hlater (t := .comma) rfl nofun
          simpa [itemTokens] using hrow

theorem row_memberTokens : ∀ members : List (Literal × Node), areMembersComplete members = true →
    Token.Row (memberTokens true members)
  | [], _ => .nil
  | (key, n) :: rest, h => by
      obtain ⟨hn, hrest⟩ := areMembersComplete_cons h
      have hvalue := (row_tokens n hn).cons (t := .colon) rfl nofun
      have hhere := hvalue.cons (t := .literal key) rfl nofun
      have hlater := row_memberTokens rest hrest
      cases rest with
      | nil => simpa [memberTokens] using hhere
      | cons m others =>
          have hrow := hhere.append_cons hlater (t := .comma) rfl nofun
          simpa [memberTokens] using hrow

end

/-! ## Reading the row -/

open Builder (push)

/-- The first item of an array is read as an item of an array without items. -/
theorem foldl_push_arrayStart {n : Node} (h : n.isComplete = true) (frames : List Frame) :
    n.tokens.foldl push (.arrayStart frames) =
      n.tokens.foldl push (.value (.item [] :: frames)) := by
  cases n with
  | broken => exact absurd h (by simp [isComplete])
  | _ => rfl

mutual

/-- **Values are read in any frames.** -/
theorem foldl_push_tokens : ∀ n : Node, n.isComplete = true → ∀ frames : List Frame,
    n.tokens.foldl push (.value frames) = .after frames n
  | null, _, _ => rfl
  | .bool _, _, _ => rfl
  | number _, _, _ => rfl
  | literal _, _, _ => rfl
  | array [] closed, h, frames => by
      obtain ⟨rfl, -⟩ := isComplete_array h
      rfl
  | array (n :: rest) closed, h, frames => by
      obtain ⟨rfl, hitems⟩ := isComplete_array h
      obtain ⟨hn, hrest⟩ := areComplete_cons hitems
      -- The first item has no comma before it, so it is read while the array is only open.
      have hfirst := foldl_push_tokens n hn (.item [] :: frames)
      have hlater := foldl_push_itemTokens rest hrest frames [] n
      rw [← foldl_push_arrayStart hn frames] at hfirst
      show (([] ++ n.tokens ++ itemTokens false rest) ++ [Token.closeArray]).foldl push
        (.arrayStart frames) = _
      rw [List.nil_append, List.append_assoc, List.foldl_append, hfirst]
      exact hlater
  | object [] closed, h, frames => by
      obtain ⟨rfl, -⟩ := isComplete_object h
      rfl
  | object ((key, n) :: rest) closed, h, frames => by
      obtain ⟨rfl, hmembers⟩ := isComplete_object h
      obtain ⟨hn, hrest⟩ := areMembersComplete_cons hmembers
      have hfirst := foldl_push_tokens n hn (.member [] key :: frames)
      have hlater := foldl_push_memberTokens rest hrest frames [] key n
      show ((n.tokens ++ memberTokens false rest) ++ [Token.closeObject]).foldl push
        (.value (.member [] key :: frames)) = _
      rw [List.append_assoc, List.foldl_append, hfirst]
      exact hlater
  | broken, h, _ => absurd h (by simp [isComplete])

theorem foldl_push_itemTokens : ∀ items : List Node, areComplete items = true →
    ∀ (frames : List Frame) (before : List Node) (n : Node),
      (itemTokens false items ++ [Token.closeArray]).foldl push
          (.after (.item before :: frames) n) =
        .after frames (.array (before.reverse ++ n :: items) true)
  | [], _, frames, before, n => by
      simp [itemTokens, push, Builder.next]
  | m :: rest, h, frames, before, n => by
      obtain ⟨hm, hrest⟩ := areComplete_cons h
      have hhere := foldl_push_tokens m hm (.item (n :: before) :: frames)
      have hlater := foldl_push_itemTokens rest hrest frames (n :: before) m
      rw [List.reverse_cons, List.append_assoc, List.singleton_append] at hlater
      show ((m.tokens ++ itemTokens false rest) ++ [Token.closeArray]).foldl push
        (.value (.item (n :: before) :: frames)) = _
      rw [List.append_assoc, List.foldl_append, hhere]
      exact hlater

theorem foldl_push_memberTokens : ∀ members : List (Literal × Node),
    areMembersComplete members = true →
    ∀ (frames : List Frame) (before : List (Literal × Node)) (key : Literal) (n : Node),
      (memberTokens false members ++ [Token.closeObject]).foldl push
          (.after (.member before key :: frames) n) =
        .after frames (.object (before.reverse ++ (key, n) :: members) true)
  | [], _, frames, before, key, n => by
      simp [memberTokens, push, Builder.next]
  | (k, m) :: rest, h, frames, before, key, n => by
      obtain ⟨hm, hrest⟩ := areMembersComplete_cons h
      have hhere := foldl_push_tokens m hm (.member ((key, n) :: before) k :: frames)
      have hlater := foldl_push_memberTokens rest hrest frames ((key, n) :: before) k m
      rw [List.reverse_cons, List.append_assoc, List.singleton_append] at hlater
      show ((m.tokens ++ memberTokens false rest) ++ [Token.closeObject]).foldl push
        (.value (.member ((key, n) :: before) k :: frames)) = _
      rw [List.append_assoc, List.foldl_append, hhere]
      exact hlater

end

end Node

/-! ## Whole texts -/

/-- The text spells the value, each token in any way and with blanks anywhere between them. -/
structure Node.HasText (n : Node) (t : String) : Prop where
  complete : n.isComplete = true
  spread : Token.Spread n.tokens t.toList

/-- A value is rendered as one of its texts. -/
theorem Node.hasText_render {n : Node} (h : n.isComplete = true) : n.HasText n.render where
  complete := h
  spread := by
    rw [render, String.toList_ofList]
    exact (row_tokens n h).spread

/-- Blanks may be put before a text. -/
theorem Node.HasText.blank {n : Node} {t : String} (h : n.HasText t) {c : Char}
    (hc : isBlank c = true) : n.HasText (String.singleton c ++ t) where
  complete := h.complete
  spread := by
    rw [String.toList_append, String.toList_singleton]
    exact .blank hc h.spread

/-- **Values read back** from every text of theirs. -/
theorem Document.ofText_of_hasText {n : Node} {t : String} (h : n.HasText t) :
    Document.ofText t = ⟨n, false⟩ := by
  unfold ofText
  rw [Token.ofText_of_spread (Node.row_tokens n h.complete) h.spread, ofTokens,
    Node.foldl_push_tokens n h.complete]
  rfl

/-- What a reader makes of a text is what it makes of the value that the text spells. -/
theorem Document.read_of_hasText {α : Type} (reader : Node → Except ReadError α) {n : Node}
    {t : String} (h : n.HasText t) : Document.read reader t = reader n := by
  unfold Document.read
  rw [Document.ofText_of_hasText h]
  cases hr : reader n <;> simp only [hr] <;> rfl

/-- What a reader makes of a rendered value is what it makes of the value. -/
theorem Document.read_render {α : Type} (reader : Node → Except ReadError α) {n : Node}
    (h : n.isComplete = true) : Document.read reader n.render = reader n :=
  read_of_hasText reader (Node.hasText_render h)

/-! ## Reading several parts -/

section

variable {α β : Type} {f : α → Except ReadError β} {l : List α} {r : List β}

/-- Parts that can all be read are read one by one. -/
theorem mapM_eq_ok (h : List.Forall₂ (fun a b => f a = .ok b) l r) : l.mapM f = .ok r := by
  induction h with
  | nil => rfl
  | cons ha _ ih =>
      rw [List.mapM_cons, ha, ih]
      rfl

/-- **The first part that cannot be read** decides the error, whatever follows it. -/
theorem mapM_eq_error (h : List.Forall₂ (fun a b => f a = .ok b) l r) {a : α} {e : ReadError}
    (ha : f a = .error e) (after : List α) : (l ++ a :: after).mapM f = .error e := by
  induction h with
  | nil =>
      rw [List.nil_append, List.mapM_cons, ha]
      rfl
  | cons hb _ ih =>
      rw [List.cons_append, List.mapM_cons, hb, ih]
      rfl

end

end Worktree.Json
