import Worktree.Proofs.Readback
import Worktree.Report.Json

/-!
# What is written, and that it reads back

Reports, snapshots and digests are written as JSON without blanks.  This file says which text each
of them is written as, character by character, and that the text holds all of it.

* `Node.render_array` and `Node.render_object` give the text of an array and of an object from the
  texts of its parts;
* `Report.json_eq`, `Snapshot.json_eq` and `Digest.json_eq` are the written forms;
* `Report.ofJson_json` says that a report reads back: the reader sorts the lines it has read, and
  lines that are in order already, equal paths among them, stay as they are.

`written_forms_read_back` collects this for the three of them.
-/

namespace Worktree

/-! ## The text of a value -/

/-- The text of a row of tokens. -/
def Json.Token.write (ts : List Token) : String :=
  String.ofList (ts.flatMap spell)

namespace Json.Token

theorem write_cons (t : Token) (ts : List Token) :
    write (t :: ts) = String.ofList t.spell ++ write ts := by
  simp [write]

theorem write_append (ts us : List Token) : write (ts ++ us) = write ts ++ write us := by
  simp [write]

/-- Rows with commas between them are written as their texts with commas between them. -/
theorem write_intercalate (rows : List (List Token)) :
    write ([comma].intercalate rows) = ",".intercalate (rows.map write) := by
  induction rows with
  | nil => rfl
  | cons row rest ih =>
      cases rest with
      | nil => simp
      | cons next others =>
          have hcomma : write [comma] = "," := rfl
          rw [List.intercalate_cons_cons, write_append, write_append, ih, hcomma]
          exact String.intercalate_cons_cons.symm

end Json.Token

namespace Json.Node

theorem render_eq (n : Node) : n.render = Token.write n.tokens := rfl

theorem render_text (t : String) :
    (text t).render = "\"" ++ String.ofList (Literal.encode t) ++ "\"" := by
  apply String.toList_injective
  simp [render, text, tokens, Token.spell, Literal.spell]

/-- A text that needs no escapes is written as it is. -/
theorem render_text_of_plain {t : String} (h : Literal.encode t = t.toList) :
    (text t).render = "\"" ++ t ++ "\"" := by
  rw [render_text, h, String.ofList_toList]

theorem itemTokens_eq (items : List Node) :
    itemTokens true items = [.comma].intercalate (items.map tokens) := by
  induction items with
  | nil => rfl
  | cons n rest ih =>
      cases rest with
      | nil => simp [itemTokens]
      | cons m others =>
          rw [List.map_cons, List.map_cons, List.intercalate_cons_cons, ← List.map_cons, ← ih]
          simp [itemTokens]

/-- The tokens of a member of an object. -/
def tokensOfMember (m : Literal × Node) : List Token :=
  .literal m.1 :: .colon :: m.2.tokens

theorem memberTokens_eq (members : List (Literal × Node)) :
    memberTokens true members = [.comma].intercalate (members.map tokensOfMember) := by
  induction members with
  | nil => rfl
  | cons m rest ih =>
      cases rest with
      | nil => simp [memberTokens, tokensOfMember]
      | cons l others =>
          rw [List.map_cons, List.map_cons, List.intercalate_cons_cons, ← List.map_cons, ← ih]
          simp [memberTokens, tokensOfMember]

/-- **The text of an array.** -/
theorem render_array (items : List Node) :
    (array items true).render = "[" ++ ",".intercalate (items.map render) ++ "]" := by
  rw [render_eq, tokens, itemTokens_eq, Token.write_cons, Token.write_append,
    Token.write_intercalate, List.map_map, ← String.append_assoc]
  rfl

/-- **The text of an object.** -/
theorem render_object (members : List (Literal × Node)) :
    (object members true).render =
      "\x7b" ++ ",".intercalate (members.map fun m => (literal m.1).render ++ ":" ++ m.2.render) ++
        "\x7d" := by
  have hmember : ∀ m : Literal × Node,
      Token.write (tokensOfMember m) = (literal m.1).render ++ ":" ++ m.2.render := by
    intro m
    have hkey : (literal m.1).render = String.ofList (Token.literal m.1).spell := by
      simp [render_eq, tokens, Token.write]
    rw [tokensOfMember, Token.write_cons, Token.write_cons, hkey, String.append_assoc]
    rfl
  rw [render_eq, tokens, memberTokens_eq, Token.write_cons, Token.write_append,
    Token.write_intercalate, List.map_map, ← String.append_assoc]
  simp only [Function.comp_def, hmember]
  rfl

theorem areComplete_of_forall {items : List Node} (h : ∀ n ∈ items, n.isComplete = true) :
    areComplete items = true := by
  induction items with
  | nil => rfl
  | cons n rest ih =>
      rw [areComplete, h n List.mem_cons_self, ih fun m hm => h m (List.mem_cons_of_mem n hm)]
      rfl

end Json.Node

open Json (Node)

/-! ## Digests -/

namespace Digest

theorem escape_digitChar {k : Nat} (hk : k < 16) :
    Json.Literal.escape (Nat.digitChar k) = [Nat.digitChar k] := by
  interval_cases k <;> decide

/-- A digest is written as its digits between quotation marks. -/
theorem json_eq (d : Digest) : d.json = "\"" ++ d.hex ++ "\"" := by
  have hplain : ∀ c ∈ d.hex.toList, Json.Literal.escape c = [c] := by
    intro c hc
    rw [hex, String.toList_ofList] at hc
    obtain ⟨b, -, hc⟩ := List.mem_flatMap.mp hc
    have hb := b.toNat_lt
    rcases List.mem_cons.mp hc with rfl | hc
    · exact escape_digitChar (by omega)
    · rw [List.mem_singleton.mp hc]
      exact escape_digitChar (by omega)
  apply Node.render_text_of_plain
  exact (List.flatMap_congr hplain).trans (List.flatMap_singleton' d.hex.toList)

theorem ofJson_json (d : Digest) : ofJson d.json = .ok d := by
  rw [ofJson, json, Json.Document.read_render ofNode rfl, ofNode_toNode]

end Digest

/-! ## Snapshots -/

namespace Snapshot

/-- A path with its digest, as it is written. -/
def jsonMember (b : Path × Digest) : String :=
  (Node.text b.1.text).render ++ ":\"" ++ b.2.hex ++ "\""

/-- A snapshot is written as its paths with their digests, in path order. -/
theorem json_eq (s : Snapshot) :
    s.json = "\x7b" ++ ",".intercalate (s.toList.map jsonMember) ++ "\x7d" := by
  have hmember : ∀ b : Path × Digest,
      (Node.text b.1.text).render ++ ":" ++ b.2.json = jsonMember b := by
    intro b
    rw [Digest.json_eq, jsonMember]
    apply String.toList_injective
    simp
  rw [json, toNode, Node.render_object, List.map_map]
  exact congrArg (fun l => "\x7b" ++ ",".intercalate l ++ "\x7d")
    (List.map_congr_left fun b _ => hmember b)

end Snapshot

/-! ## Reports -/

namespace Status

theorem json_eq (s : Status) : s.json = "\"" ++ s.label ++ "\"" := by
  apply Node.render_text_of_plain
  cases s <;> decide

theorem ofNode_toNode (s : Status) : ofNode s.toNode = .ok s := by
  cases s <;> rfl

end Status

namespace Line

/-- A line of a report, as it is written for a program that reads JSON. -/
def json (l : Line) : String :=
  "\x7b\"path\":" ++ (Node.text l.path).render ++ ",\"classification\":\"" ++ l.status.label ++
    "\"\x7d"

theorem render_toNode (l : Line) : l.toNode.render = l.json := by
  have hlabel : l.status.toNode.render = "\"" ++ l.status.label ++ "\"" := l.status.json_eq
  have hpath : (Node.literal (.text "path")).render = "\"path\"" := by decide
  have hstatus : (Node.literal (.text "classification")).render = "\"classification\"" := by decide
  rw [toNode, Node.render_object, json]
  apply String.toList_injective
  simp [hpath, hstatus, hlabel, String.intercalate_cons_cons]

/-- The two members of a line are taken one after the other. -/
theorem foldlM_take_toNode (l : Line) :
    [(Json.Literal.text "path", Node.text l.path),
      (.text "classification", l.status.toNode)].foldlM Fields.take {} =
        .ok { path := some l.path, status := some l.status } := by
  have hpath : Fields.take {} (.text "path", .text l.path) = .ok { path := some l.path } := rfl
  have hstatus : Fields.take { path := some l.path } (.text "classification", l.status.toNode) =
      .ok { path := some l.path, status := some l.status } := by
    cases l.status <;> rfl
  rw [List.foldlM_cons, hpath]
  exact (bind_pure _).trans hstatus

theorem ofNode_toNode (l : Line) : ofNode l.toNode = .ok l := by
  rw [toNode, ofNode, foldlM_take_toNode]
  rfl

end Line

namespace Report

theorem ext_lines {r u : Report} (h : r.lines = u.lines) : r = u := by
  cases r
  cases u
  cases h
  rfl

/-- Lines that are in order stay as they are. -/
@[simp] theorem ofLines_lines (r : Report) : ofLines r.lines = r :=
  ext_lines (List.mergeSort_of_pairwise r.ascending)

/-- A report is written as its lines, in their order. -/
theorem json_eq (r : Report) : r.json = "[" ++ ",".intercalate (r.lines.map Line.json) ++ "]" := by
  rw [json, toNode, Node.render_array, List.map_map]
  exact congrArg (fun l => "[" ++ ",".intercalate l ++ "]")
    (List.map_congr_left fun l _ => l.render_toNode)

theorem isComplete_toNode (r : Report) : r.toNode.isComplete = true := by
  have hitems : ∀ n ∈ r.lines.map Line.toNode, n.isComplete = true := by
    intro n hn
    obtain ⟨l, -, rfl⟩ := List.mem_map.mp hn
    rfl
  rw [toNode, Node.isComplete, Node.areComplete_of_forall hitems]
  rfl

theorem ofNode_toNode (r : Report) : ofNode r.toNode = .ok r := by
  have hlines : (r.lines.map Line.toNode).mapM Line.ofNode = .ok r.lines := by
    rw [List.mapM_map]
    have hread : Line.ofNode ∘ Line.toNode = pure := funext Line.ofNode_toNode
    rw [hread, List.mapM_pure]
    exact congrArg Except.ok (List.map_id' r.lines)
  show (do
    let lines ← (r.lines.map Line.toNode).mapM Line.ofNode
    Json.expectEnd true
    return ofLines lines) = _
  rw [hlines]
  exact congrArg Except.ok r.ofLines_lines

/-- **Reports read back.** -/
theorem ofJson_json (r : Report) : ofJson r.json = .ok r := by
  rw [ofJson, json, Json.Document.read_render ofNode r.isComplete_toNode, ofNode_toNode]

/-- Lines of one path keep their order, and a quotation mark in a path is escaped. -/
example :
    (ofLines [⟨"b", .deleted⟩, ⟨"a\"", .untracked⟩, ⟨"b", .added⟩]).json =
      "[\x7b\"path\":\"a\\\"\",\"classification\":\"untracked\"\x7d,"
        ++ "\x7b\"path\":\"b\",\"classification\":\"deleted\"\x7d,"
        ++ "\x7b\"path\":\"b\",\"classification\":\"added\"\x7d]" := by
  cbv

end Report

/-- **Written forms read back.**  A report, whatever its paths and however often one of them comes,
is written as its lines in order, and the text is read as the same report.  A snapshot is written as
its paths in strictly ascending byte order, each with its digest, and the text is read as the same
snapshot.  A digest is written as its digits, and the text is read as the same digest. -/
theorem written_forms_read_back :
    (∀ r : Report, Report.ofJson r.json = .ok r ∧
      r.json = "[" ++ ",".intercalate (r.lines.map Line.json) ++ "]") ∧
    (∀ s : Snapshot, Snapshot.ofJson s.json = .ok s ∧
      s.json = "\x7b" ++ ",".intercalate (s.toList.map Snapshot.jsonMember) ++ "\x7d" ∧
      s.toList.Pairwise fun a b => Text.compare a.1.text b.1.text = .lt) ∧
    ∀ d : Digest, Digest.ofJson d.json = .ok d ∧ d.json = "\"" ++ d.hex ++ "\"" := by
  refine ⟨?_, ?_, ?_⟩
  · intro r
    exact ⟨r.ofJson_json, r.json_eq⟩
  · intro s
    exact ⟨s.ofJson_json, s.json_eq, s.entries.ascending⟩
  · intro d
    exact ⟨d.ofJson_json, d.json_eq⟩

end Worktree
