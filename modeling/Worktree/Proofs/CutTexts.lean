import Worktree.Proofs.CutValues
import Worktree.Proofs.Written

/-!
# Snapshots and reports that are cut short

Snapshots and reports are kept as JSON texts, and a text may lose its end.  What is left is never
taken for another value: the reader finds no JSON in it.  All that it meets before the cut is as it
should be, so it does not object to anything else first.

* `Snapshot.ofNode_of_cutShort`, `Line.ofNode_of_cutShort` and `Report.ofNode_of_cutShort` say that
  what is left of a value is refused.

`cut_texts_are_refused` puts this together.
-/

namespace Worktree

open Json (Node)

/-! ## Readers -/

namespace Digest

theorem ofNode_of_cutShort {d : Digest} {m : Node} (h : d.toNode.CutShort m) :
    ofNode m = .error .malformed := by
  rw [Node.eq_broken_of_cutShort_literal h]
  rfl

end Digest

namespace Snapshot

/-- **What is left of a snapshot** is refused.  Its keys and digests before the cut are read. -/
theorem ofNode_of_cutShort {s : Snapshot} {m : Node} (h : s.toNode.CutShort m) :
    ofNode m = .error .malformed := by
  have hmembers : ∀ x ∈ s.toList.map fun b => (Json.Literal.text b.1.text, b.2.toNode),
      ∃ e, readMember x = .ok e := by
    intro x hx
    obtain ⟨b, -, rfl⟩ := List.mem_map.mp hx
    exact ⟨_, readMember_toNode b⟩
  rcases Node.cutShort_object_cases h with
    rfl | ⟨before, after, hsplit, rfl⟩ | ⟨before, after, key, n, rest, hsplit, hrest, rfl⟩
  · rfl
  · rw [hsplit] at hmembers
    obtain ⟨entries, hread⟩ := Json.exists_mapM_eq_ok fun x hx =>
      hmembers x (List.mem_append_left after hx)
    rw [ofNode, hread]
    rfl
  · have hcut : readMember (key, rest) = .error .malformed := by
      have hmem : (key, n) ∈ s.toList.map fun b => (Json.Literal.text b.1.text, b.2.toNode) := by
        rw [hsplit]
        exact List.mem_append_right before List.mem_cons_self
      obtain ⟨b, -, hb⟩ := List.mem_map.mp hmem
      obtain ⟨rfl, rfl⟩ := Prod.mk.inj hb
      show (Digest.ofNode rest >>= _) = _
      rw [Digest.ofNode_of_cutShort hrest]
      rfl
    rw [hsplit] at hmembers
    have hbefore : ∀ x ∈ before, ∃ e, readMember x = .ok e :=
      fun x hx => hmembers x (List.mem_append_left _ hx)
    rw [ofNode, Json.mapM_append_eq_error hbefore hcut]
    rfl

theorem isWord_of_mem_tokens (s : Snapshot) : ∀ t ∈ s.toNode.tokens, t.isWord = false := by
  apply Node.isWord_of_mem_tokens_object
  intro m hm
  obtain ⟨b, -, rfl⟩ := List.mem_map.mp hm
  exact Node.isWord_of_mem_tokens_text b.2.hex

end Snapshot

namespace Line

/-- **What is left of a line** is refused.  The field that is cut, if one is, has no value that
makes sense, and a text or a name is looked for there. -/
theorem ofNode_of_cutShort {l : Line} {m : Node} (h : l.toNode.CutShort m) :
    ofNode m = .error .malformed := by
  rcases Node.cutShort_object_cases h with
    rfl | ⟨before, after, hsplit, rfl⟩ | ⟨before, after, key, n, rest, hsplit, hrest, rfl⟩
  · rfl
  · have hfields := l.foldlM_take_toNode
    rw [hsplit] at hfields
    obtain ⟨met, hmet⟩ := Json.exists_foldlM_eq_ok hfields
    rw [ofNode, hmet]
    rfl
  · -- The path is cut, or the status after it; there is no third member.
    rcases before with _ | ⟨first, _ | ⟨second, others⟩⟩
    · obtain ⟨hmember, -⟩ := List.cons.inj hsplit
      obtain ⟨rfl, rfl⟩ := Prod.mk.inj hmember
      rw [Node.eq_broken_of_cutShort_literal hrest]
      rfl
    · obtain ⟨rfl, hlater⟩ := List.cons.inj hsplit
      obtain ⟨hmember, -⟩ := List.cons.inj hlater
      obtain ⟨rfl, rfl⟩ := Prod.mk.inj hmember
      rw [Node.eq_broken_of_cutShort_literal hrest]
      rfl
    · exact absurd hsplit (by simp)

theorem isWord_of_mem_tokens (l : Line) : ∀ t ∈ l.toNode.tokens, t.isWord = false := by
  apply Node.isWord_of_mem_tokens_object
  intro m hm
  rcases List.mem_cons.mp hm with rfl | hm
  · exact Node.isWord_of_mem_tokens_text l.path
  · rw [List.mem_singleton.mp hm]
    exact Node.isWord_of_mem_tokens_text l.status.label

end Line

namespace Report

/-- **What is left of a report** is refused.  Its lines before the cut are read. -/
theorem ofNode_of_cutShort {r : Report} {m : Node} (h : r.toNode.CutShort m) :
    ofNode m = .error .malformed := by
  have hitems : ∀ x ∈ r.lines.map Line.toNode, ∃ l, Line.ofNode x = .ok l := by
    intro x hx
    obtain ⟨l, -, rfl⟩ := List.mem_map.mp hx
    exact ⟨l, l.ofNode_toNode⟩
  rcases Node.cutShort_array_cases h with
    rfl | ⟨before, after, hsplit, rfl⟩ | ⟨before, after, n, rest, hsplit, hrest, rfl⟩
  · rfl
  · rw [hsplit] at hitems
    obtain ⟨lines, hread⟩ := Json.exists_mapM_eq_ok fun x hx =>
      hitems x (List.mem_append_left after hx)
    rw [ofNode, hread]
    rfl
  · have hcut : Line.ofNode rest = .error .malformed := by
      have hmem : n ∈ r.lines.map Line.toNode := by
        rw [hsplit]
        exact List.mem_append_right before List.mem_cons_self
      obtain ⟨l, -, rfl⟩ := List.mem_map.mp hmem
      exact Line.ofNode_of_cutShort hrest
    rw [hsplit] at hitems
    have hbefore : ∀ x ∈ before, ∃ l, Line.ofNode x = .ok l :=
      fun x hx => hitems x (List.mem_append_left _ hx)
    rw [ofNode, Json.mapM_append_eq_error hbefore hcut]
    rfl

theorem isWord_of_mem_tokens (r : Report) : ∀ t ∈ r.toNode.tokens, t.isWord = false := by
  apply Node.isWord_of_mem_tokens_array
  intro n hn
  obtain ⟨l, -, rfl⟩ := List.mem_map.mp hn
  exact l.isWord_of_mem_tokens

end Report

/-- **Cut texts are refused.**  A snapshot is kept as a text, and a text that breaks off before the
end of it, even at once, in a key, in an escape or in a digest, is no JSON to the reader: it finds
no snapshot in it, and it never comes to object to a digest.  The same goes for reports. -/
theorem cut_texts_are_refused :
    (∀ (s : Snapshot) (t rest : String), s.json = t ++ rest → rest ≠ "" →
      Snapshot.ofJson t = .error .malformed) ∧
    ∀ (r : Report) (t rest : String), r.json = t ++ rest → rest ≠ "" →
      Report.ofJson t = .error .malformed := by
  constructor
  · intro s t rest h hrest
    exact Json.Document.read_of_cut s.isComplete_toNode s.isWord_of_mem_tokens
      (fun _ => Snapshot.ofNode_of_cutShort) h hrest
  · intro r t rest h hrest
    exact Json.Document.read_of_cut r.isComplete_toNode r.isWord_of_mem_tokens
      (fun _ => Report.ofNode_of_cutShort) h hrest

/-- A snapshot cut in its key, after an escaped quotation mark and a brace, and a report cut in an
escape and in the name of a status. -/
theorem cut_texts_are_refused_inside_names :
    let d : Digest := ⟨List.replicate 32 0xab, rfl⟩
    let s := Snapshot.ofList [(.ofString "a\"\x7d\n", d)]
    let r : Report := ⟨[⟨"\\b", .added⟩], by decide⟩
    (s.json = "\x7b\"a\\\"\x7d" ++ ("\\n\":\"" ++ d.hex ++ "\"\x7d") ∧
      Snapshot.ofJson "\x7b\"a\\\"\x7d" = .error .malformed) ∧
    (r.json = "[\x7b\"path\":\"\\" ++ "\\b\",\"classification\":\"added\"\x7d]" ∧
      Report.ofJson "[\x7b\"path\":\"\\" = .error .malformed) ∧
    Report.ofJson "[\x7b\"path\":\"\\\\b\",\"classification\":\"add" = .error .malformed := by
  intro d s r
  have hsnapshot : s.json = "\x7b\"a\\\"\x7d" ++ ("\\n\":\"" ++ d.hex ++ "\"\x7d") := by
    decide +kernel
  have hreport : r.json = "[\x7b\"path\":\"\\" ++ "\\b\",\"classification\":\"added\"\x7d]" := by
    decide +kernel
  have hreport' : r.json = "[\x7b\"path\":\"\\\\b\",\"classification\":\"add" ++ "ed\"\x7d]" := by
    decide +kernel
  obtain ⟨hsnapshots, hreports⟩ := cut_texts_are_refused
  exact ⟨⟨hsnapshot, hsnapshots s _ _ hsnapshot (by decide)⟩,
    ⟨hreport, hreports r _ _ hreport (by decide)⟩, hreports r _ _ hreport' (by decide)⟩

end Worktree
