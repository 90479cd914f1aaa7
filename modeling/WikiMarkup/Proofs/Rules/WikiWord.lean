import WikiMarkup.Proofs.Node.Text
import WikiMarkup.Proofs.Regex.Anchored
import WikiMarkup.Proofs.Regex.Greedy
import WikiMarkup.Proofs.Rules.Word

/-!
# Links by a pattern

The links in a stretch are the matches of one pattern, and the texts are what stands between them.
A link reads one capitalized word after another and does not go back into a word. The pattern may
go back, but there is nothing to be gained by it: a word that is cut short leaves a small letter,
with which no further word starts.
-/

namespace WikiMarkup

open Peg

/-! ## The pattern -/

namespace Regex

/-- A capital letter and small letters behind it. -/
def capitalized : Regex := sequence [.chars Rule.upper, .plus (.chars Rule.lower)]

/-- Capitalized words run together. -/
def wikiWord : Regex := sequence [capitalized, .plus capitalized]

theorem readClass_upper (cs : List Char) :
    readClass ('A' :: '-' :: 'Z' :: ']' :: cs) = .ok (Rule.upper, cs) := by
  have h : readClass ['A', '-', 'Z', ']'] = .ok (Rule.upper, []) := by with_unfolding_all rfl
  exact readClass_append h cs

theorem readClass_lower (cs : List Char) :
    readClass ('a' :: '-' :: 'z' :: ']' :: cs) = .ok (Rule.lower, cs) := by
  have h : readClass ['a', '-', 'z', ']'] = .ok (Rule.lower, []) := by with_unfolding_all rfl
  exact readClass_append h cs

theorem ofSource_wikiWord : ofSource "([A-Z][a-z]+)([A-Z][a-z]+)+" = .ok wikiWord := by
  have htokens : tokens "([A-Z][a-z]+)([A-Z][a-z]+)+".toList =
      .ok [.opening, .one Rule.upper, .one Rule.lower, .plus, .closing,
        .opening, .one Rule.upper, .one Rule.lower, .plus, .closing, .plus] := by
    simp [tokens, tokens_class (readClass_upper _), tokens_class (readClass_lower _)]
    rfl
  rw [ofSource, htokens]
  rfl

end Regex

namespace Rule

open Regex

variable {run tail : List Char}

theorem prefers_capWord : capitalized.Prefers capWord.read := by
  have hcap : (chars upper).Prefers initialCap.read := read_initialCap ▸ prefers_chars upper read
  have hlow : (chars lower).Prefers lowercase.read := read_lowercase ▸ prefers_chars lower read
  have hprogress : lowercase.read.Progresses :=
    read_lowercase ▸ (takesOne_pattern lower read).progresses
  have hlows : (plus (.chars lower)).Prefers
      ((Expr.oneOrMore (.rule lowercase) : MarkupExpr).read read) :=
    hlow.plus (exact_read lowercase) hprogress
  rw [read_capWord]
  have htail := hlows.sequence_cons (exact_expr _) prefers_sequence_nil commits_empty
  exact Prefers.sequence_cons hcap (exact_expr (.rule initialCap)) htail commits_chars

/-- Behind a word that is cut short stands one of its small letters. -/
theorem head?_drop_of_mem_lengths {cs : List Char} {r : Reading Node} {atStart : Bool} {k : Nat}
    (h : capWord.read cs = some r) (hk : k ∈ capitalized.lengths atStart cs)
    (hne : k ≠ r.front.length) : (cs.drop k).head?.any lower.contains = true := by
  obtain ⟨c, rest, rfl, -, -, hfront, -⟩ := of_read_capWord h
  have hseq : capitalized = .seq (.chars upper) (.seq (.plus (.chars lower)) .empty) := rfl
  rw [hseq, lengths, List.mem_eraseDups, List.mem_flatMap] at hk
  obtain ⟨j, hj, hk⟩ := hk
  obtain ⟨rfl, -⟩ := mem_lengths_chars.mp hj
  obtain ⟨n, hn, rfl⟩ := List.mem_map.mp hk
  have hle : n ≤ (rest.takeWhile lower.contains).length := by
    rw [lengths, List.mem_eraseDups, List.mem_flatMap] at hn
    obtain ⟨n', hn', heq⟩ := hn
    obtain rfl : n = n' := by simpa [lengths] using heq
    exact le_of_mem_lengths_plus_chars hn'
  have hlt : n < (rest.takeWhile lower.contains).length := by
    rw [hfront, List.length_cons] at hne
    omega
  rw [Nat.add_comm, List.drop_succ_cons]
  exact head?_drop_of_lt hlt

/-- A word is not cut short for another one to follow it. -/
theorem commits_capitalized : Commits capitalized (sequence [.plus capitalized]) := by
  intro atStart cs k hk hnext j hj
  by_cases hjk : j = k
  · rw [hjk]
    exact hnext
  · obtain ⟨r, hr, hlen⟩ := Option.map_eq_some_iff.mp ((prefers_capWord atStart cs).symm.trans hk)
    have hlower := head?_drop_of_mem_lengths hr hj (hlen ▸ hjk)
    have hupper : (cs.drop j).head?.any upper.contains = false := by
      cases hhead : (cs.drop j).head? with
      | none => rfl
      | some c =>
        rw [hhead] at hlower
        exact not_upper_of_lower hlower
    have hnil := prefers_capWord.lengths_eq_nil (read_capWord_eq_none hupper)
    simp [Regex.sequence, lengths, hnil]

/-- Links take what the pattern prefers. -/
theorem prefers_link : wikiWord.Prefers link.read := by
  have hwords : (plus capitalized).Prefers
      ((Expr.oneOrMore (.rule capWord) : MarkupExpr).read read) :=
    prefers_capWord.plus (exact_read capWord) progresses_capWord
  have htail := hwords.sequence_cons (exact_expr _) prefers_sequence_nil commits_empty
  rw [read_link]
  exact (Prefers.sequence_cons prefers_capWord (exact_expr (.rule capWord)) htail
    commits_capitalized).onMatch intoLink

/-! ## Links and texts -/

/-- The node of a segment: a match is a link, and a gap is a text. -/
def segmentNode : Segment → Node
  | .gap cs => .text (String.ofList cs)
  | .found cs => .link (String.ofList cs)

theorem allShown_map_segmentNode (segments : List Segment) :
    Node.allShown (segments.map segmentNode) = segments.flatMap Segment.chars := by
  induction segments with
  | nil => rfl
  | cons segment segments ih =>
    rw [List.map_cons, Node.allShown, ih, List.flatMap_cons]
    cases segment <;> simp [segmentNode, Node.shown, Segment.chars]

/-- A stretch that starts with a text is cut where the text ends: there is no link before, and the
text would go on if there were none there either. -/
theorem IsRun.cut_eq_gap (h : IsRun run tail) (hne : (splitWhile textGoes run).1 ≠ []) :
    wikiWord.cut run =
      .gap (splitWhile textGoes run).1 :: wikiWord.cut (splitWhile textGoes run).2 := by
  have hcut := Peg.splitWhile_append textGoes run
  conv => lhs; rw [← hcut]
  refine prefers_link.cut_append (exact_read link) progresses_link hne ?_ ?_
  · intro before after hfront hafter
    exact (textGoes_iff.mp (go_of_splitWhile hfront hafter)).2.2
  · rw [← hcut] at h
    by_cases hnil : (splitWhile textGoes run).2 = []
    · exact .inl hnil
    · refine .inr (Option.isSome_iff_ne_none.mpr ?_)
      rw [Ne, ← h.of_append.textGoes_iff_read_link hnil, not_go_splitWhile hnil]
      exact Bool.false_ne_true

/-- The leaves of a stretch are its segments. -/
theorem IsRun.leaves_eq_cut (h : IsRun run tail) :
    leaves run = (wikiWord.cut run).map segmentNode := by
  refine h.leaves_induction (motive := fun run nodes => nodes = (wikiWord.cut run).map segmentNode)
    (by rw [cut]; rfl) fun run r hrun hr hfront ih => ?_
  rw [read_leaf] at hr
  rcases Option.or_eq_some_iff.mp hr with hlink | ⟨hlink, htext⟩
  · rw [prefers_link.cut_of_some (exact_read link) progresses_link hlink, ih,
      node_of_read_link hlink]
    rfl
  · rw [read_text, Option.ite_none_left_eq_some] at htext
    obtain ⟨hne, heq⟩ := htext
    cases heq
    rw [hrun.cut_eq_gap hne, ih]
    rfl

/-- Links and texts, applied again and again, consume a stretch, and their nodes are those of its
segments. -/
theorem IsRun.grammar_run_leaf (h : IsRun run tail) (hne : run ≠ []) {c : Cursor}
    (hc : c.rest = run ++ tail) : ∃ parts,
      (∀ e ∈ [Expr.zeroOrMore leaf, .oneOrMore leaf], grammar.run e c =
        .ok (.succeed ⟨String.ofList run, Text.byteSize run, none, parts⟩)) ∧
      parts.map Match.node = (wikiWord.cut run).map fun segment => some (segmentNode segment) := by
  have hleaves : ReadsLeaves (leaf.read read) tail := fun _ r _ _ hr => ⟨r.found, hr, rfl⟩
  obtain ⟨hnodes, hrest⟩ := hleaves.readRounds (exact_expr leaf) h
  rw [readRounds_of_none (read_leaf_of_stops h.stops)] at hnodes hrest
  have htext := (readRounds_isCut (exact_expr leaf) (run ++ tail)).text
  rw [hrest] at htext
  have hfront := (List.append_cancel_right htext).symm
  obtain ⟨r, hr, hne⟩ := hleaves.exists_read h hne
  have hsome := readOneOrMore_of_some (exact_expr leaf) hr hne
  refine ⟨(readRounds (leaf.read read) (run ++ tail)).parts, fun e he => ?_, ?_⟩
  · have hread : e.read read (run ++ tail) =
        some (.spanning (readRounds (leaf.read read) (run ++ tail))) := by
      simp only [List.mem_cons, List.not_mem_nil, or_false] at he
      rcases he with rfl | rfl
      · rfl
      · exact hsome
    rw [grammar_run_eq, hc, hread, Option.map_some, Reading.spanning, hfront]
    rfl
  · have hnode : ∀ ⦃cs r⦄, leaf.read read cs = some r → r.found.node.isSome := by
      intro cs r hr
      rcases node_of_read_leaf hr with hlink | htext
      · exact Option.isSome_of_eq_some hlink
      · exact Option.isSome_of_eq_some htext
    rw [map_node_parts_readRounds hnode, hnodes, Stretch.nodes_empty, List.append_nil,
      h.leaves_eq_cut, List.map_map]
    rfl

/-- What follows a stretch: a delimiter, a line end or nothing. -/
theorem stops_of_append {stop : String} (h : stop ∈ ["*", "/", "\n", "\r\n"]) (after : String) :
    Stops (stop ++ after).toList := by
  rw [String.toList_append]
  simp only [List.mem_cons, List.not_mem_nil, or_false] at h
  rcases h with rfl | rfl | rfl | rfl
  · exact stops_delim .star _
  · exact stops_delim .slash _
  · exact .inr rfl
  · exact .inr rfl

/-- From the start of a stretch, links and texts consume it all when they are applied again and
again. They cut it at the leftmost matches of the pattern for wiki words, which do not overlap and
go on as far as they can: each match is a link, and what stands between two matches is one text. -/
theorem run_leaf_eq_cut {before run tail : String} (hne : run ≠ "")
    (hplain : ∀ c ∈ ['\n', '*', '/'], c ∉ run.toList) (hcr : run.toList.getLast? ≠ some '\r')
    (htail : tail = "" ∨ ∃ stop ∈ ["*", "/", "\n", "\r\n"], ∃ after, tail = stop ++ after) :
    ofSource "([A-Z][a-z]+)([A-Z][a-z]+)+" = .ok wikiWord ∧
    ∃ c parts, Cursor.at? (before ++ run ++ tail) before.utf8ByteSize = .ok c ∧
      (∀ e ∈ [Expr.zeroOrMore leaf, .oneOrMore leaf], grammar.run e c =
        .ok (.succeed ⟨run, run.utf8ByteSize, none, parts⟩)) ∧
      parts.map Match.node =
        (wikiWord.cut run.toList).map (fun segment => some (segmentNode segment)) ∧
      Node.allShown (parts.filterMap Match.node) = run.toList := by
  have hrun : IsRun run.toList tail.toList := by
    refine ⟨fun d => ?_, clear_of_not_mem (hplain _ (by decide)) fun h => absurd h hcr, ?_⟩
    · cases d
      · exact hplain '*' (by decide)
      · exact hplain '/' (by decide)
    · rcases htail with rfl | ⟨stop, hstop, after, rfl⟩
      · exact .inr rfl
      · exact stops_of_append hstop after
  have htext : (Cursor.ofString (before ++ run ++ tail)).rest =
      before.toList ++ (run.toList ++ tail.toList) := by
    rw [← List.append_assoc, ← String.toList_append, ← String.toList_append]
    rfl
  obtain ⟨c, hplace, hc⟩ : ∃ c, Cursor.at? (before ++ run ++ tail) before.utf8ByteSize = .ok c ∧
      c.rest = run.toList ++ tail.toList :=
    ⟨_, Text.byteSize_toList before ▸ Cursor.advance_of_rest_eq htext, rfl⟩
  obtain ⟨parts, hfound, hnodes⟩ := hrun.grammar_run_leaf (by simpa using hne) hc
  rw [String.ofList_toList, Text.byteSize_toList] at hfound
  refine ⟨ofSource_wikiWord, c, parts, hplace, hfound, hnodes, ?_⟩
  have hflat : parts.filterMap Match.node = (wikiWord.cut run.toList).map segmentNode := by
    simpa [List.filterMap_map, Function.comp_def] using congrArg (List.filterMap id) hnodes
  rw [hflat, allShown_map_segmentNode, flatMap_chars_cut]

/-- A word that is glued to other letters, and a single capital that starts no word. -/
theorem run_leaf_eq_cut_frontPage : ∃ c parts,
    Cursor.at? "é*yFrontPageA9HomeÉ\r\nWikiWord" 3 = .ok c ∧
    (∀ e ∈ [Expr.zeroOrMore leaf, .oneOrMore leaf], grammar.run e c =
      .ok (.succeed ⟨"yFrontPageA9HomeÉ", 18, none, parts⟩)) ∧
    parts.map Match.node =
      [some (.text "y"), some (.link "FrontPage"), some (.text "A9HomeÉ")] := by
  obtain ⟨-, c, parts, hplace, hfound, hnodes, -⟩ := @run_leaf_eq_cut "é*" "yFrontPageA9HomeÉ"
    "\r\nWikiWord" (by decide) (by simp) (by decide) (.inr ⟨"\r\n", by decide, "WikiWord", rfl⟩)
  refine ⟨c, parts, hplace, hfound, hnodes.trans ?_⟩
  with_unfolding_all rfl

end Rule

end WikiMarkup
