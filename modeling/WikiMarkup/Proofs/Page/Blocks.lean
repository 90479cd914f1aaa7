import Mathlib.Data.List.Forall2
import WikiMarkup.Proofs.Page.Parse

/-!
# One block for each line that counts

The blocks of a page stand in the order of its significant lines, one for each: the first line, and
every later line that is not blank. The marks at the head of a line decide whether it is a header
and of which level, and the rule for paragraphs gives the children of either kind.
-/

namespace WikiMarkup

open Peg

/-- What the rule for paragraphs makes of a text with a line end behind it. -/
def GivesChildren (text : List Char) (ns : List Node) : Prop :=
  ∃ m, Rule.paragraph.run (.ofString (String.ofList text ++ "\r\n")) = .ok (.succeed m) ∧
    m.node = some (.paragraph ns)

/-- The block is the one that a line, given without its line end, stands for. -/
inductive IsBlockOf (line : List Char) : Node → Prop where
  | header {level : HeaderLevel} {ns : List Node} : StartsHeader line →
    levelOfMarks? (marks line) = some level → GivesChildren (behindMarks line) ns →
    IsBlockOf line (.header level ns)
  | paragraph {ns : List Node} : ¬StartsHeader line → GivesChildren line ns →
    IsBlockOf line (.paragraph ns)

variable {line : List Char}

/-- The rule for paragraphs makes one list of children at most of a text. -/
theorem GivesChildren.unique {ns ms : List Node} (h : GivesChildren line ns)
    (h' : GivesChildren line ms) : ns = ms := by
  obtain ⟨m, hm, hnode⟩ := h
  obtain ⟨m', hm', hnode'⟩ := h'
  rw [hm] at hm'
  cases hm'
  rw [hnode] at hnode'
  cases hnode'
  rfl

/-- A line stands for one block at most. -/
theorem IsBlockOf.unique {n m : Node} (h : IsBlockOf line n) (h' : IsBlockOf line m) : n = m := by
  cases h with
  | header hstarts hlevel hchildren =>
    cases h' with
    | header _ hlevel' hchildren' =>
      rw [hlevel] at hlevel'
      cases hlevel'
      rw [hchildren.unique hchildren']
    | paragraph hnot => exact absurd hstarts hnot
  | paragraph hnot hchildren =>
    cases h' with
    | header hstarts => exact absurd hstarts hnot
    | paragraph _ hchildren' => rw [hchildren.unique hchildren']

theorem givesChildren_scan (h : '\n' ∉ line) (hopen : ¬Blocked line) :
    GivesChildren line (scan line) := by
  have hline : IsLine line ['\r', '\n'] := .of_not_mem h (fun _ => by decide) rfl
  obtain ⟨m, hm, -, hnode⟩ := Rule.read_paragraph hline hopen (lineEnd?_crlf [])
  have hrest : (Cursor.ofString (String.ofList line ++ "\r\n")).rest = line ++ ['\r', '\n'] := by
    simp [Cursor.ofString, Cursor.ofList]
  refine ⟨m, ?_, hnode⟩
  rw [Rule.run_eq, hrest, hm]
  rfl

/-- The block of a line is the one that its content stands for. -/
theorem isBlockOf_of_lineBlock? (h : '\n' ∉ line) {n : Node} (hblock : lineBlock? line = some n) :
    IsBlockOf (content line) n := by
  have hlf := not_mem_content h
  obtain ⟨hopen, ⟨level, title, htitle, rfl⟩ | ⟨htitle, rfl⟩⟩ := of_lineBlock?_eq_some hblock
  · have htitleOpen : ¬Blocked title := mt (blocked_title_iff htitle).mp hopen
    have hchildren := givesChildren_scan (not_mem_title hlf htitle) htitleOpen
    obtain ⟨hstarts, hlevel, rfl⟩ := title?_eq_some_iff.mp htitle
    exact .header hstarts hlevel hchildren
  · exact .paragraph (title?_eq_none_iff.mp htitle) (givesChildren_scan hlf hopen)

namespace Page

/-- The lines that become blocks, each without its line end: the first one, and all later ones but
those of spaces and tabs only. -/
def significantLines (markup : String) : List (List Char) :=
  match linesOf markup.toList with
  | [] => []
  | first :: later => content first :: (later.map content).filter fun line => !line.all isSpacing

theorem forall₂_laterBlocks {later : List (List Char)} (h : ∀ l ∈ later, '\n' ∉ l)
    (hread : ∀ l ∈ later, isReadable l) :
    List.Forall₂ IsBlockOf ((later.map content).filter fun line => !line.all isSpacing)
      (laterBlocks later) := by
  induction later with
  | nil => exact .nil
  | cons line later ih =>
    have hrest := ih (fun l hl => h l (List.mem_cons_of_mem line hl))
      (fun l hl => hread l (List.mem_cons_of_mem line hl))
    rw [List.map_cons]
    cases hblank : isBlankLine line with
    | true =>
      rw [laterBlocks_cons_of_isBlankLine hblank,
        List.filter_cons_of_neg (by rw [← isBlankLine, hblank]; decide)]
      exact hrest
    | false =>
      obtain ⟨n, hn⟩ := Option.isSome_iff_exists.mp (hread line (List.mem_cons_self ..))
      rw [laterBlocks_cons hblank, hn, Option.toList_some, List.singleton_append,
        List.filter_cons_of_pos (by rw [← isBlankLine, hblank]; decide)]
      exact .cons (isBlockOf_of_lineBlock? (h line (List.mem_cons_self ..)) hn) hrest

/-- The blocks of a page are, in order, the ones that its significant lines stand for, and no other
list of nodes is. -/
theorem forall₂_blocks_parse {markup : String} {t : Node} (h : parse markup = .ok t) :
    ∃ ns, t = .document ns ∧ List.Forall₂ IsBlockOf (significantLines markup) ns ∧
      ∀ ms, List.Forall₂ IsBlockOf (significantLines markup) ms → ms = ns := by
  obtain ⟨first, later, n, hlines, hlf, hread, hn, rfl⟩ := of_parse_eq_ok h
  have hfirst := isBlockOf_of_lineBlock? (hlf first (List.mem_cons_self ..)) hn
  have hlater := forall₂_laterBlocks (fun l hl => hlf l (List.mem_cons_of_mem first hl))
    (fun l hl => hread l (List.mem_cons_of_mem first hl))
  have hblocks : List.Forall₂ IsBlockOf (significantLines markup) (n :: laterBlocks later) := by
    rw [significantLines, hlines]
    exact .cons hfirst hlater
  have hunique : Relator.RightUnique IsBlockOf := fun _ _ _ hn hm => hn.unique hm
  exact ⟨_, rfl, hblocks, fun ms hms => hunique.forall₂ hms hblocks⟩

/-- Four marks make a header of level 1 and leave the fifth to its title; marks with nothing but
blanks behind them are a paragraph. -/
theorem forall₂_blocks_parse_five_marks :
    parse "!!!!!\t a\r\n\t\r\n!! \nb" = .ok (.document [.header .h1 [.text "!\t a"],
      .paragraph [.text "!! "], .paragraph [.text "b"]]) ∧
    List.Forall₂ IsBlockOf ["!!!!!\t a".toList, "!! ".toList, "b".toList]
      [.header .h1 [.text "!\t a"], .paragraph [.text "!! "], .paragraph [.text "b"]] := by
  have hparse : parse "!!!!!\t a\r\n\t\r\n!! \nb" = .ok (.document [.header .h1 [.text "!\t a"],
      .paragraph [.text "!! "], .paragraph [.text "b"]]) := by
    have hblocks : blocks (linesOf "!!!!!\t a\r\n\t\r\n!! \nb".toList) =
        [.header .h1 (Rule.leaves "!\t a".toList), .paragraph (Rule.leaves "!! ".toList),
          .paragraph (Rule.leaves "b".toList)] := rfl
    have htitle : Rule.leaves "!\t a".toList = [.text "!\t a"] := by with_unfolding_all rfl
    have hmarks : Rule.leaves "!! ".toList = [.text "!! "] := by with_unfolding_all rfl
    have hb : Rule.leaves "b".toList = [.text "b"] := by with_unfolding_all rfl
    rw [parse_eq_ok_iff, hblocks, htitle, hmarks, hb]
    exact ⟨by decide, rfl⟩
  have hlines : significantLines "!!!!!\t a\r\n\t\r\n!! \nb" =
      ["!!!!!\t a".toList, "!! ".toList, "b".toList] := by decide
  obtain ⟨ns, hdocument, hblocks, -⟩ := forall₂_blocks_parse hparse
  cases hdocument
  rw [hlines] at hblocks
  exact ⟨hparse, hblocks⟩

end Page

end WikiMarkup
