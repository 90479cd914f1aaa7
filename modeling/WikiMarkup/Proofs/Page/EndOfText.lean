import WikiMarkup.Proofs.Page.Parse
import WikiMarkup.Proofs.Peg.Line

/-!
# The end of the text as a line end

A page is read with a line feed added. The rules find the same document without it, because the end
of the text ends a line as a line feed does. Two texts are left out: one without characters has no
block, and a carriage return at the end of the text is part of the last line, and no longer of its
line end.
-/

namespace WikiMarkup

open Peg

namespace Rule

theorem spells_document : document.read.Spells := by
  rw [read_document_eq]
  exact (Reader.spells_sequence _).onMatch (gather 0 .document)

/-- The rule for documents matches a text exactly if the text becomes a page, and then it consumes
all of the text and has the tree of the page. -/
theorem run_document_iff_parse (s : String) (hne : s ≠ "") (hcr : s.toList.getLast? ≠ some '\r') :
    ∃ found : Option (Match Node), document.run (.ofString s) = .ok ⟨found, []⟩ ∧
      (found.isSome ↔ ∃ t, Page.parse s = .ok t) ∧
      ∀ m, found = some m → m.text = s ∧ m.consumed = s.utf8ByteSize ∧
        ∃ t, m.node = some t ∧ Page.parse s = .ok t := by
  have htext := Page.isText_linesOf hcr
  have hchars : s.toList ≠ [] := fun hnil => hne (String.toList_eq_nil_iff.mp hnil)
  refine ⟨(document.read s.toList).map Reading.found, run_eq document _, ?_⟩
  by_cases hall : ∀ l ∈ Page.linesOf s.toList, Page.isReadable l
  · obtain ⟨r, hr, hrest, hnode⟩ := read_document htext hchars hall
    have hparse := Page.parse_of_readable hall
    have hcut := exact_read document hr
    have hfront : r.front = s.toList := by
      rw [hcut.text, hrest, List.append_nil]
    rw [hr]
    refine ⟨⟨fun _ => ⟨_, hparse⟩, fun _ => rfl⟩, ?_⟩
    rintro m ⟨rfl⟩
    refine ⟨?_, ?_, _, hnode, hparse⟩
    · rw [spells_document hr, hfront, String.ofList_toList]
    · rw [hcut.consumed, hfront, Text.byteSize_toList]
  · have hfail : ∀ t, Page.parse s ≠ .ok t := fun t ht => hall (Page.parse_eq_ok_iff.mp ht).1
    rw [read_document_eq_none htext hchars hall]
    refine ⟨⟨nofun, ?_⟩, nofun⟩
    rintro ⟨t, ht⟩
    exact absurd ht (hfail t)

/-- A span that its line leaves open, and a blank line that only the end of the text ends. -/
theorem run_document_iff_parse_blank_end :
    ∃ parts, document.run (.ofString "é\n*a\n ") = .ok (.succeed ⟨"é\n*a\n ", 7,
      some (.document [.paragraph [.text "é"], .paragraph [.bold [.text "a"]]]), parts⟩) := by
  have hparse : Page.parse "é\n*a\n " =
      .ok (.document [.paragraph [.text "é"], .paragraph [.bold [.text "a"]]]) := by
    have hblocks : Page.blocks (Page.linesOf "é\n*a\n ".toList) =
        [.paragraph (leaves ['é']), .paragraph [.bold (leaves ['a'])]] := rfl
    have hletter : leaves ['é'] = [.text "é"] := by with_unfolding_all rfl
    rw [Page.parse_eq_ok_iff, hblocks, hletter, leaves_lowercase (by decide) rfl]
    exact ⟨by decide, rfl⟩
  obtain ⟨found, hrun, hiff, hfound⟩ := run_document_iff_parse "é\n*a\n " (by decide) (by decide)
  obtain ⟨m, rfl⟩ := Option.isSome_iff_exists.mp (hiff.mpr ⟨_, hparse⟩)
  obtain ⟨text, consumed, node, parts⟩ := m
  obtain ⟨rfl, rfl, t, rfl, ht⟩ := hfound _ rfl
  rw [hparse] at ht
  cases ht
  exact ⟨parts, hrun⟩

end Rule

end WikiMarkup
