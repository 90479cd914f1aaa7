import WikiMarkup.Page.Processor
import WikiMarkup.Proofs.Format.Html
import WikiMarkup.Proofs.Page.Shape
import WikiMarkup.Proofs.Page.Text

/-!
# The HTML of a page

Of a page without `<` the HTML shows the tree. The texts of its tree come from its markup, so none
of them begins a tag, and the shape of trees keeps texts apart from one another.
-/

namespace WikiMarkup

open Node Format

/-! ## Trees in shape can be read back -/

namespace Node

variable {P : Node → Prop} {n : Node} {ns : List Node}

theorem IsLeaf.isLegible (h : IsLeaf n) (hshown : '<' ∉ n.shown) : IsLegible n := by
  cases n with
  | text s => exact .text h.ne_empty hshown
  | link s =>
    have hletters := IsWikiWord.letters h
    exact .link hshown fun hgt => absurd (hletters _ hgt) (by decide)
  | _ => cases h

/-- A container can be read back if what may stand in it can. -/
theorem IsRow.isLegible (k : Container) (h : IsRow P ns)
    (hP : ∀ m, P m → '<' ∉ m.shown → IsLegible m) (hshown : '<' ∉ allShown ns) :
    IsLegible (k.node ns) := by
  refine .container (fun m hm => hP m (h.all m hm) ?_) h.apart
  exact fun hlt => hshown (mem_allShown.mpr ⟨m, hm, hlt⟩)

theorem IsSpan.isLegible {d : Delimiter} (h : IsSpan d P n)
    (hP : ∀ m, P m → '<' ∉ m.shown → IsLegible m) (hshown : '<' ∉ n.shown) : IsLegible n := by
  obtain ⟨ns, rfl, -, hrow⟩ := h
  rw [Delimiter.shown_span] at hshown
  cases d with
  | star => exact hrow.isLegible .bold hP hshown
  | slash => exact hrow.isLegible .italics hP hshown

theorem IsInline.isLegible (h : IsInline n) (hshown : '<' ∉ n.shown) : IsLegible n := by
  obtain hleaf | ⟨d, hspan⟩ := h
  · exact hleaf.isLegible hshown
  · refine hspan.isLegible (fun m hm hshown => ?_) hshown
    obtain hleaf | hnested := hm
    · exact hleaf.isLegible hshown
    · exact hnested.isLegible (fun _ hleaf => hleaf.isLegible) hshown

theorem IsBlock.isLegible (h : IsBlock n) (hshown : '<' ∉ n.shown) : IsLegible n := by
  cases h with
  | @header level _ _ hrow => exact hrow.isLegible (.header level) (fun _ h => h.isLegible) hshown
  | paragraph hrow => exact hrow.isLegible .paragraph (fun _ h => h.isLegible) hshown

end Node

namespace Page

/-- The tree of a page without `<` can be read back from its HTML. -/
theorem isLegible_of_parse_eq_ok {markup : String} {t : Node} (h : parse markup = .ok t)
    (hmarkup : '<' ∉ markup.toList) : IsLegible t := by
  obtain ⟨ns, rfl, hns⟩ := exists_line_of_parse_eq_ok h
  have hblock : ∀ n ∈ ns, IsBlock n := by
    intro n hn
    obtain ⟨line, hline, hblock⟩ := hns n hn
    exact isBlock_of_lineBlock? (not_mem_of_mem_linesOf hline) hblock
  have hshown : ∀ n ∈ ns, '<' ∉ n.shown := by
    intro n hn hlt
    obtain ⟨line, hline, hblock⟩ := hns n hn
    have hsub := shown_sublist_of_lineBlock? (not_mem_of_mem_linesOf hline) hblock
    exact hmarkup (mem_of_mem_linesOf hline (hsub.subset hlt))
  have hapart : ns.Pairwise Apart := List.pairwise_of_forall_mem_list fun n hn _ _ => by
    apply apart_of_left
    cases hblock n hn <;> rfl
  exact .container (k := .document) (fun n hn => (hblock n hn).isLegible (hshown n hn))
    hapart.isChain

/-- Pages without `<` that have the same HTML have the same tree. -/
theorem parse_eq_of_toHtml_eq {m₁ m₂ : String} {t₁ t₂ : Node} (hm₁ : '<' ∉ m₁.toList)
    (hm₂ : '<' ∉ m₂.toList) (h₁ : parse m₁ = .ok t₁) (h₂ : parse m₂ = .ok t₂)
    (hhtml : toHtml m₁ = toHtml m₂) : parse m₁ = parse m₂ := by
  have heq : html t₁ = html t₂ := by
    rw [toHtml, toHtml, h₁, h₂] at hhtml
    exact Except.ok.inj hhtml
  have htree : some t₁ = some t₂ := by
    calc some t₁ = readHtml? (html t₁) := (readHtml?_html (isLegible_of_parse_eq_ok h₁ hm₁)).symm
      _ = readHtml? (html t₂) := by rw [heq]
      _ = some t₂ := readHtml?_html (isLegible_of_parse_eq_ok h₂ hm₂)
  rw [h₁, h₂, Option.some.inj htree]

/-- A span that the end of the line closes, and one that is closed: the HTML shows the same text, in
which a quote, `>` and `&` stand as they are. -/
theorem parse_eq_of_toHtml_eq_open_span :
    '<' ∉ "*'>&".toList ∧ '<' ∉ "*'>&*".toList ∧
      parse "*'>&" = .ok (.document [.paragraph [.bold [.text "'>&"]]]) ∧
      toHtml "*'>&" = toHtml "*'>&*" ∧ parse "*'>&" = parse "*'>&*" := by
  have hleaves : Rule.leaves "'>&".toList = [.text "'>&"] := by with_unfolding_all rfl
  have hopen : parse "*'>&" = .ok (.document [.paragraph [.bold [.text "'>&"]]]) := by
    have hblocks : blocks (linesOf "*'>&".toList) =
        [.paragraph [.bold (Rule.leaves "'>&".toList)]] := rfl
    rw [parse_eq_ok_iff, hblocks, hleaves]
    exact ⟨by decide, rfl⟩
  have hclosed : parse "*'>&*" = .ok (.document [.paragraph [.bold [.text "'>&"]]]) := by
    have hblocks : blocks (linesOf "*'>&*".toList) =
        [.paragraph [.bold (Rule.leaves "'>&".toList)]] := rfl
    rw [parse_eq_ok_iff, hblocks, hleaves]
    exact ⟨by decide, rfl⟩
  have hhtml : toHtml "*'>&" = toHtml "*'>&*" := by rw [toHtml, toHtml, hopen, hclosed]
  have hlt : '<' ∉ "*'>&".toList := by decide
  have hlt' : '<' ∉ "*'>&*".toList := by decide
  exact ⟨hlt, hlt', hopen, hhtml, parse_eq_of_toHtml_eq hlt hlt' hopen hclosed hhtml⟩

end Page

end WikiMarkup
