import Mathlib.Data.List.Forall2
import WikiMarkup.Format.Outline
import WikiMarkup.Proofs.Node.Skeleton
import WikiMarkup.Proofs.Page.Lines

/-!
# What an outline shows

An outline has one line for each node of the tree, in document order. Before the icon of a line
stand a connector and, for each container around the node but the outermost, a margin. Labels may
hold any character, those of connectors too, so a line is read from its start: a margin and a
connector differ in their first character, and so do the two connectors. Hence the rows below a node
end at the first row without the margin, and two trees with the same outline have the same skeleton.
-/

namespace WikiMarkup

namespace Format

open Node

/-! ## Rows -/

/-- Icon and label as they stand in a line. -/
def outlineEntry (n : Node) : List Char :=
  (outlineIcon n.kind).toList ++ ' ' :: (outlineLabel n).toList

/-- The connector of a node with these siblings behind it. -/
def connector (later : List Node) : List Char :=
  if later.isEmpty then ['└', '─', ' '] else ['├', '─', ' ']

/-- What the rows below a node have before their own connectors, if these siblings come behind the
node. -/
def margin (later : List Node) : List Char := if later.isEmpty then [' ', ' '] else ['│', ' ']

mutual

/-- The rows below a node. -/
def rowsBelow (lead : List Char) : Node → List (List Char)
  | .text _ => []
  | .link _ => []
  | .bold cs => rows lead cs
  | .italics cs => rows lead cs
  | .header _ cs => rows lead cs
  | .paragraph cs => rows lead cs
  | .document cs => rows lead cs

/-- The rows of siblings and of what is below them. -/
def rows (lead : List Char) : List Node → List (List Char)
  | [] => []
  | n :: ns =>
    (lead ++ (connector ns ++ outlineEntry n)) ::
      (rowsBelow (lead ++ margin ns) n ++ rows lead ns)

end

theorem rows_cons (lead : List Char) (n : Node) (ns : List Node) : rows lead (n :: ns) =
    (lead ++ (connector ns ++ outlineEntry n)) ::
      (rowsBelow (lead ++ margin ns) n ++ rows lead ns) := by
  rw [rows]

theorem rowsBelow_node (lead : List Char) (k : Container) (cs : List Node) :
    rowsBelow lead (k.node cs) = rows lead cs := by
  cases k <;> rfl

/-- All lines of an outline. -/
def outlineRows (n : Node) : List (List Char) := outlineEntry n :: rowsBelow [] n

theorem toList_outlineHead (n : Node) : (outlineHead n).toList = outlineEntry n ++ ['\n'] := by
  show (outlineIcon n.kind ++ " " ++ outlineLabel n ++ "\n").toList = _
  simp [outlineEntry]

mutual

theorem toList_drawChildren (lead : String) : ∀ (n : Node) (out : String),
    (drawChildren lead n out).toList = out.toList ++ Page.unlines (rowsBelow lead.toList n)
  | .text _, out => by simp [drawChildren, rowsBelow]
  | .link _, out => by simp [drawChildren, rowsBelow]
  | .bold cs, out => toList_drawAll lead cs out
  | .italics cs, out => toList_drawAll lead cs out
  | .header _ cs, out => toList_drawAll lead cs out
  | .paragraph cs, out => toList_drawAll lead cs out
  | .document cs, out => toList_drawAll lead cs out

/-- Drawing adds the rows, each with a line end. -/
theorem toList_drawAll (lead : String) : ∀ (ns : List Node) (out : String),
    (drawAll lead ns out).toList = out.toList ++ Page.unlines (rows lead.toList ns)
  | [], out => by simp [drawAll, rows]
  | [n], out => by
    rw [drawAll, toList_drawChildren _ n]
    simp [rows, connector, margin, toList_outlineHead]
  | n :: m :: ns, out => by
    rw [drawAll, toList_drawAll lead (m :: ns), toList_drawChildren _ n, rows_cons _ n]
    simp [connector, margin, toList_outlineHead]

end

theorem toList_outline (n : Node) : (outline n).toList = Page.unlines (outlineRows n) := by
  rw [outline, toList_drawChildren, toList_outlineHead, outlineRows, Page.unlines_cons]
  simp

/-! ## Entries -/

/-- The one character of an icon. -/
def iconChar : Kind → Char
  | .document => '⧉'
  | .header => '§'
  | .paragraph => '¶'
  | .text => '◦'
  | .link => '⊕'
  | .bold => '𝐁'
  | .italics => '𝐼'

theorem toList_outlineIcon (k : Kind) : (outlineIcon k).toList = [iconChar k] := by
  cases k <;> simp [outlineIcon, iconChar]

theorem iconChar_injective {k k' : Kind} (h : iconChar k = iconChar k') : k = k' := by
  cases k <;> cases k' <;> first | rfl | exact absurd h (by decide)

theorem length_tag (level : HeaderLevel) : level.tag.toList.length = 2 := by
  cases level <;> simp [HeaderLevel.tag]

/-- A start of the text that is within the limit stays. -/
theorem isPrefix_truncate {front : List Char} {limit : Nat} {s : String} (h : front <+: s.toList)
    (hlimit : front.length ≤ limit) : front <+: (truncate limit s).toList := by
  rw [truncate]
  split
  · rw [String.toList_append, String.toList_ofList]
    exact (List.prefix_take_iff.mpr ⟨h, hlimit⟩).trans (List.prefix_append _ _)
  · exact h

/-- The label of a header starts with its element name. -/
theorem isPrefix_outlineLabel (level : HeaderLevel) (cs : List Node) :
    level.tag.toList <+: (outlineLabel (.header level cs)).toList := by
  apply isPrefix_truncate
  · show _ <+: (level.tag ++ " " ++ Text.trim _).toList
    simp [List.append_assoc]
  · rw [length_tag]
    decide

theorem eq_of_outlineLabel {level level' : HeaderLevel} {cs cs' : List Node}
    (h : outlineLabel (.header level cs) = outlineLabel (.header level' cs')) : level = level' := by
  have hlevel := isPrefix_outlineLabel level cs
  rw [h] at hlevel
  have hlength : level.tag.toList.length ≤ level'.tag.toList.length := by
    rw [length_tag, length_tag]
  have htag := List.prefix_of_prefix_length_le hlevel (isPrefix_outlineLabel level' cs') hlength
  cases level <;> cases level' <;> first | rfl | exact absurd htag (by decide)

theorem of_outlineEntry_eq {n m : Node} (h : outlineEntry n = outlineEntry m) :
    n.kind = m.kind ∧ outlineLabel n = outlineLabel m := by
  rw [outlineEntry, outlineEntry, toList_outlineIcon, toList_outlineIcon] at h
  obtain ⟨hicon, hlabel⟩ := List.cons.inj h
  exact ⟨iconChar_injective hicon, String.toList_injective (List.cons.inj hlabel).2⟩

/-- An entry tells which container its node is. -/
theorem exists_eq_node_of_outlineEntry {k : Container} {cs : List Node} {m : Node}
    (h : outlineEntry (k.node cs) = outlineEntry m) : ∃ cs', m = k.node cs' := by
  obtain ⟨hkind, hlabel⟩ := of_outlineEntry_eq h
  cases k with
  | header level =>
    cases m with
    | header level' cs' =>
      obtain rfl := eq_of_outlineLabel hlabel
      exact ⟨cs', rfl⟩
    | _ => cases hkind
  | _ => cases m <;> first | exact ⟨_, rfl⟩ | cases hkind

/-! ## Reading rows back -/

/-- The rows with this lead are over. -/
def EndsRows (lead : List Char) (later : List (List Char)) : Prop :=
  ∀ row, later.head? = some row → ¬lead <+: row

theorem EndsRows.append {lead : List Char} {later : List (List Char)} (h : EndsRows lead later)
    (more : List Char) : EndsRows (lead ++ more) later :=
  fun row hrow hprefix => h row hrow ((List.prefix_append lead more).trans hprefix)

/-- The rows below a node are over where its next sibling comes. -/
theorem endsRows_margin {lead : List Char} {later : List (List Char)} (h : EndsRows lead later)
    (ns : List Node) : EndsRows (lead ++ margin ns) (rows lead ns ++ later) := by
  cases ns with
  | nil => exact h.append _
  | cons n ns =>
    rintro row hrow hprefix
    rw [rows_cons, List.cons_append, List.head?_cons, Option.some_inj] at hrow
    rw [← hrow, List.prefix_append_right_inj] at hprefix
    cases ns <;> simp [margin, connector] at hprefix

theorem eq_of_connector {ns ms : List Node} {cs cs' : List Char}
    (h : connector ns ++ cs = connector ms ++ cs') : margin ns = margin ms ∧ cs = cs' := by
  cases ns <;> cases ms <;> simp_all [connector, margin]

/-- The rows below a node tell its skeleton, whatever rows follow that have another lead. -/
def RowsTell (n : Node) : Prop :=
  ∀ ⦃m : Node⦄ ⦃lead : List Char⦄ ⦃later later' : List (List Char)⦄,
    EndsRows lead later → EndsRows lead later' → outlineEntry n = outlineEntry m →
    rowsBelow lead n ++ later = rowsBelow lead m ++ later' →
    n.skeleton = m.skeleton ∧ later = later'

/-- Rows of siblings are followed by rows with another lead. -/
theorem rows_cons_ne {lead : List Char} {later later' : List (List Char)} {n : Node}
    {ns : List Node} (h : EndsRows lead later) : rows lead (n :: ns) ++ later' ≠ later := by
  rintro rfl
  exact h _ (by rw [rows_cons]; rfl) (List.prefix_append _ _)

/-- The rows of siblings tell their skeletons. -/
theorem of_rows_eq {ns ms : List Node} {lead : List Char} {later later' : List (List Char)}
    (hns : ∀ n ∈ ns, RowsTell n) (hlater : EndsRows lead later) (hlater' : EndsRows lead later')
    (h : rows lead ns ++ later = rows lead ms ++ later') :
    skeletons ns = skeletons ms ∧ later = later' := by
  induction ns generalizing ms with
  | nil =>
    cases ms with
    | nil => exact ⟨rfl, h⟩
    | cons m ms => exact absurd h.symm (rows_cons_ne hlater)
  | cons n ns ih =>
    cases ms with
    | nil => exact absurd h (rows_cons_ne hlater')
    | cons m ms =>
      simp only [rows_cons, List.cons_append, List.append_assoc] at h
      obtain ⟨hrow, hbelow⟩ := List.cons.inj h
      obtain ⟨hmargin, hentry⟩ := eq_of_connector (List.append_cancel_left hrow)
      have hends := endsRows_margin hlater' ms
      rw [← hmargin] at hbelow hends
      obtain ⟨hskeleton, hrest⟩ := hns n List.mem_cons_self (endsRows_margin hlater ns) hends
        hentry hbelow
      obtain ⟨hskeletons, heq⟩ := ih (fun c hc => hns c (List.mem_cons_of_mem n hc)) hrest
      exact ⟨by rw [skeletons, skeletons, hskeleton, hskeletons], heq⟩

theorem rowsTell (n : Node) : RowsTell n := by
  induction n using inductionOn with
  | text s =>
    intro m lead later later' _ _ hentry h
    cases m with
    | text s' => exact ⟨rfl, h⟩
    | _ => cases (of_outlineEntry_eq hentry).1
  | link s =>
    intro m lead later later' _ _ hentry h
    cases m with
    | link s' => exact ⟨rfl, h⟩
    | _ => cases (of_outlineEntry_eq hentry).1
  | container k cs ih =>
    intro m lead later later' hlater hlater' hentry h
    obtain ⟨cs', rfl⟩ := exists_eq_node_of_outlineEntry hentry
    rw [rowsBelow_node, rowsBelow_node] at h
    obtain ⟨hskeletons, heq⟩ := of_rows_eq ih hlater hlater' h
    exact ⟨by rw [skeleton_node, skeleton_node, hskeletons], heq⟩

/-! ## Lines -/

/-- A character of margins and connectors. -/
def IsLead (lead : List Char) : Prop := ∀ c ∈ lead, c ∈ [' ', '│', '├', '└', '─']

/-- The line shows the node behind margins and a connector. -/
def Shows (line : List Char) (n : Node) : Prop :=
  ∃ lead, IsLead lead ∧ line = lead ++ outlineEntry n

theorem isLead_nil : IsLead [] := List.forall_mem_nil _

theorem isLead_margin (ns : List Node) : IsLead (margin ns) := by
  cases ns <;> simp [IsLead, margin]

theorem isLead_connector (ns : List Node) : IsLead (connector ns) := by
  cases ns <;> simp [IsLead, connector]

theorem IsLead.append {lead more : List Char} (h : IsLead lead) (h' : IsLead more) :
    IsLead (lead ++ more) := List.forall_mem_append.mpr ⟨h, h'⟩

mutual

theorem forall₂_rowsBelow {lead : List Char} (h : IsLead lead) :
    ∀ n : Node, List.Forall₂ Shows (rowsBelow lead n) (allPreorder n.children)
  | .text _ => .nil
  | .link _ => .nil
  | .bold cs => forall₂_rows h cs
  | .italics cs => forall₂_rows h cs
  | .header _ cs => forall₂_rows h cs
  | .paragraph cs => forall₂_rows h cs
  | .document cs => forall₂_rows h cs

/-- There is one row for each node, in document order. -/
theorem forall₂_rows {lead : List Char} (h : IsLead lead) :
    ∀ ns : List Node, List.Forall₂ Shows (rows lead ns) (allPreorder ns)
  | [] => .nil
  | n :: ns => by
    rw [rows_cons, allPreorder, preorder_eq, List.cons_append]
    refine .cons ⟨_, h.append (isLead_connector ns), (List.append_assoc ..).symm⟩ ?_
    exact List.rel_append (forall₂_rowsBelow (h.append (isLead_margin ns)) n) (forall₂_rows h ns)

end

theorem forall₂_outlineRows (n : Node) : List.Forall₂ Shows (outlineRows n) n.preorder := by
  rw [outlineRows, preorder_eq]
  exact .cons ⟨[], isLead_nil, rfl⟩ (forall₂_rowsBelow isLead_nil n)

theorem mem_of_mem_trim {c : Char} {s : String} (h : c ∈ (Text.trim s).toList) : c ∈ s.toList := by
  rw [Text.trim, Text.dropEndWhile, String.toList_ofList, List.mem_reverse] at h
  exact (List.dropWhile_sublist _).subset
    (List.mem_reverse.mp ((List.dropWhile_sublist _).subset h))

theorem not_mem_truncate {c : Char} {limit : Nat} {s : String} (h : c ∉ s.toList) (hdot : c ≠ '.') :
    c ∉ (truncate limit s).toList := by
  rw [truncate]
  split
  · intro hmem
    rw [String.toList_append, String.toList_ofList, List.mem_append] at hmem
    rcases hmem with htake | hdots
    · exact h (List.mem_of_mem_take htake)
    · simp_all
  · exact h

theorem not_mem_outlineEntry {n : Node} (h : '\n' ∉ n.shown) : '\n' ∉ outlineEntry n := by
  have htext : '\n' ∉ (Text.trim n.plainText).toList := by
    intro hmem
    have hshown := mem_of_mem_trim hmem
    rw [plainText_eq, String.toList_ofList] at hshown
    exact h hshown
  have hlabel : '\n' ∉ (outlineLabel n).toList := by
    unfold outlineLabel
    split
    · next level cs =>
      refine not_mem_truncate ?_ (by decide)
      show '\n' ∉ (level.tag ++ " " ++ Text.trim _).toList
      cases level <;> simp [HeaderLevel.tag, htext]
    · exact not_mem_truncate htext (by decide)
  have hicon : '\n' ∉ (outlineIcon n.kind).toList := by
    cases n.kind <;> decide
  simp [outlineEntry, hicon, hlabel]

/-- A line that shows a node has no end inside. -/
theorem not_mem_of_shows {line : List Char} {n : Node} (h : Shows line n) (hn : '\n' ∉ n.shown) :
    '\n' ∉ line := by
  obtain ⟨lead, hlead, rfl⟩ := h
  rw [List.mem_append]
  rintro (hmem | hmem)
  · exact absurd (hlead _ hmem) (by decide)
  · exact not_mem_outlineEntry hn hmem

theorem not_mem_of_forall₂_shows {lines : List (List Char)} {ns : List Node}
    (h : List.Forall₂ Shows lines ns) (hns : ∀ n ∈ ns, '\n' ∉ n.shown) :
    ∀ line ∈ lines, '\n' ∉ line := by
  induction h with
  | nil => exact List.forall_mem_nil _
  | cons hshows _ ih =>
    rw [List.forall_mem_cons] at hns ⊢
    exact ⟨not_mem_of_shows hshows hns.1, ih hns.2⟩

/-- The lines of an outline are its rows. -/
theorem linesOf_outline {n : Node} (h : n.LeavesInLine) :
    Page.linesOf (outline n).toList = outlineRows n ++ [[]] := by
  have hrows := not_mem_of_forall₂_shows (forall₂_outlineRows n) fun m hm => h.not_mem_shown hm
  rw [toList_outline, ← List.append_nil (Page.unlines _)]
  exact Page.linesOf_unlines_append hrows List.not_mem_nil

/-- An outline has one line for each node, in document order, and it tells the kinds of the nodes,
the levels of the headers and the children of each node. -/
theorem linesOf_outline_and_skeleton_eq :
    (∀ n : Node, n.LeavesInLine → ∃ lines, Page.linesOf (outline n).toList = lines ++ [[]] ∧
      List.Forall₂ Shows lines n.preorder) ∧
    ∀ n m : Node, n.LeavesInLine → m.LeavesInLine → outline n = outline m →
      n.skeleton = m.skeleton := by
  refine ⟨fun n hn => ⟨_, linesOf_outline hn, forall₂_outlineRows n⟩, fun n m hn hm h => ?_⟩
  have hlines := linesOf_outline hn
  rw [h, linesOf_outline hm] at hlines
  obtain ⟨hentry, hbelow⟩ := List.cons.inj (List.append_cancel_right hlines.symm)
  have hends : EndsRows [] [] := nofun
  have htell := rowsTell n hends hends hentry
  rw [List.append_nil, List.append_nil] at htell
  exact (htell hbelow).1

/-- A page with a text that looks like a row of an outline. -/
def drawnPage (ending : String) : Node :=
  .document [.paragraph [.text "a", .link "FrontPage"],
    .header .h2 [.text ("└─ ¶ b" ++ ending)]]

theorem leavesInLine_drawnPage {ending : String} (h : '\n' ∉ ending.toList) :
    (drawnPage ending).LeavesInLine := by
  simp [LeavesInLine, drawnPage, preorder, allPreorder, leafText?, h]

/-- A blank at the end of the page is not shown, and the row in the text counts for nothing. -/
theorem linesOf_outline_and_skeleton_eq_drawnPage :
    (drawnPage "").LeavesInLine ∧ (drawnPage " ").LeavesInLine ∧
    outline (drawnPage "") = outline (drawnPage " ") ∧
    (∃ lines, Page.linesOf (outline (drawnPage "")).toList = lines ++ [[]] ∧
      List.Forall₂ Shows lines (drawnPage "").preorder) ∧
    (drawnPage "").skeleton = (drawnPage " ").skeleton := by
  have hfull : (drawnPage "").LeavesInLine := leavesInLine_drawnPage (by decide)
  have hblank : (drawnPage " ").LeavesInLine := leavesInLine_drawnPage (by decide)
  have hsame : outline (drawnPage "") = outline (drawnPage " ") := by decide +kernel
  obtain ⟨hlines, hskeleton⟩ := linesOf_outline_and_skeleton_eq
  exact ⟨hfull, hblank, hsame, hlines _ hfull, hskeleton _ _ hfull hblank hsame⟩

end Format

end WikiMarkup
