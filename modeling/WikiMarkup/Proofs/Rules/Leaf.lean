import WikiMarkup.Proofs.Peg.Frame
import WikiMarkup.Proofs.Rules.Lexical

/-!
# Links and texts

A stretch of a line without delimiters is made of leaves: links, and texts that go on to the next
link or to the end of the stretch. The leaves of a stretch are what links and texts find when they
are applied to it again and again. They do not depend on what follows the stretch, as long as that
is a delimiter or the line end, and together they consume the stretch.
-/

namespace WikiMarkup

open Peg

namespace Rule

/-! ## Links -/

def upper : CharSet := .range 'A' 'Z'

def lower : CharSet := .range 'a' 'z'

theorem not_upper_of_lower {c : Char} (h : lower.contains c = true) :
    upper.contains c = false := by
  rw [← Bool.not_eq_true]
  intro hupper
  have hle := Char.le_trans (CharSet.contains_range.mp h).1 (CharSet.contains_range.mp hupper).2
  exact absurd hle (by decide)

theorem read_initialCap : initialCap.read =
    (Expr.pattern (Regex.anchored (.chars upper)) : MarkupExpr).read read := read_eq initialCap

theorem read_lowercase : lowercase.read =
    (Expr.pattern (Regex.anchored (.chars lower)) : MarkupExpr).read read := read_eq lowercase

theorem read_capWord : capWord.read =
    (Expr.sequence [.rule initialCap, .oneOrMore (.rule lowercase)] : MarkupExpr).read read :=
  read_eq capWord

theorem read_link : link.read =
    (Expr.onMatch (.sequence [.rule capWord, .oneOrMore (.rule capWord)]) intoLink).read read :=
  read_eq link

/-- A text that does not start with a letter is not looked at by a link before it. -/
theorem frames_link {tail : List Char} (hupper : tail.head?.any upper.contains = false)
    (hlower : tail.head?.any lower.contains = false) : link.read.Frames tail := by
  have hcap : initialCap.read.Frames tail := read_initialCap ▸ frames_pattern read hupper
  have hlow : lowercase.read.Frames tail := read_lowercase ▸ frames_pattern read hlower
  have hword : capWord.read.Frames tail := by
    rw [read_capWord]
    apply Reader.Frames.sequence
    intro e he
    simp only [List.mem_cons, List.not_mem_nil, or_false] at he
    rcases he with rfl | rfl
    · exact hcap
    · exact hlow.oneOrMore
  rw [read_link]
  apply Reader.Frames.onMatch
  apply Reader.Frames.sequence
  intro e he
  simp only [List.mem_cons, List.not_mem_nil, or_false] at he
  rcases he with rfl | rfl
  · exact hword
  · exact hword.oneOrMore

theorem progresses_capWord : capWord.read.Progresses := by
  have hcap : initialCap.read.Progresses := by
    rw [read_initialCap]
    exact (takesOne_pattern upper read).progresses
  rw [read_capWord]
  apply Reader.Progresses.sequence
  exact hcap

theorem progresses_link : link.read.Progresses := by
  rw [read_link]
  apply Reader.Progresses.onMatch
  apply Reader.Progresses.sequence
  exact progresses_capWord

/-- A capitalized word starts with a capital letter. -/
theorem read_capWord_eq_none {cs : List Char} (h : cs.head?.any upper.contains = false) :
    capWord.read cs = none := by
  have hcap : initialCap.read cs = none := by
    rw [read_initialCap]
    cases cs with
    | nil => exact (takesOne_pattern upper read).nil
    | cons c cs => exact (takesOne_pattern upper read).stop h
  simp [read_capWord, Expr.read, Expr.readEach, hcap]

/-- A link starts with a capital letter. -/
theorem read_link_eq_none {cs : List Char} (h : cs.head?.any upper.contains = false) :
    link.read cs = none := by
  simp [read_link, Expr.read, Expr.readEach, read_capWord_eq_none h]

/-- The node of a link holds the characters that it consumed. -/
theorem node_of_read_link {cs : List Char} {r : Reading Node} (h : link.read cs = some r) :
    r.found.node = some (.link (String.ofList r.front)) := by
  rw [read_link] at h
  obtain ⟨inner, hinner, rfl⟩ := Option.map_eq_some_iff.mp h
  obtain ⟨s, _, rfl⟩ := Option.map_eq_some_iff.mp hinner
  rfl

/-! ## Texts -/

/-- Where a text goes on: not before a line end, a delimiter or a link. -/
def textGoes (cs : List Char) : Bool :=
  (lineEnd? cs).isNone && (cs.head?.bind Delimiter.ofChar?).isNone && (link.read cs).isNone

/-- Where a text stops. -/
def textStop : MarkupExpr :=
  .firstOf [.rule eol, .rule boldDelim, .rule italicsDelim, .rule link]

theorem textGoes_iff {cs : List Char} : textGoes cs = true ↔
    lineEnd? cs = none ∧ (∀ d : Delimiter, cs.head? ≠ some d.char) ∧ link.read cs = none := by
  rw [← Delimiter.head?_ofChar?_eq_none_iff]
  simp [textGoes, and_assoc]

theorem read_textStop_eq_none_iff {cs : List Char} :
    textStop.read read cs = none ↔ textGoes cs = true := by
  have hstop : textStop.read read cs = none ↔ eol.read cs = none ∧
      boldDelim.read cs = none ∧ italicsDelim.read cs = none ∧ link.read cs = none := by
    simp only [textStop, Expr.read, Expr.readFirst_cons, Expr.readFirst_nil, Option.or_none,
      Option.or_eq_none_iff]
  have hdelim (d : Delimiter) : d.delimRule.read cs = none ↔ cs.head? ≠ some d.char := by
    rw [← Option.not_isSome_iff_eq_none, isSome_read_delimRule]
  rw [hstop, textGoes_iff, read_eol_eq_none_iff]
  constructor
  · rintro ⟨hline, hstar, hslash, hlink⟩
    refine ⟨hline, fun d => (hdelim d).mp ?_, hlink⟩
    cases d
    · exact hstar
    · exact hslash
  · rintro ⟨hline, hdelims, hlink⟩
    exact ⟨hline, (hdelim .star).mpr (hdelims .star), (hdelim .slash).mpr (hdelims .slash), hlink⟩

/-- A text grows by one character at a time. -/
theorem takesOne_textRound :
    Reader.TakesOne ((Expr.sequence [.notAhead textStop, .any] : MarkupExpr).read read)
      textGoes where
  nil := by
    cases h : textStop.read read [] <;> simp [Expr.read, Expr.readEach, h]
  stop c cs h := by
    obtain ⟨r, hr⟩ := Option.ne_none_iff_exists'.mp fun hnone =>
      Bool.false_ne_true (h.symm.trans (read_textStop_eq_none_iff.mp hnone))
    simp [Expr.read, Expr.readEach, hr]
  take c cs h := by
    have hstop := read_textStop_eq_none_iff.mpr h
    refine ⟨_, by simp only [Expr.read, Expr.readEach, hstop]; rfl, ?_⟩
    simp [Stretch.cons, Stretch.empty, Reading.leaf]

/-- The reading of a text that consists of the characters in front. -/
def textReading (cut : List Char × List Char) : Reading Node :=
  ⟨⟨String.ofList cut.1, Text.byteSize cut.1, some (.text (String.ofList cut.1)), []⟩, cut.1, cut.2⟩

theorem read_text (cs : List Char) : text.read cs =
    if (splitWhile textGoes cs).1 = [] then none
    else some (textReading (splitWhile textGoes cs)) := by
  have hbody : text.read = (Expr.onMatch (.oneOrMore (.sequence [.notAhead textStop, .any]))
      intoText).read read := read_eq text
  have hround := takesOne_textRound
  obtain ⟨hfront, hrest⟩ := hround.readRounds cs
  rw [hbody, Expr.read, Expr.read]
  cases hfirst : (Expr.sequence [.notAhead textStop, .any] : MarkupExpr).read read cs with
  | none =>
    rw [readRounds_of_none hfirst] at hfront
    have hnil : (splitWhile textGoes cs).1 = [] := hfront.symm
    rw [readOneOrMore_of_none hfirst, if_pos hnil]
    rfl
  | some r =>
    obtain ⟨c, rest, rfl, hgo, hr, -⟩ := hround.of_eq_some hfirst
    have hne : r.front ≠ [] := hround.progresses hfirst
    rw [readOneOrMore_of_some hround.exact hfirst hne, if_neg (by simp [splitWhile, hgo])]
    simp only [Option.map_some, Reading.spanning, textReading, hfront, hrest]
    rfl

theorem progresses_text : text.read.Progresses := by
  intro cs r hr
  rw [read_text, Option.ite_none_left_eq_some] at hr
  obtain ⟨hne, hr⟩ := hr
  cases hr
  exact hne

/-! ## Stretches without delimiters -/

/-- A link or a text. -/
def leaf : MarkupExpr := .firstOf [.rule link, .rule text]

theorem read_leaf (cs : List Char) : leaf.read read cs = (link.read cs).or (text.read cs) := by
  simp only [leaf, Expr.read, Expr.readFirst_cons, Expr.readFirst_nil, Option.or_none]

/-- No line end starts at one of the characters when the tail follows them. -/
def Clear : List Char → List Char → Prop
  | [], _ => True
  | c :: cs, tail => lineEnd? (c :: cs ++ tail) = none ∧ Clear cs tail

@[simp] theorem clear_nil (tail : List Char) : Clear [] tail := trivial

@[simp] theorem clear_cons {c : Char} {cs tail : List Char} :
    Clear (c :: cs) tail ↔ lineEnd? (c :: cs ++ tail) = none ∧ Clear cs tail := Iff.rfl

@[simp] theorem clear_append {xs ys tail : List Char} :
    Clear (xs ++ ys) tail ↔ Clear xs (ys ++ tail) ∧ Clear ys tail := by
  induction xs with
  | nil => simp
  | cons c xs ih => simp [ih, and_assoc]

/-- No line end starts in a list without line feeds, unless its last character is a carriage return
that belongs to the line end behind. -/
theorem clear_of_not_mem {cs tail : List Char} (hlf : '\n' ∉ cs)
    (hcr : cs.getLast? = some '\r' → tail.head? ≠ some '\n') : Clear cs tail := by
  induction cs with
  | nil => trivial
  | cons c cs ih =>
    have hc : c ≠ '\n' := fun h => hlf (by simp [h])
    have hcs : '\n' ∉ cs := fun h => hlf (List.mem_cons_of_mem c h)
    refine ⟨lineEnd?_cons_eq_none hc ?_, ih hcs fun h => hcr ?_⟩
    · rintro rfl hhead
      cases cs with
      | nil => exact hcr rfl hhead
      | cons d cs => exact hcs (by simp_all)
    · cases cs with
      | nil => cases h
      | cons d cs => exact (List.getLast?_cons_cons ..).trans h

/-- A stretch of a line without delimiters, up to a delimiter or the line end. -/
structure IsRun (run tail : List Char) : Prop where
  plain : ∀ d : Delimiter, d.char ∉ run
  clear : Clear run tail
  stops : Stops tail

namespace IsRun

variable {run tail : List Char}

theorem of_append {front : List Char} (h : IsRun (front ++ run) tail) : IsRun run tail where
  plain d hd := h.plain d (List.mem_append_right _ hd)
  clear := (clear_append.mp h.clear).2
  stops := h.stops

theorem head?_tail (h : IsRun run tail) : tail.head? = none ∨ tail.head? = some '*' ∨
    tail.head? = some '/' ∨ tail.head? = some '\r' ∨ tail.head? = some '\n' := by
  rcases h.stops with ⟨d, hd⟩ | hline
  · cases d
    · exact .inr (.inl hd)
    · exact .inr (.inr (.inl hd))
  · rcases head?_of_lineEnd? hline with hnil | hcr | hlf
    · exact .inl hnil
    · exact .inr (.inr (.inr (.inl hcr)))
    · exact .inr (.inr (.inr (.inr hlf)))

theorem frames_link (h : IsRun run tail) : link.read.Frames tail := by
  apply Rule.frames_link <;>
    rcases h.head?_tail with hhead | hhead | hhead | hhead | hhead <;> rw [hhead] <;> decide

/-- A text does not go on into what follows the stretch. -/
theorem not_textGoes_tail (h : IsRun run tail) : textGoes tail = false := by
  rw [← Bool.not_eq_true, textGoes_iff]
  rintro ⟨hline, hdelim, -⟩
  rcases h.stops with ⟨d, hd⟩ | hend
  · exact hdelim d hd
  · rw [hline] at hend
    cases hend

theorem textGoes_append {c : Char} {cs : List Char} (h : IsRun (c :: cs) tail) :
    textGoes (c :: cs ++ tail) = textGoes (c :: cs) := by
  have hline := h.clear.1
  have hline' := lineEnd?_of_append hline
  have hlink := h.frames_link (c :: cs)
  rw [List.cons_append] at hline
  rw [Bool.eq_iff_iff, textGoes_iff, textGoes_iff, hlink, Option.map_eq_none_iff]
  simp [hline, hline']

theorem splitWhile_append (h : IsRun run tail) : splitWhile textGoes (run ++ tail) =
    ((splitWhile textGoes run).1, (splitWhile textGoes run).2 ++ tail) := by
  induction run with
  | nil =>
    cases tail with
    | nil => rfl
    | cons c cs => simp [splitWhile, h.not_textGoes_tail]
  | cons c cs ih =>
    have hgo := h.textGoes_append
    have htail : IsRun cs tail := of_append (List.singleton_append ▸ h)
    have hrest := ih htail
    rw [List.cons_append] at hgo ⊢
    rw [splitWhile, splitWhile, hgo, hrest]
    split <;> rfl

theorem read_text_append (h : IsRun run tail) :
    text.read (run ++ tail) = (text.read run).map (.extend tail) := by
  rw [read_text, read_text, h.splitWhile_append]
  split <;> rfl

theorem read_leaf_append (h : IsRun run tail) :
    leaf.read read (run ++ tail) = (leaf.read read run).map (.extend tail) := by
  have hlink := h.frames_link run
  rw [read_leaf, read_leaf, hlink, h.read_text_append]
  cases link.read run <;> rfl

/-- A stretch that is not empty goes on. -/
theorem not_stops (h : IsRun run tail) (hne : run ≠ []) : ¬Stops (run ++ tail) := by
  obtain ⟨c, cs, rfl⟩ := List.exists_cons_of_ne_nil hne
  rintro (⟨d, hd⟩ | hline)
  · exact h.plain d (by simp_all)
  · rw [h.clear.1] at hline
    cases hline

/-- Within a stretch a text stops at links only. -/
theorem textGoes_iff_read_link (h : IsRun run tail) (hne : run ≠ []) :
    textGoes run = true ↔ link.read run = none := by
  obtain ⟨c, cs, rfl⟩ := List.exists_cons_of_ne_nil hne
  refine ⟨fun hgo => (textGoes_iff.mp hgo).2.2, fun hlink => ?_⟩
  refine textGoes_iff.mpr ⟨lineEnd?_of_append h.clear.1, fun d hd => ?_, hlink⟩
  exact h.plain d (by simp_all)

/-- There is a leaf at the head of every stretch that is not empty. -/
theorem exists_read_leaf (h : IsRun run tail) (hne : run ≠ []) :
    ∃ r, leaf.read read run = some r ∧ r.front ≠ [] := by
  cases hlink : link.read run with
  | some r => exact ⟨r, by rw [read_leaf, hlink, Option.some_or], progresses_link hlink⟩
  | none =>
    have hgo := (h.textGoes_iff_read_link hne).mpr hlink
    obtain ⟨c, cs, rfl⟩ := List.exists_cons_of_ne_nil hne
    refine ⟨textReading (splitWhile textGoes (c :: cs)), ?_, ?_⟩
    · simp [read_leaf, hlink, read_text, splitWhile, hgo]
    · simp [textReading, splitWhile, hgo]

end IsRun

/-- The node of a leaf holds the characters that it consumed. -/
theorem node_of_read_leaf {cs : List Char} {r : Reading Node} (h : leaf.read read cs = some r) :
    r.found.node = some (.link (String.ofList r.front)) ∨
      r.found.node = some (.text (String.ofList r.front)) := by
  rw [read_leaf] at h
  rcases Option.or_eq_some_iff.mp h with hlink | ⟨-, htext⟩
  · exact .inl (node_of_read_link hlink)
  · rw [read_text, Option.ite_none_left_eq_some] at htext
    cases htext.2
    exact .inr rfl

theorem isRun_nil {tail : List Char} (h : Stops tail) : IsRun [] tail where
  plain _ hd := by cases hd
  clear := trivial
  stops := h

/-- Where a stretch stops there is neither a link nor a text. -/
theorem read_link_of_stops {cs : List Char} (h : Stops cs) : link.read cs = none := by
  apply read_link_eq_none
  rcases (isRun_nil h).head?_tail with hhead | hhead | hhead | hhead | hhead <;>
    rw [hhead] <;> decide

theorem read_text_of_stops {cs : List Char} (h : Stops cs) : text.read cs = none := by
  have hstop := (isRun_nil h).not_textGoes_tail
  cases cs with
  | nil => simp [read_text, splitWhile]
  | cons c cs => simp [read_text, splitWhile, hstop]

theorem read_leaf_of_stops {cs : List Char} (h : Stops cs) : leaf.read read cs = none := by
  rw [read_leaf, read_link_of_stops h, read_text_of_stops h]
  rfl

/-- The nodes that links and texts find in a list of characters, applied again and again. -/
def leaves (cs : List Char) : List Node :=
  match match? (.zeroOrMore leaf) (.ofList cs) with
  | some m => m.parts.filterMap Match.node
  | none => []

theorem leaves_eq (cs : List Char) : leaves cs = (readRounds (leaf.read read) cs).nodes := by
  rw [leaves, match?_eq]
  rfl

@[simp] theorem leaves_nil : leaves [] = [] := by
  rw [leaves_eq, readRounds_of_none (read_leaf_of_stops (.inr rfl))]
  rfl

theorem leaves_of_read {cs : List Char} {r : Reading Node} (h : leaf.read read cs = some r)
    (hne : r.front ≠ []) : leaves cs = r.found.node.toList ++ leaves r.rest := by
  rw [leaves_eq, leaves_eq, readRounds_of_some (exact_expr leaf) h hne, Stretch.nodes_cons]

/-- The leaves of a stretch are found one by one. -/
theorem IsRun.leaves_induction {run tail : List Char} (h : IsRun run tail)
    {motive : List Char → List Node → Prop} (nil : motive [] [])
    (step : ∀ run r, IsRun run tail → leaf.read read run = some r → r.front ≠ [] →
      motive r.rest (leaves r.rest) → motive run (r.found.node.toList ++ leaves r.rest)) :
    motive run (leaves run) := by
  by_cases hne : run = []
  · subst hne
    rw [leaves_nil]
    exact nil
  · obtain ⟨r, hr, hfront⟩ := h.exists_read_leaf hne
    have hcut := (exact_expr leaf hr).text
    have hlt : r.rest.length < run.length := (exact_expr leaf hr).length_lt_iff.mpr hfront
    have hrest : IsRun r.rest tail := by
      rw [hcut] at h
      exact h.of_append
    rw [leaves_of_read hr hfront]
    exact step run r h hr hfront (hrest.leaves_induction nil step)
termination_by run.length

/-- A stretch without capital letters is one text. -/
theorem IsRun.leaves_eq_text {run tail : List Char} (h : IsRun run tail) (hne : run ≠ [])
    (hcap : run.any upper.contains = false) : leaves run = [.text (String.ofList run)] := by
  have hsplit : splitWhile textGoes run = (run, []) := by
    clear hne
    induction run with
    | nil => rfl
    | cons c cs ih =>
      rw [List.any_cons, Bool.or_eq_false_iff] at hcap
      have hgo : textGoes (c :: cs) = true :=
        (h.textGoes_iff_read_link (List.cons_ne_nil c cs)).mpr (read_link_eq_none hcap.1)
      rw [splitWhile, hgo, ih (of_append (List.singleton_append ▸ h)) hcap.2]
      rfl
  have hread : leaf.read read run = some (textReading (run, [])) := by
    have hhead : run.head?.any upper.contains = false := by
      cases run with
      | nil => rfl
      | cons c cs => exact (Bool.or_eq_false_iff.mp hcap).1
    rw [read_leaf, read_link_eq_none hhead, read_text, hsplit, if_neg hne]
    rfl
  rw [leaves_of_read hread hne]
  simp [textReading]

/-- A word in lowercase letters is one text. -/
theorem leaves_lowercase {word : List Char} (hne : word ≠ []) (h : word.all lower.contains) :
    leaves word = [.text (String.ofList word)] := by
  have hlower : ∀ c ∈ word, lower.contains c = true := List.all_eq_true.mp h
  have hcap : word.any upper.contains = false :=
    List.any_eq_false.mpr fun c hc => by simp [not_upper_of_lower (hlower c hc)]
  have hplain : ∀ d : Delimiter, d.char ∉ word := by
    intro d hd
    have hd := hlower _ hd
    cases d <;> exact absurd hd (by decide)
  have hlf : '\n' ∉ word := fun h => absurd (hlower _ h) (by decide)
  have hclear : Clear word [] := clear_of_not_mem hlf fun _ => by simp
  have hrun : IsRun word [] := ⟨hplain, hclear, .inr rfl⟩
  exact hrun.leaves_eq_text hne hcap

/-- A reader that finds, at the head of a stretch, the node that a leaf finds there. -/
def ReadsLeaves (s : Reader Node) (tail : List Char) : Prop :=
  ∀ run r, run ≠ [] → IsRun run tail → leaf.read read (run ++ tail) = some r →
    ∃ m, s (run ++ tail) = some ⟨m, r.front, r.rest⟩ ∧ m.node = r.found.node

theorem ReadsLeaves.exists_read {s : Reader Node} {run tail : List Char} (h : ReadsLeaves s tail)
    (hrun : IsRun run tail) (hne : run ≠ []) :
    ∃ r, s (run ++ tail) = some r ∧ r.front ≠ [] := by
  obtain ⟨r, hr, hfront⟩ := hrun.exists_read_leaf hne
  have happend := hrun.read_leaf_append
  rw [hr, Option.map_some] at happend
  obtain ⟨m, hm, -⟩ := h run _ hne hrun happend
  exact ⟨_, hm, hfront⟩

/-- A repetition whose rounds find leaves in a stretch finds the leaves of the whole stretch there,
and goes on behind it. -/
theorem ReadsLeaves.readRounds {s : Reader Node} {run tail : List Char} (hs : s.Exact)
    (h : ReadsLeaves s tail) (hrun : IsRun run tail) :
    (Peg.readRounds s (run ++ tail)).nodes = leaves run ++ (Peg.readRounds s tail).nodes ∧
      (Peg.readRounds s (run ++ tail)).rest = (Peg.readRounds s tail).rest := by
  by_cases hne : run = []
  · subst hne
    simp
  · obtain ⟨r, hr, hfront⟩ := hrun.exists_read_leaf hne
    have happend := hrun.read_leaf_append
    rw [hr, Option.map_some] at happend
    obtain ⟨m, hm, hnode⟩ := h run _ hne hrun happend
    have hcut := (exact_expr leaf hr).text
    have hrest : IsRun r.rest tail := by
      rw [hcut] at hrun
      exact hrun.of_append
    have hlt : r.rest.length < run.length := (exact_expr leaf hr).length_lt_iff.mpr hfront
    obtain ⟨hnodes, hrests⟩ := ReadsLeaves.readRounds hs h hrest
    rw [readRounds_of_some hs hm hfront, leaves_of_read hr hfront]
    simp [Reading.extend, hnode, hnodes, hrests]
termination_by run.length

end Rule

end WikiMarkup
