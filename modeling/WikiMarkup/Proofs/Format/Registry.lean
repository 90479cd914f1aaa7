import WikiMarkup.Format.Registry
import WikiMarkup.Proofs.Text.Utf8

/-!
# Registries after any number of registrations

What a registry is good for is told by the formatter it finds under each name. Registering one
changes what is found under its own name and nothing else, so after any registrations each name
belongs to the formatter registered last under it, or to the one the registry had from the start.
The listed names, the test for a name and the writing of a tree all follow this one lookup.
-/

namespace WikiMarkup.Format

/-- The last of some formatters that has a name. -/
def lastNamed? (name : String) (fs : List Formatter) : Option Formatter :=
  fs.reverse.find? (·.name == name)

theorem lastNamed?_cons (name : String) (f : Formatter) (fs : List Formatter) :
    lastNamed? name (f :: fs) = (lastNamed? name fs).or (lastNamed? name [f]) := by
  rw [lastNamed?, List.reverse_cons, List.find?_append]
  rfl

theorem isSome_lastNamed?_iff {name : String} {fs : List Formatter} :
    (lastNamed? name fs).isSome ↔ name ∈ fs.map Formatter.name := by
  simp [lastNamed?]

/-- A formatter that never reports that a format is missing. -/
def Formatter.KnowsFormats (f : Formatter) : Prop :=
  ∀ n name, f.write n ≠ .error (.notFound name)

theorem knowsFormats_builtIn : ∀ f ∈ builtIn, f.KnowsFormats := by
  simp [builtIn, Formatter.KnowsFormats]

namespace Registry

variable {r start : Registry} {f : Formatter} {fs initial : List Formatter} {name : String}

/-- Register formatters one after the other. -/
def registerAll (r : Registry) (fs : List Formatter) : Registry := fs.foldl register r

/-- The registries that registrations start from, with the formatters that they have. -/
inductive Starts : Registry → List Formatter → Prop where
  | empty : Starts .empty []
  | withDefaults : Starts .withDefaults builtIn

/-! ## Lookups -/

theorem find?_insertSorted (f : Formatter) (gs : List Formatter) (name : String) :
    (insertSorted f gs).find? (·.name == name) =
      (lastNamed? name [f]).or (gs.find? (·.name == name)) := by
  induction gs with
  | nil => simp [insertSorted, lastNamed?]
  | cons g gs ih =>
    rw [insertSorted]
    split
    · rw [← List.singleton_append, List.find?_append]
      rfl
    · split
      · rename_i hlt
        by_cases hg : g.name = name
        · have hf : f.name ≠ name := fun hf => String.lt_irrefl _ (hf ▸ hg ▸ hlt)
          simp [lastNamed?, hg, hf]
        · simp [hg, ih]
      · rename_i hge hle
        have heq : f.name = g.name :=
          String.le_antisymm (String.not_lt.mp hle) (String.not_lt.mp hge)
        by_cases hg : g.name = name
        · simp [lastNamed?, heq, hg]
        · simp [lastNamed?, heq, hg]

/-- Registering changes what is found under one name. -/
theorem get?_register (r : Registry) (f : Formatter) (name : String) :
    (r.register f).get? name = (lastNamed? name [f]).or (r.get? name) :=
  find?_insertSorted f r.formatters name

theorem get?_register_of_ne (h : name ≠ f.name) : (r.register f).get? name = r.get? name := by
  rw [get?_register]
  simp [lastNamed?, h.symm]

/-- The formatter registered last under a name is found, or the one that was there before. -/
theorem get?_registerAll (r : Registry) (fs : List Formatter) (name : String) :
    (r.registerAll fs).get? name = (lastNamed? name fs).or (r.get? name) := by
  induction fs generalizing r with
  | nil => rfl
  | cons f fs ih =>
    rw [registerAll, List.foldl_cons]
    show ((r.register f).registerAll fs).get? name = _
    rw [ih, get?_register, lastNamed?_cons name f fs, Option.or_assoc]

theorem Starts.get?_eq (h : Starts start initial) (name : String) :
    start.get? name = lastNamed? name initial := by
  cases h with
  | empty => rfl
  | withDefaults =>
    show (Registry.empty.registerAll builtIn).get? name = _
    rw [get?_registerAll]
    exact Option.or_none

/-! ## Names and writing -/

theorem mem_names_iff : name ∈ r.names ↔ (r.get? name).isSome := by
  simp [names, get?]

/-- The names stand in the order of their bytes, each once. -/
theorem pairwise_names (r : Registry) :
    r.names.Pairwise fun s t => Text.bytesOf s < Text.bytesOf t :=
  r.sorted.imp Text.bytesOf_lt

/-- What a registry finds after registrations is one of its formatters. -/
theorem Starts.mem_of_get? (h : Starts start initial)
    (hf : (start.registerAll fs).get? name = some f) : f ∈ initial ++ fs := by
  rw [get?_registerAll, h.get?_eq, Option.or_eq_some_iff] at hf
  rcases hf with hf | ⟨-, hf⟩
  · exact List.mem_append_right _ (List.mem_reverse.mp (List.mem_of_find?_eq_some hf))
  · exact List.mem_append_left _ (List.mem_reverse.mp (List.mem_of_find?_eq_some hf))

/-- Whatever was registered on top of nothing or of the built-in formatters: the names are listed in
the order of their bytes, each name belongs to the formatter registered last under it, another
registration under it changes no other name, and writing a tree is that formatter's own writing, or
fails for the missing name exactly if the name is not listed. -/
theorem last_registered_wins (h : Starts start initial) (fs : List Formatter) :
    let r := start.registerAll fs
    r.names.Pairwise (fun s t => Text.bytesOf s < Text.bytesOf t) ∧
    (∀ name, name ∈ r.names ↔
      name ∈ initial.map Formatter.name ∨ name ∈ fs.map Formatter.name) ∧
    (∀ name, (r.has name ↔ name ∈ r.names) ∧ ((r.get? name).isSome ↔ name ∈ r.names)) ∧
    (∀ name, r.get? name = (lastNamed? name fs).or (lastNamed? name initial)) ∧
    (∀ n name, r.serialize n name =
      match (lastNamed? name fs).or (lastNamed? name initial) with
      | some f => f.write n
      | none => .error (.notFound name)) ∧
    (∀ f name, name ≠ f.name → (r.register f).get? name = r.get? name ∧
      ∀ n, (r.register f).serialize n name = r.serialize n name) ∧
    ((∀ f ∈ fs, f.KnowsFormats) → ∀ n name,
      r.serialize n name = .error (.notFound name) ↔ name ∉ r.names) := by
  intro r
  have hget (name : String) : r.get? name = (lastNamed? name fs).or (lastNamed? name initial) := by
    rw [get?_registerAll, h.get?_eq]
  refine ⟨pairwise_names r, fun name => ?_, fun name => ?_, hget, fun n name => ?_, ?_, ?_⟩
  · rw [mem_names_iff, hget, Option.isSome_or, Bool.or_eq_true, isSome_lastNamed?_iff,
      isSome_lastNamed?_iff, Or.comm]
  · rw [has, mem_names_iff]
    exact ⟨Iff.rfl, Iff.rfl⟩
  · change (match r.get? name with
      | some f => f.write n
      | none => .error (.notFound name)) = _
    rw [hget]
  · intro f name hne
    have hother := get?_register_of_ne (r := r) hne
    refine ⟨hother, fun n => ?_⟩
    rw [serialize, serialize, hother]
  · intro hknows n name
    have hall : ∀ f ∈ initial ++ fs, f.KnowsFormats := by
      intro f hf
      rcases List.mem_append.mp hf with hf | hf
      · cases h with
        | empty => exact absurd hf List.not_mem_nil
        | withDefaults => exact knowsFormats_builtIn f hf
      · exact hknows f hf
    rw [mem_names_iff, serialize]
    cases hfound : r.get? name with
    | none => simp
    | some f => simpa using hall f (h.mem_of_get? hfound) n name

/-- A built-in format replaced by a formatter that fails, and a name that precedes all others. -/
theorem last_registered_wins_html :
    let first : Formatter := { name := "html", write := fun _ => .ok "" }
    let second : Formatter := { name := "html", write := fun _ => .error (.serialization "no") }
    let upper : Formatter := { name := "Z", write := fun _ => .ok "z" }
    let r := withDefaults.registerAll [first, upper, second]
    r.names = ["Z", "html", "json", "tag", "treeviz", "yaml"] ∧
    r.serialize (.text "a") "html" = .error (.serialization "no") ∧
    r.serialize (.text "a") "json" = withDefaults.serialize (.text "a") "json" ∧
    (∀ n, r.serialize n "pdf" = .error (.notFound "pdf")) := by
  intro first second upper r
  obtain ⟨-, -, -, -, hwrite, -, hmissing⟩ :=
    last_registered_wins Starts.withDefaults [first, upper, second]
  have hknows : ∀ f ∈ [first, upper, second], f.KnowsFormats := by
    simp [first, upper, second, Formatter.KnowsFormats]
  have hnames : r.names = ["Z", "html", "json", "tag", "treeviz", "yaml"] := by decide +kernel
  refine ⟨hnames, hwrite _ "html", hwrite _ "json", fun n => (hmissing hknows n "pdf").mpr ?_⟩
  rw [show (withDefaults.registerAll [first, upper, second]).names = _ from hnames]
  decide

end Registry

end WikiMarkup.Format
