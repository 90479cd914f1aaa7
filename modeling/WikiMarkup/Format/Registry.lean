import WikiMarkup.Format.Html
import WikiMarkup.Format.Tag
import WikiMarkup.Format.Outline
import WikiMarkup.Format.Json
import WikiMarkup.Format.Yaml

/-!
# Formats by name

A formatter turns a tree into text, or fails. A registry holds formatters by their names, at most
one of each name, in the order of the names; registering a formatter replaces the one of its name.
-/

namespace WikiMarkup.Format

/-- Why a tree could not be written. -/
inductive FormatError where
  | notFound (name : String)
  | serialization (message : String)
deriving DecidableEq, Repr

def FormatError.message : FormatError → String
  | .notFound name => s!"Format '{name}' not found"
  | .serialization message => s!"Serialization error: {message}"

structure Formatter where
  name : String
  description : String := ""
  write : Node → Except FormatError String

def builtIn : List Formatter :=
  [{ name := "html", description := "HTML page body", write := fun n => .ok (html n) },
   { name := "tag", description := "XML-like tree of document nodes"
     write := fun n => .ok (tag n) },
   { name := "treeviz"
     description := "Visual tree representation with indentation and Unicode icons"
     write := fun n => .ok (outline n) },
   { name := "json", description := "Document tree as pretty-printed JSON"
     write := fun n => .ok (json n) },
   { name := "yaml", description := "Document tree as YAML", write := fun n => .ok (yaml n) }]

/-- Formatters in the order of their names, each name once. -/
structure Registry where
  formatters : List Formatter
  sorted : (formatters.map Formatter.name).Pairwise (· < ·)

namespace Registry

/-- Put a formatter in its place among the others. -/
def insertSorted (f : Formatter) : List Formatter → List Formatter
  | [] => [f]
  | g :: gs =>
    if f.name < g.name then f :: g :: gs
    else if g.name < f.name then g :: insertSorted f gs
    else f :: gs

theorem mem_name_insertSorted {f : Formatter} {gs : List Formatter} {name : String}
    (h : name ∈ (insertSorted f gs).map Formatter.name) :
    name = f.name ∨ name ∈ gs.map Formatter.name := by
  induction gs with
  | nil => simpa [insertSorted] using h
  | cons g gs ih =>
    rw [insertSorted] at h
    split at h
    · simpa using h
    · split at h
      · rw [List.map_cons, List.mem_cons] at h
        rcases h with h | h
        · simp [h]
        · rcases ih h with h | h
          · exact .inl h
          · exact .inr (List.mem_cons_of_mem _ h)
      · rw [List.map_cons, List.mem_cons] at h
        rcases h with h | h
        · exact .inl h
        · exact .inr (List.mem_cons_of_mem _ h)

theorem sorted_insertSorted {f : Formatter} {gs : List Formatter}
    (h : (gs.map Formatter.name).Pairwise (· < ·)) :
    ((insertSorted f gs).map Formatter.name).Pairwise (· < ·) := by
  induction gs with
  | nil => simp [insertSorted]
  | cons g gs ih =>
    rw [List.map_cons, List.pairwise_cons] at h
    rw [insertSorted]
    split
    · rename_i hlt
      rw [List.map_cons, List.map_cons, List.pairwise_cons]
      refine ⟨fun name hname => ?_, List.pairwise_cons.mpr h⟩
      rcases List.mem_cons.mp hname with rfl | hname
      · exact hlt
      · exact String.lt_trans hlt (h.1 name hname)
    · split
      · rename_i hlt
        rw [List.map_cons, List.pairwise_cons]
        refine ⟨fun name hname => ?_, ih h.2⟩
        rcases mem_name_insertSorted hname with rfl | hname
        · exact hlt
        · exact h.1 name hname
      · rename_i hge hle
        have heq : f.name = g.name :=
          String.le_antisymm (String.not_lt.mp hle) (String.not_lt.mp hge)
        rw [List.map_cons, List.pairwise_cons, heq]
        exact h

def empty : Registry := ⟨[], by simp⟩

def register (r : Registry) (f : Formatter) : Registry :=
  ⟨insertSorted f r.formatters, sorted_insertSorted r.sorted⟩

/-- The registry of the built-in formats. -/
def withDefaults : Registry := builtIn.foldl register empty

def get? (r : Registry) (name : String) : Option Formatter :=
  r.formatters.find? (·.name == name)

def has (r : Registry) (name : String) : Bool := (r.get? name).isSome

/-- The names of all formats, in order. -/
def names (r : Registry) : List String := r.formatters.map (·.name)

/-- Write a tree in the format of a name. -/
def serialize (r : Registry) (n : Node) (name : String) : Except FormatError String :=
  match r.get? name with
  | some f => f.write n
  | none => .error (.notFound name)

end Registry

end WikiMarkup.Format
