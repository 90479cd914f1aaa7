import WikiMarkup.Proofs.Rules.Marker

/-!
# Markup of a tree

A tree is written as markup with every span closed, one space behind the marker of a header and a
line end behind every block.
-/

namespace WikiMarkup

namespace Node

mutual

/-- The characters of a tree as markup. -/
def markup : Node → List Char
  | .text s => s.toList
  | .link s => s.toList
  | .bold cs => '*' :: (markups cs ++ ['*'])
  | .italics cs => '/' :: (markups cs ++ ['/'])
  | .header level cs => level.marker ++ ' ' :: markups cs
  | .paragraph cs => markups cs
  | .document cs => lineMarkups cs

/-- Nodes one after another. -/
def markups : List Node → List Char
  | [] => []
  | n :: ns => n.markup ++ markups ns

/-- Nodes with a line end behind each. -/
def lineMarkups : List Node → List Char
  | [] => []
  | n :: ns => n.markup ++ '\r' :: '\n' :: lineMarkups ns

end

/-- The markup of a tree as a text. -/
def unparse (n : Node) : String := String.ofList n.markup

@[simp] theorem markups_append (xs ys : List Node) :
    markups (xs ++ ys) = markups xs ++ markups ys := by
  induction xs with
  | nil => rfl
  | cons n xs ih => rw [List.cons_append, markups, markups, ih, List.append_assoc]

@[simp] theorem markups_singleton (n : Node) : markups [n] = n.markup := List.append_nil _

end Node

end WikiMarkup
