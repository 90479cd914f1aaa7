import WikiMarkup.Node.Inspect

/-!
# Expectations about a tree

A list of expectations is checked in order against a node, and stops at the first one that fails.
An expectation may look at a child, with expectations of its own. A failure names the path to the
node, such as `document[1][0]`, and what was found there.
-/

namespace WikiMarkup

inductive Expectation where
  | kind (kind : Node.Kind)
  | childCount (count : Nat)
  /-- Expectations about one child. -/
  | child (index : Nat) (inner : List Expectation)
  /-- The kinds of all children in order. -/
  | childKinds (kinds : List Node.Kind)
  /-- The plain text of the tree. -/
  | text (text : String)
  | textContains (part : String)
  | headerLevel (level : HeaderLevel)
  | hasLink (target : String)
  | hasNoLinks

namespace Expectation

/-- How a node differs from an expectation. -/
inductive Mismatch where
  | kind (expected : Node.Kind) (found : Node)
  | childCount (expected : Nat) (found : List Node.Kind)
  | noChild (index count : Nat)
  | childKinds (expected found : List Node.Kind)
  | text (expected found : String)
  | textLacks (part found : String)
  | headerLevel (expected found : HeaderLevel)
  | notHeader (found : Node)
  | linkMissing (target : String) (found : Node)
  | linkPresent (found : Node)

/-- A mismatch at the end of a path. -/
structure Failure where
  path : String
  mismatch : Mismatch

def inspectKinds (kinds : List Node.Kind) : String :=
  "[" ++ ", ".intercalate (kinds.map (·.inspect)) ++ "]"

/-- A message about two things that should have been equal. -/
def unequal (context found expected : String) : String :=
  s!"assertion `left == right` failed: {context}\n  left: {found}\n right: {expected}"

def Failure.message (f : Failure) : String :=
  match f.mismatch with
  | .kind expected found =>
    unequal s!"{f.path}: Expected a {expected.name} node, found {found.inspect}"
      found.kind.inspect expected.inspect
  | .childCount expected found =>
    let names := ", ".intercalate (found.map (·.name))
    unequal s!"{f.path}: Expected {expected} children, found {found.length}: [{names}]"
      (toString found.length) (toString expected)
  | .noChild index count => s!"{f.path}: Child index {index} out of bounds ({count} children)"
  | .childKinds expected found =>
    unequal s!"{f.path}: Unexpected child kinds" (inspectKinds found) (inspectKinds expected)
  | .text expected found =>
    unequal s!"{f.path}: Expected text {Text.quote expected}, found {Text.quote found}"
      (Text.quote found) (Text.quote expected)
  | .textLacks part found =>
    s!"{f.path}: Expected text to contain {Text.quote part}, found {Text.quote found}"
  | .headerLevel expected found =>
    unequal s!"{f.path}: Expected header level {expected.inspect}, found {found.inspect}"
      found.inspect expected.inspect
  | .notHeader found => s!"{f.path}: Expected a header, found {found.inspect}"
  | .linkMissing target found => s!"{f.path}: No link to {Text.quote target} in {found.inspect}"
  | .linkPresent found => s!"{f.path}: Expected no links in {found.inspect}"

/-- Whether a list of characters occurs in another without gaps. -/
def occursIn (part : List Char) : List Char → Bool
  | [] => part.isEmpty
  | c :: cs => part.isPrefixOf (c :: cs) || occursIn part cs

/-- What an expectation that is not about a child finds wrong with a node. -/
def mismatch? (n : Node) : Expectation → Option Mismatch
  | .kind k => if n.kind = k then none else some (.kind k n)
  | .childCount count =>
    if n.children.length = count then none
    else some (.childCount count (n.children.map Node.kind))
  | .child index _ =>
    if index < n.children.length then none else some (.noChild index n.children.length)
  | .childKinds kinds =>
    let found := n.children.map Node.kind
    if found = kinds then none else some (.childKinds kinds found)
  | .text s => if n.plainText = s then none else some (.text s n.plainText)
  | .textContains part =>
    if occursIn part.toList n.plainText.toList then none else some (.textLacks part n.plainText)
  | .headerLevel level =>
    match n with
    | .header found _ => if found = level then none else some (.headerLevel level found)
    | _ => some (.notHeader n)
  | .hasLink target => if n.hasLink target then none else some (.linkMissing target n)
  | .hasNoLinks => if n.hasSomeLink then some (.linkPresent n) else none

/-- How many expectations were met, those inside others included, and what ended the check. -/
structure Verdict where
  passed : Nat
  failure : Option Failure

mutual

/-- Check one expectation, after `passed` others have been met. -/
def checkOne (path : String) (n : Node) (passed : Nat) : Expectation → Verdict
  | .child index inner =>
    match n.children[index]? with
    | none => ⟨passed, some ⟨path, .noChild index n.children.length⟩⟩
    | some c =>
      match check s!"{path}[{index}]" c passed inner with
      | ⟨passed, none⟩ => ⟨passed + 1, none⟩
      | verdict => verdict
  | e =>
    match mismatch? n e with
    | none => ⟨passed + 1, none⟩
    | some m => ⟨passed, some ⟨path, m⟩⟩

/-- Check expectations in order up to the first that fails. -/
def check (path : String) (n : Node) (passed : Nat) : List Expectation → Verdict
  | [] => ⟨passed, none⟩
  | e :: es =>
    match checkOne path n passed e with
    | ⟨passed, none⟩ => check path n passed es
    | verdict => verdict

end

/-- Check expectations about a whole tree; paths begin with the kind of its root. -/
def checkTree (n : Node) (es : List Expectation) : Verdict := check n.kind.name n 0 es

end Expectation

end WikiMarkup
