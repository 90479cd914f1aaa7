import WikiMarkup.Cursor
import WikiMarkup.Regex.Basic
import WikiMarkup.Peg.Match

/-!
# Parsing expressions

An expression is applied at a cursor and either fails or yields a match. Choice is ordered,
repetition is greedy and never given back, lookahead consumes nothing. An expression may carry
transforms, which turn the match of an inner expression into a node of the grammar's own type `ν`
and may report events of type `ε`; and it may refer to rules by names of type `ρ`.

`Expr.run` says what an expression does, given what each rule does. Every place it asks for is
checked, so a place off the text would show as a `Stop`. Nothing is remembered between two
applications at the same place, and events are reported in the order of the transforms, also by
lookahead and by branches that are given up later.
-/

namespace WikiMarkup.Peg

variable {ρ ν ε : Type}

/-- What a grammar does with a match: the node and the parts of the result replace those of the
match, its text and its consumption stay, and the events are reported. -/
abbrev Transform (ν ε : Type) := Match ν → Match ν × List ε

inductive Expr (ρ ν ε : Type) where
  /-- One character, whichever it is. -/
  | any
  /-- The end of the text. -/
  | endOfText
  | literal (text : String)
  /-- A match of the pattern that begins right here. -/
  | pattern (regex : Regex)
  /-- Succeeds without consuming where the inner expression fails. -/
  | notAhead (body : Expr ρ ν ε)
  /-- The inner match, with nothing consumed. -/
  | ahead (body : Expr ρ ν ε)
  | sequence (elements : List (Expr ρ ν ε))
  | firstOf (alternatives : List (Expr ρ ν ε))
  | zeroOrMore (body : Expr ρ ν ε)
  | oneOrMore (body : Expr ρ ν ε)
  | onMatch (body : Expr ρ ν ε) (transform : Transform ν ε)
  | rule (name : ρ)

/-- Why an application ends without an answer. -/
inductive Stop where
  /-- A place or stretch off the text was asked for. -/
  | fault (fault : Cursor.Fault)
  /-- Rules were nested more deeply than the bound allows. -/
  | tooDeep
deriving DecidableEq, Repr

/-- The answer of an application, with the events reported on the way. -/
structure Reply (α ε : Type) where
  value : α
  events : List ε

/-- A parser finds a match at a cursor, or does not. -/
abbrev Parser (ν ε : Type) := Cursor → Except Stop (Reply (Option (Match ν)) ε)

namespace Reply

def fail : Reply (Option (Match ν)) ε := ⟨none, []⟩

def succeed (m : Match ν) : Reply (Option (Match ν)) ε := ⟨some m, []⟩

end Reply

/-- The next `size` bytes, as a match that consumes them. -/
def take (c : Cursor) (size : Nat) : Except Stop (Reply (Option (Match ν)) ε) :=
  match c.slice size with
  | .ok text => .ok (.succeed (.leaf text size))
  | .error f => .error (.fault f)

/-- A match of several parts in a row, which consumed `consumed` bytes from `c` on. -/
def span (c : Cursor) (consumed : Nat) (parts : List (Match ν)) (events : List ε) :
    Except Stop (Reply (Option (Match ν)) ε) :=
  match c.slice consumed with
  | .ok text => .ok ⟨some ⟨text, consumed, none, parts⟩, events⟩
  | .error f => .error (.fault f)

/-- What a repetition has gathered: its rounds with the latest first, and their bytes. -/
structure Rounds (ν : Type) where
  parts : List (Match ν)
  consumed : Nat

/-- Apply a parser again and again, each time where the last round ended, until it fails or
consumes nothing. A round that consumes nothing is not recorded. -/
def repeatFrom (p : Parser ν ε) (c : Cursor) (gathered : Rounds ν) (events : List ε) :
    Except Stop (Reply (Rounds ν) ε) :=
  match p c with
  | .error s => .error s
  | .ok ⟨none, new⟩ => .ok ⟨gathered, events ++ new⟩
  | .ok ⟨some m, new⟩ =>
    if hm : m.consumed = 0 then .ok ⟨gathered, events ++ new⟩
    else
      match hc : c.advance m.consumed with
      | .error f => .error (.fault f)
      | .ok c' =>
        have := Cursor.length_rest_lt_of_advance hc (Nat.pos_of_ne_zero hm)
        repeatFrom p c' ⟨m :: gathered.parts, gathered.consumed + m.consumed⟩ (events ++ new)
termination_by c.rest.length

/-- Zero or more rounds of a parser. -/
def zeroOrMore (p : Parser ν ε) : Parser ν ε := fun c =>
  match repeatFrom p c ⟨[], 0⟩ [] with
  | .error s => .error s
  | .ok ⟨rounds, events⟩ => span c rounds.consumed rounds.parts.reverse events

/-- One or more rounds of a parser. A first round that consumes nothing is the only one. -/
def oneOrMore (p : Parser ν ε) : Parser ν ε := fun c =>
  match p c with
  | .error s => .error s
  | .ok ⟨none, events⟩ => .ok ⟨none, events⟩
  | .ok ⟨some first, events⟩ =>
    if first.consumed = 0 then .ok ⟨some ⟨"", 0, none, [first]⟩, events⟩
    else
      match c.advance first.consumed with
      | .error f => .error (.fault f)
      | .ok c' =>
        match repeatFrom p c' ⟨[first], first.consumed⟩ events with
        | .error s => .error s
        | .ok ⟨rounds, events⟩ => span c rounds.consumed rounds.parts.reverse events

/-- Put the result of a transform in place of a match. -/
def Match.transformed (m : Match ν) (transform : Transform ν ε) : Match ν × List ε :=
  let (new, events) := transform m
  ({ m with node := new.node, parts := new.parts }, events)

mutual

/-- Apply an expression, given the parser of each rule. -/
def Expr.run (env : ρ → Parser ν ε) : Expr ρ ν ε → Parser ν ε
  | .any, c =>
    match c.rest with
    | [] => .ok .fail
    | ch :: _ => take c ch.utf8Size
  | .endOfText, c => .ok (if c.isAtEnd then .succeed .empty else .fail)
  | .literal text, c =>
    if text.toList.isPrefixOf c.rest then take c text.utf8ByteSize else .ok .fail
  | .pattern regex, c =>
    match regex.find? c.rest with
    | some (0, length) => take c (Text.byteSize (c.rest.take length))
    | _ => .ok .fail
  | .notAhead body, c =>
    match body.run env c with
    | .error s => .error s
    | .ok ⟨some _, events⟩ => .ok ⟨none, events⟩
    | .ok ⟨none, events⟩ => .ok ⟨some .empty, events⟩
  | .ahead body, c =>
    match body.run env c with
    | .error s => .error s
    | .ok ⟨some m, events⟩ => .ok ⟨some { m with consumed := 0 }, events⟩
    | .ok ⟨none, events⟩ => .ok ⟨none, events⟩
  | .sequence elements, c =>
    match Expr.runEach env elements c with
    | .error s => .error s
    | .ok ⟨none, events⟩ => .ok ⟨none, events⟩
    | .ok ⟨some parts, events⟩ =>
      span c (parts.foldl (fun n part => n + part.consumed) 0) parts events
  | .firstOf alternatives, c => Expr.runFirst env alternatives c
  | .zeroOrMore body, c => Peg.zeroOrMore (body.run env) c
  | .oneOrMore body, c => Peg.oneOrMore (body.run env) c
  | .onMatch body transform, c =>
    match body.run env c with
    | .error s => .error s
    | .ok ⟨none, events⟩ => .ok ⟨none, events⟩
    | .ok ⟨some m, events⟩ =>
      let (m, new) := m.transformed transform
      .ok ⟨some m, events ++ new⟩
  | .rule name, c => env name c

/-- Apply expressions one after another, each where the one before it stopped. -/
def Expr.runEach (env : ρ → Parser ν ε) :
    List (Expr ρ ν ε) → Cursor → Except Stop (Reply (Option (List (Match ν))) ε)
  | [], _ => .ok ⟨some [], []⟩
  | e :: es, c =>
    match e.run env c with
    | .error s => .error s
    | .ok ⟨none, events⟩ => .ok ⟨none, events⟩
    | .ok ⟨some m, events⟩ =>
      match c.advance m.consumed with
      | .error f => .error (.fault f)
      | .ok c' =>
        match Expr.runEach env es c' with
        | .error s => .error s
        | .ok ⟨parts, new⟩ => .ok ⟨parts.map (m :: ·), events ++ new⟩

/-- Apply expressions at the same place until one matches. -/
def Expr.runFirst (env : ρ → Parser ν ε) : List (Expr ρ ν ε) → Parser ν ε
  | [], _ => .ok .fail
  | e :: es, c =>
    match e.run env c with
    | .error s => .error s
    | .ok ⟨some m, events⟩ => .ok ⟨some m, events⟩
    | .ok ⟨none, events⟩ =>
      match Expr.runFirst env es c with
      | .error s => .error s
      | .ok ⟨m, new⟩ => .ok ⟨m, events ++ new⟩

end

end WikiMarkup.Peg
