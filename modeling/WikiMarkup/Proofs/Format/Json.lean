import WikiMarkup.Format.Registry
import WikiMarkup.Proofs.Format.JsonTokens
import WikiMarkup.Proofs.Node.Container

/-!
# Reading trees back from JSON

A reader of JSON makes a value of the tokens of a text, with a stack of the arrays and objects that
are still open. What the writer writes of a value is read as this value, for the blanks between the
tokens do not count and the tokens can be told apart. So a tree can be read back from its text by
the names of its nodes.
-/

namespace WikiMarkup

namespace Json

/-! ## Values -/

/-- What a text in JSON says. -/
inductive Value where
  | scalar (s : Scalar)
  | string (s : String)
  | array (items : List Value)
  | object (members : List (String × Value))

/-- An array or object that is still open, with what came before the value at hand. -/
inductive Frame where
  | array (before : List Value)
  | object (before : List (String × Value)) (key : String)

mutual

/-- Read a value inside the open arrays and objects, the innermost first. -/
def readValue? (outer : List Frame) : List Token → Option Value
  | .scalar s :: ts => readRest? (.scalar s) outer ts
  | .string s :: ts => readRest? (.string s) outer ts
  | .beginArray :: .endArray :: ts => readRest? (.array []) outer ts
  | .beginArray :: ts => readValue? (.array [] :: outer) ts
  | .beginObject :: .endObject :: ts => readRest? (.object []) outer ts
  | .beginObject :: ts => readMember? [] outer ts
  | _ => none

/-- Read a member of an object, behind the members before it. -/
def readMember? (before : List (String × Value)) (outer : List Frame) :
    List Token → Option Value
  | .string key :: .colon :: ts => readValue? (.object before key :: outer) ts
  | _ => none

/-- Go on behind a value. -/
def readRest? (v : Value) : List Frame → List Token → Option Value
  | [], [] => some v
  | .array before :: outer, .comma :: ts => readValue? (.array (before ++ [v]) :: outer) ts
  | .array before :: outer, .endArray :: ts => readRest? (.array (before ++ [v])) outer ts
  | .object before key :: outer, .comma :: ts => readMember? (before ++ [(key, v)]) outer ts
  | .object before key :: outer, .endObject :: ts =>
    readRest? (.object (before ++ [(key, v)])) outer ts
  | _, _ => none

end

/-- The value that a text is. -/
def read? (text : String) : Option Value := (tokens? text.toList).bind (readValue? [])

mutual

/-- A value that is to be written, as it is read. -/
def value : Json → Value
  | .null => .scalar .null
  | .bool b => .scalar (.bool b)
  | .number n => .scalar (.number ⟨n < 0, n.natAbs, 0⟩)
  | .string s => .string s
  | .array items => .array (values items)
  | .object members => .object (memberValues members)

def values : List Json → List Value
  | [] => []
  | item :: items => item.value :: values items

def memberValues : List (String × Json) → List (String × Value)
  | [] => []
  | (key, item) :: members => (key, item.value) :: memberValues members

end

/-! ## What is written -/

mutual

/-- The characters of a value whose first line stands at `level`. -/
def chars (level : Nat) : Json → List Char
  | .null => "null".toList
  | .bool b => (if b then "true" else "false").toList
  | .number n => (toString n).toList
  | .string s => (escape s).toList
  | .array [] => ['[', ']']
  | .array (item :: items) =>
    '[' :: ((newLine (level + 1)).toList ++ (item.chars (level + 1) ++
      (laterChars (level + 1) items ++ ((newLine level).toList ++ [']']))))
  | .object [] => ['\x7b', '\x7d']
  | .object ((key, item) :: members) =>
    '\x7b' :: ((newLine (level + 1)).toList ++ ((escape key).toList ++ (':' :: ' ' ::
      (item.chars (level + 1) ++ (laterMemberChars (level + 1) members ++
        ((newLine level).toList ++ ['\x7d']))))))

/-- The items of an array behind the first. -/
def laterChars (level : Nat) : List Json → List Char
  | [] => []
  | item :: items =>
    ',' :: ((newLine level).toList ++ (item.chars level ++ laterChars level items))

/-- The members of an object behind the first. -/
def laterMemberChars (level : Nat) : List (String × Json) → List Char
  | [] => []
  | (key, item) :: members =>
    ',' :: ((newLine level).toList ++ ((escape key).toList ++ (':' :: ' ' ::
      (item.chars level ++ laterMemberChars level members))))

end

mutual

theorem toList_append (level : Nat) : ∀ (j : Json) (out : String),
    (j.append level out).toList = out.toList ++ j.chars level
  | .null, out => by simp [append, chars]
  | .bool b, out => by simp [append, chars]
  | .number n, out => by simp [append, chars]
  | .string s, out => by simp [append, chars]
  | .array [], out => by simp [append, chars]
  | .array (item :: items), out => by
    simp [append, chars, toList_append (level + 1) item, toList_appendItems (level + 1) items]
  | .object [], out => by simp [append, chars]
  | .object ((key, item) :: members), out => by
    simp [append, chars, toList_append (level + 1) item, toList_appendMembers (level + 1) members]

theorem toList_appendItems (level : Nat) : ∀ (items : List Json) (out : String),
    (appendItems level items out).toList = out.toList ++ laterChars level items
  | [], out => by simp [appendItems, laterChars]
  | item :: items, out => by
    simp [appendItems, laterChars, toList_append level item, toList_appendItems level items]

theorem toList_appendMembers (level : Nat) : ∀ (members : List (String × Json)) (out : String),
    (appendMembers level members out).toList = out.toList ++ laterMemberChars level members
  | [], out => by simp [appendMembers, laterMemberChars]
  | (key, item) :: members, out => by
    simp [appendMembers, laterMemberChars, toList_append level item,
      toList_appendMembers level members]

end

/-! ## Which tokens were written -/

mutual

def tokens : Json → List Token
  | .null => [.scalar .null]
  | .bool b => [.scalar (.bool b)]
  | .number n => [.scalar (.number ⟨n < 0, n.natAbs, 0⟩)]
  | .string s => [.string s]
  | .array [] => [.beginArray, .endArray]
  | .array (item :: items) => .beginArray :: (item.tokens ++ (laterTokens items ++ [.endArray]))
  | .object [] => [.beginObject, .endObject]
  | .object ((key, item) :: members) =>
    .beginObject :: .string key :: .colon ::
      (item.tokens ++ (laterMemberTokens members ++ [.endObject]))

def laterTokens : List Json → List Token
  | [] => []
  | item :: items => .comma :: (item.tokens ++ laterTokens items)

def laterMemberTokens : List (String × Json) → List Token
  | [] => []
  | (key, item) :: members =>
    .comma :: .string key :: .colon :: (item.tokens ++ laterMemberTokens members)

end

theorem endsWord_cons {c : Char} (h : inWord c = false) (cs : List Char) : EndsWord (c :: cs) := by
  intro d hd
  cases hd
  exact h

theorem endsWord_newLine (level : Nat) (cs : List Char) :
    EndsWord ((newLine level).toList ++ cs) := by
  rw [newLine, Format.toList_pushn]
  exact endsWord_cons (by decide) _

theorem endsWord_laterChars (level : Nat) (items : List Json) {cs : List Char} (h : EndsWord cs) :
    EndsWord (laterChars level items ++ cs) := by
  cases items with
  | nil => exact h
  | cons item items => exact endsWord_cons (by decide) _

theorem endsWord_laterMemberChars (level : Nat) (members : List (String × Json)) {cs : List Char}
    (h : EndsWord cs) : EndsWord (laterMemberChars level members ++ cs) := by
  match members with
  | [] => exact h
  | (_, _) :: _ => exact endsWord_cons (by decide) _

/-- A key with the colon and the blank behind it. -/
theorem tokens?_key (key : String) (cs : List Char) :
    tokens? ((escape key).toList ++ ':' :: ' ' :: cs) =
      (tokens? cs).map (.string key :: .colon :: ·) := by
  rw [tokens?_escape, tokens?_mark rfl, tokens?_blank rfl, Option.map_map]
  rfl

mutual

/-- A value that was written is cut into its tokens, if nothing behind it makes its last word
longer. -/
theorem tokens?_chars (level : Nat) : ∀ (j : Json) {cs : List Char}, EndsWord cs →
    tokens? (j.chars level ++ cs) = (tokens? cs).map (j.tokens ++ ·)
  | .null, _, hend => tokens?_word rfl rfl hend
  | .bool true, _, hend => tokens?_word rfl rfl hend
  | .bool false, _, hend => tokens?_word rfl rfl hend
  | .number n, _, hend => tokens?_toString n hend
  | .string s, cs, _ => tokens?_escape s cs
  | .array [], cs, _ => by
    have hclose := tokens?_mark (c := ']') rfl cs
    rw [chars, List.cons_append, List.singleton_append, tokens?_mark rfl, hclose, Option.map_map]
    rfl
  | .array (item :: items), cs, _ => by
    have hclose := tokens?_mark (c := ']') rfl cs
    -- A comma or a line feed comes behind each item, so no word runs on into what follows.
    have hline := endsWord_newLine level (']' :: cs)
    have hitem := tokens?_chars (level + 1) item (endsWord_laterChars (level + 1) items hline)
    have hitems := tokens?_laterChars (level + 1) items hline
    simp only [chars, tokens, List.cons_append, List.append_assoc, List.nil_append,
      tokens?_newLine, hitem, hitems, hclose, tokens?_mark (c := '[') rfl, Option.map_map,
      Function.comp_def]
  | .object [], cs, _ => by
    have hclose := tokens?_mark (c := '\x7d') rfl cs
    rw [chars, List.cons_append, List.singleton_append, tokens?_mark rfl, hclose, Option.map_map]
    rfl
  | .object ((key, item) :: members), cs, _ => by
    have hclose := tokens?_mark (c := '\x7d') rfl cs
    have hline := endsWord_newLine level ('\x7d' :: cs)
    have hmore := endsWord_laterMemberChars (level + 1) members hline
    have hitem := tokens?_chars (level + 1) item hmore
    have hmembers := tokens?_laterMemberChars (level + 1) members hline
    simp only [chars, tokens, List.cons_append, List.append_assoc, List.nil_append,
      tokens?_newLine, tokens?_key, hitem, hmembers, hclose, tokens?_mark (c := '\x7b') rfl,
      Option.map_map, Function.comp_def]

theorem tokens?_laterChars (level : Nat) : ∀ (items : List Json) {cs : List Char}, EndsWord cs →
    tokens? (laterChars level items ++ cs) = (tokens? cs).map (laterTokens items ++ ·)
  | [], cs, _ => by simp [laterChars, laterTokens]
  | item :: items, cs, hend => by
    have hitem := tokens?_chars level item (endsWord_laterChars level items hend)
    have hitems := tokens?_laterChars level items hend
    simp only [laterChars, laterTokens, List.cons_append, List.append_assoc,
      tokens?_newLine, hitem, hitems, tokens?_mark (c := ',') rfl, Option.map_map,
      Function.comp_def]

theorem tokens?_laterMemberChars (level : Nat) : ∀ (members : List (String × Json))
    {cs : List Char}, EndsWord cs → tokens? (laterMemberChars level members ++ cs) =
      (tokens? cs).map (laterMemberTokens members ++ ·)
  | [], cs, _ => by simp [laterMemberChars, laterMemberTokens]
  | (key, item) :: members, cs, hend => by
    have hitem := tokens?_chars level item (endsWord_laterMemberChars level members hend)
    have hmembers := tokens?_laterMemberChars level members hend
    simp only [laterMemberChars, laterMemberTokens, List.cons_append, List.append_assoc,
      tokens?_newLine, tokens?_key, hitem, hmembers, tokens?_mark (c := ',') rfl, Option.map_map,
      Function.comp_def]

end

/-! ## Which value was written -/

/-- No value begins with a closing bracket. -/
theorem head?_tokens (j : Json) (ts : List Token) : (j.tokens ++ ts).head? ≠ some .endArray := by
  match j with
  | .null | .bool _ | .number _ | .string _ => simp [tokens]
  | .array [] | .array (_ :: _) => simp [tokens]
  | .object [] | .object ((_, _) :: _) => simp [tokens]

theorem readValue?_beginArray {ts : List Token} (h : ts.head? ≠ some .endArray)
    (outer : List Frame) :
    readValue? outer (.beginArray :: ts) = readValue? (.array [] :: outer) ts := by
  rw [readValue?]
  rintro ts rfl
  exact h rfl

mutual

/-- The tokens of a value are read as the value, and then the others. -/
theorem readValue?_tokens : ∀ (j : Json) (outer : List Frame) (ts : List Token),
    readValue? outer (j.tokens ++ ts) = readRest? j.value outer ts
  | .null, outer, ts => by rw [tokens, List.singleton_append, readValue?, value]
  | .bool b, outer, ts => by rw [tokens, List.singleton_append, readValue?, value]
  | .number n, outer, ts => by rw [tokens, List.singleton_append, readValue?, value]
  | .string s, outer, ts => by rw [tokens, List.singleton_append, readValue?, value]
  | .array [], outer, ts => by
    simp [tokens, readValue?, value, values]
  | .array (item :: items), outer, ts => by
    rw [tokens, List.cons_append, List.append_assoc, readValue?_beginArray (head?_tokens item _),
      readValue?_tokens item, List.append_assoc, List.singleton_append,
      readRest?_laterTokens items, value, values]
    rfl
  | .object [], outer, ts => by
    simp [tokens, readValue?, value, memberValues]
  | .object ((key, item) :: members), outer, ts => by
    rw [tokens, List.cons_append, List.cons_append, List.cons_append, List.append_assoc, readValue?,
      readMember?, readValue?_tokens item, List.append_assoc, List.singleton_append,
      readRest?_laterMemberTokens members, value, memberValues]
    · rfl
    · nofun

theorem readRest?_laterTokens : ∀ (items : List Json) (v : Value) (before : List Value)
    (outer : List Frame) (ts : List Token),
    readRest? v (.array before :: outer) (laterTokens items ++ .endArray :: ts) =
      readRest? (.array (before ++ v :: values items)) outer ts
  | [], v, before, outer, ts => by rw [laterTokens, List.nil_append, readRest?, values]
  | item :: items, v, before, outer, ts => by
    rw [laterTokens, List.cons_append, List.append_assoc, readRest?, readValue?_tokens item,
      readRest?_laterTokens items, values, List.append_assoc, List.singleton_append]

theorem readRest?_laterMemberTokens : ∀ (members : List (String × Json)) (key : String) (v : Value)
    (before : List (String × Value)) (outer : List Frame) (ts : List Token),
    readRest? v (.object before key :: outer) (laterMemberTokens members ++ .endObject :: ts) =
      readRest? (.object (before ++ (key, v) :: memberValues members)) outer ts
  | [], key, v, before, outer, ts => by
    rw [laterMemberTokens, List.nil_append, readRest?, memberValues]
  | (key', item) :: members, key, v, before, outer, ts => by
    rw [laterMemberTokens, List.cons_append, List.cons_append, List.cons_append, List.append_assoc,
      readRest?, readMember?, readValue?_tokens item, readRest?_laterMemberTokens members,
      memberValues, List.append_assoc, List.singleton_append]

end

/-- Whatever is written is read as it was. -/
theorem read?_pretty (j : Json) : read? j.pretty = some j.value := by
  have hchars : j.pretty.toList = j.chars 0 ++ [] := by simp [pretty, toList_append]
  have hend : EndsWord [] := nofun
  have htokens : tokens? [] = some [] := by rw [tokens?]
  rw [read?, hchars, tokens?_chars 0 j hend, htokens, Option.map_some, Option.bind_some,
    readValue?_tokens, readRest?]

end Json

/-! ## Trees -/

/-- The level that a number stands for. -/
def HeaderLevel.ofLiteral? (n : Decimal.Literal) : Option HeaderLevel :=
  if n.negative ∨ n.exponent ≠ 0 then none else ofNumber? n.mantissa

theorem HeaderLevel.ofLiteral?_number (level : HeaderLevel) :
    ofLiteral? ⟨(level.number : Int) < 0, (level.number : Int).natAbs, 0⟩ = some level := by
  cases level <;> rfl

namespace Node

mutual

/-- The node that a value stands for: an object whose one key names the kind of node. The members of
a header may come in any order. -/
def ofValue? : Json.Value → Option Node
  | .object [(name, v)] =>
    match Kind.ofName? name, v with
    | some .text, .string s => some (.text s)
    | some .link, .string s => some (.link s)
    | some .bold, .array items => (ofValues? items).map .bold
    | some .italics, .array items => (ofValues? items).map .italics
    | some .paragraph, .array items => (ofValues? items).map .paragraph
    | some .document, .array items => (ofValues? items).map .document
    | some .header, .object [("level", .scalar (.number n)), ("children", .array items)]
    | some .header, .object [("children", .array items), ("level", .scalar (.number n))] =>
      (HeaderLevel.ofLiteral? n).bind fun level => (ofValues? items).map (.header level)
    | _, _ => none
  | _ => none

def ofValues? : List Json.Value → Option (List Node)
  | [] => some []
  | v :: vs => (ofValue? v).bind fun n => (ofValues? vs).map (n :: ·)

end

theorem toJsonAll_eq (made : List Json) (ns : List Node) :
    toJsonAll made ns = made.reverse ++ ns.map toJson := by
  induction ns generalizing made with
  | nil => simp [toJsonAll]
  | cons n ns ih => simp [toJsonAll, ih]

/-- Nodes that are read back one by one are read back in a row. -/
theorem ofValues?_toJsonAll {cs : List Node} (h : ∀ c ∈ cs, ofValue? c.toJson.value = some c) :
    ofValues? (Json.values (toJsonAll [] cs)) = some cs := by
  rw [toJsonAll_eq, List.reverse_nil, List.nil_append]
  induction cs with
  | nil => rfl
  | cons c cs ih =>
    obtain ⟨hc, hcs⟩ := List.forall_mem_cons.mp h
    rw [List.map_cons, Json.values, ofValues?, hc, Option.bind_some, ih hcs, Option.map_some]

theorem ofValue?_toJson (n : Node) : ofValue? n.toJson.value = some n := by
  induction n using inductionOn with
  | text s => rfl
  | link s => rfl
  | container k cs ih =>
    have hcs := ofValues?_toJsonAll ih
    cases k with
    | bold => exact congrArg (Option.map Node.bold) hcs
    | italics => exact congrArg (Option.map Node.italics) hcs
    | header level =>
      have hlevel := HeaderLevel.ofLiteral?_number level
      calc ofValue? (header level cs).toJson.value
          = (HeaderLevel.ofLiteral? ⟨(level.number : Int) < 0, (level.number : Int).natAbs, 0⟩).bind
              fun level => (ofValues? (Json.values (toJsonAll [] cs))).map (.header level) := rfl
        _ = some (.header level cs) := by rw [hlevel, hcs]; rfl
    | paragraph => exact congrArg (Option.map Node.paragraph) hcs
    | document => exact congrArg (Option.map Node.document) hcs

end Node

namespace Format

/-- JSON loses nothing: every tree can be read back from its text. -/
theorem read_serialize_json (n : Node) :
    ∃ text, Registry.withDefaults.serialize n "json" = .ok text ∧
      (Json.read? text).bind Node.ofValue? = some n := by
  refine ⟨json n, rfl, ?_⟩
  rw [json, Json.read?_pretty, Option.bind_some, Node.ofValue?_toJson]

end Format

end WikiMarkup
