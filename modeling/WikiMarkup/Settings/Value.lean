import WikiMarkup.Decimal.Binary64
import WikiMarkup.Toml.Value

/-!
# Values of settings

Settings from all layers are kept in one tree of values. Each value knows the file it comes from, if
it comes from a file.
-/

namespace WikiMarkup.Settings

inductive Scalar where
  | integer (n : Int)
  /-- An integer that is kept in 128 bits, with or without a sign. -/
  | wide (signed : Bool) (n : Int)
  | float (x : Decimal.Binary64)
  | boolean (b : Bool)
  | string (s : String)
deriving DecidableEq, Repr, Inhabited

inductive Value where
  /-- An item of a list that nothing was put into. -/
  | absent
  | scalar (s : Scalar) (source : Option String)
  | list (items : List Value) (source : Option String)
  | table (entries : List (String × Value)) (source : Option String)
deriving Inhabited

/-- A value that is set on its own comes from no file. -/
instance : Coe Scalar Value := ⟨fun s => .scalar s none⟩

namespace Value

/-- A table that nothing was put into. -/
def empty : Value := .table [] none

/-- The entries of a table; what is no table has none. -/
def entries : Value → List (String × Value)
  | .table es _ => es
  | _ => []

/-- The items of a list; what is no list has none. -/
def items : Value → List Value
  | .list vs _ => vs
  | _ => []

def source : Value → Option String
  | .absent => none
  | .scalar _ source | .list _ source | .table _ source => source

mutual

/-- A value of a file; dates and times become text. -/
def ofToml (source : String) : Toml.Value → Value
  | .string s => .scalar (.string s) source
  | .integer n => .scalar (.integer n) source
  | .float x => .scalar (.float x) source
  | .boolean b => .scalar (.boolean b) source
  | .moment m => .scalar (.string m.text) source
  | .array vs => .list (ofTomlItems source vs) source
  | .table es => .table (ofTomlEntries source es) source

def ofTomlItems (source : String) : List Toml.Value → List Value
  | [] => []
  | v :: vs => ofToml source v :: ofTomlItems source vs

def ofTomlEntries (source : String) : List (String × Toml.Value) → List (String × Value)
  | [] => []
  | (key, v) :: es => (key, ofToml source v) :: ofTomlEntries source es

end

end Value

/-! ## Entries -/

/-- Give a key a value, in its place if it has one and at the end otherwise. -/
def insert (key : String) (v : Value) : List (String × Value) → List (String × Value)
  | [] => [(key, v)]
  | (k, w) :: es => if key = k then (k, v) :: es else (k, w) :: insert key v es

@[simp] theorem lookup_insert_self (key : String) (v : Value) (es : List (String × Value)) :
    (insert key v es).lookup key = some v := by
  induction es with
  | nil => simp [insert]
  | cons e es ih =>
    obtain ⟨k, w⟩ := e
    by_cases h : key = k
    · simp [insert, h]
    · simp [insert, h, List.lookup_cons, beq_false_of_ne h, ih]

theorem lookup_insert_of_ne {key other : String} (h : other ≠ key) (v : Value)
    (es : List (String × Value)) : (insert key v es).lookup other = es.lookup other := by
  induction es with
  | nil => simp [insert, List.lookup_cons, beq_false_of_ne h]
  | cons e es ih =>
    obtain ⟨k, w⟩ := e
    by_cases hk : key = k
    · subst hk
      simp [insert, List.lookup_cons, beq_false_of_ne h]
    · simp [insert, hk, List.lookup_cons, ih]

end WikiMarkup.Settings
