import WikiMarkup.Settings.Path
import WikiMarkup.Settings.Value

/-!
# Putting values in place

A value is put at a path, and whatever stands in the way of the path gives way: what should be a
table or a list and is not becomes an empty one. A table that is put somewhere is merged entry by
entry into what is there, so an entry that it does not have is kept; any other value replaces what
was there. The keys of tables are made small.
-/

namespace WikiMarkup.Settings

namespace Value

/-- A table with other entries; it comes from where the table at hand comes from. -/
def withEntries (es : List (String × Value)) : Value → Value
  | .table _ source => .table es source
  | _ => .table es none

/-- A list with other items; it comes from where the list at hand comes from. -/
def withItems (vs : List Value) : Value → Value
  | .list _ source => .list vs source
  | _ => .list vs none

mutual

/-- Put the value at the end under a key of the target. -/
def putKey (key : String) (target : Value) : Value → Value
  | .table incoming _ =>
    let child := (target.entries.lookup key.toLower).getD empty
    target.withEntries (insert key.toLower (putEntries child incoming) target.entries)
  | v => target.withEntries (insert key.toLower v target.entries)

/-- Put each of some entries under its key. -/
def putEntries (target : Value) : List (String × Value) → Value
  | [] => target
  | (key, v) :: es => putEntries (putKey key target v) es

end

/-- The place in a list of some length that an index means. -/
def place (length : Nat) : Int → Nat
  | .ofNat i => i
  | .negSucc i => length - (i + 1)

/-- A list long enough to have the place. -/
def extended (vs : List Value) (i : Nat) : List Value :=
  vs ++ List.replicate (i + 1 - vs.length) .absent

/-- Put a value at the end of some steps into a target; without steps the target stays. -/
def putAt (target : Value) (v : Value) : List Step → Value
  | [] => target
  | [.key name] => putKey name target v
  | [.item index] =>
    let i := place target.items.length index
    target.withItems ((extended target.items i).set i v)
  | .key name :: steps =>
    let child := (target.entries.lookup name).getD .absent
    target.withEntries (insert name (putAt child v steps) target.entries)
  | .item index :: steps =>
    let i := place target.items.length index
    let items := extended target.items i
    target.withItems (items.set i (putAt (items.getD i .absent) v steps))

end Value

/-- The steps of a path from the root. -/
def Path.steps (p : Path) : List Step := .key p.first :: p.rest

/-- Put a value at a path. -/
def Value.put (root : Value) (p : Path) (v : Value) : Value := root.putAt v p.steps

end WikiMarkup.Settings
