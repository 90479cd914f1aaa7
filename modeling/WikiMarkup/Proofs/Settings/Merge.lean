import Mathlib
import WikiMarkup.Settings.Layers

/-!
# What putting a value in place changes

A value that is put at a path changes one entry of the table it is put into, the one under the first
name of the path, and below it one entry of that entry. A table stays a table that comes from where
it came from. What the entry holds afterwards is the value itself, unless the value is a table: then
it is what was there with more entries, and an empty table changes nothing.
-/

namespace WikiMarkup.Settings

variable {key name k : String} {v target root : Value} {source : Option String} {p : Path}
variable {es incoming : List (String × Value)} {steps : List Step} {cs rest : List Char}

/-! ## Small letters -/

theorem toLower_toLower (s : String) : s.toLower.toLower = s.toLower := by
  rw [String.toLower, String.toLower, String.map_map]
  exact congrArg (String.map · s) (funext Char.toLower_toLower_eq_toLower)

/-- All names of the steps are in small letters. -/
def Small (steps : List Step) : Prop := ∀ name, Step.key name ∈ steps → name.toLower = name

theorem small_cons {step : Step} :
    Small (step :: steps) ↔ (∀ name, step = .key name → name.toLower = name) ∧ Small steps := by
  simp only [Small, List.mem_cons, or_imp, forall_and, eq_comm]

namespace Path

theorem toLower_of_readName (h : readName cs = some (name, rest)) : name.toLower = name := by
  rw [readName] at h
  split at h
  · contradiction
  · obtain ⟨rfl, -⟩ := Prod.mk.inj (Option.some.inj h)
    exact toLower_toLower _

theorem toLower_of_readStep (h : readStep cs = some (.key name, rest)) : name.toLower = name := by
  rw [readStep.eq_def] at h
  split at h
  · obtain ⟨⟨read, _⟩, hread, heq⟩ := Option.map_eq_some_iff.mp h
    obtain ⟨hstep, -⟩ := Prod.mk.inj heq
    cases hstep
    exact toLower_of_readName hread
  · split at h
    · obtain ⟨index, -, heq⟩ := Option.map_eq_some_iff.mp h
      simp at heq
    · contradiction
  · contradiction

theorem small_of_readSteps (h : readSteps cs = some steps) : Small steps := by
  fun_induction readSteps cs generalizing steps with
  | case1 =>
    cases h
    simp [Small]
  | case2 c cs step rest hstep ih =>
    obtain ⟨more, hmore, rfl⟩ := Option.map_eq_some_iff.mp h
    refine small_cons.mpr ⟨?_, ih hmore⟩
    rintro name rfl
    exact toLower_of_readStep hstep
  | case3 => contradiction

theorem small_of_ofString? {text : String} (h : ofString? text = some p) : Small p.steps := by
  rw [ofString?] at h
  split at h
  · rename_i first cs hfirst
    obtain ⟨rest, hrest, rfl⟩ := Option.map_eq_some_iff.mp h
    refine small_cons.mpr ⟨?_, small_of_readSteps hrest⟩
    rintro name ⟨⟩
    exact toLower_of_readName hfirst
  · contradiction

/-- The path that a key at the top of a file is read as. A key that writes no path is a name. -/
def ofKey (key : String) : Path := (ofString? key).getD ⟨key.toLower, []⟩

theorem small_ofKey (key : String) : Small (ofKey key).steps := by
  cases h : ofString? key with
  | some p =>
    rw [ofKey, h]
    exact small_of_ofString? h
  | none =>
    rw [ofKey, h]
    refine small_cons.mpr ⟨?_, by simp [Small]⟩
    rintro name ⟨⟩
    exact toLower_toLower key

end Path

/-! ## Entries after a value was put in place -/

namespace Value

@[simp] theorem entries_withEntries (es : List (String × Value)) (target : Value) :
    (target.withEntries es).entries = es := by
  cases target <;> rfl

/-- What stands in a place once a value was put there, from what stood there before. -/
def putOver (old : Option Value) : Value → Value
  | .table incoming _ => putEntries (old.getD empty) incoming
  | v => v

theorem putKey_eq (key : String) (target v : Value) :
    putKey key target v =
      target.withEntries
        (Settings.insert key.toLower (v.putOver (target.entries.lookup key.toLower))
          target.entries) := by
  cases v <;> simp only [putKey, putOver]

theorem lookup_putKey_self (key : String) (target v : Value) :
    (putKey key target v).entries.lookup key.toLower =
      some (v.putOver (target.entries.lookup key.toLower)) := by
  rw [putKey_eq, entries_withEntries, lookup_insert_self]

theorem lookup_putKey_of_ne (h : k ≠ key.toLower) (target v : Value) :
    (putKey key target v).entries.lookup k = target.entries.lookup k := by
  rw [putKey_eq, entries_withEntries, lookup_insert_of_ne h]

/-- What is put under a name leaves the other entries as they are. -/
theorem lookup_putAt_of_ne (hname : name.toLower = name) (h : k ≠ name) (target v : Value)
    (steps : List Step) :
    (putAt target v (.key name :: steps)).entries.lookup k = target.entries.lookup k := by
  cases steps with
  | nil => rw [putAt, lookup_putKey_of_ne (hname.symm ▸ h)]
  | cons step steps =>
    simp only [putAt, entries_withEntries]
    exact lookup_insert_of_ne h _ _

/-- What is put below a name is put into what has that name. -/
theorem lookup_put_self (h : root.entries.lookup name = some target) (v : Value) (step : Step)
    (steps : List Step) :
    (root.put ⟨name, step :: steps⟩ v).entries.lookup name =
      some (putAt target v (step :: steps)) := by
  simp only [put, Path.steps, putAt, entries_withEntries, lookup_insert_self, h, Option.getD_some]

/-! ## Tables stay tables -/

/-- The value is a table that comes from the source. -/
def IsTableOf (source : Option String) (v : Value) : Prop := ∃ es, v = .table es source

theorem IsTableOf.withEntries (h : IsTableOf source target) (es : List (String × Value)) :
    IsTableOf source (target.withEntries es) := by
  obtain ⟨before, rfl⟩ := h
  exact ⟨es, rfl⟩

theorem IsTableOf.putKey (h : IsTableOf source target) (key : String) (v : Value) :
    IsTableOf source (putKey key target v) := by
  rw [putKey_eq]
  exact h.withEntries _

theorem IsTableOf.putEntries (h : IsTableOf source target) (es : List (String × Value)) :
    IsTableOf source (putEntries target es) := by
  induction es generalizing target with
  | nil => exact h
  | cons e es ih => exact ih (h.putKey e.1 e.2)

theorem IsTableOf.putAt (h : IsTableOf source target) (name : String) (v : Value)
    (steps : List Step) : IsTableOf source (putAt target v (.key name :: steps)) := by
  cases steps with
  | nil => exact h.putKey name v
  | cons step steps => exact h.withEntries _

/-- What is no table becomes one without a source when an entry is put into it. -/
theorem isTableOf_putEntries_cons (h : ∀ source, IsTableOf source target → source = none)
    (e : String × Value) (es : List (String × Value)) :
    IsTableOf none (putEntries target (e :: es)) := by
  refine IsTableOf.putEntries ?_ es
  rw [putKey_eq]
  cases target with
  | table before source =>
    obtain rfl := h source ⟨before, rfl⟩
    exact ⟨_, rfl⟩
  | _ => exact ⟨_, rfl⟩

end Value

/-- Every key at the top of a file is a path at which its value is put. -/
theorem putTop_cons (root : Value) (key : String) (v : Value) (es : List (String × Value)) :
    putTop root ((key, v) :: es) = putTop (root.put (Path.ofKey key) v) es := by
  rw [putTop]
  cases h : Path.ofString? key with
  | some p => simp only [Path.ofKey, h, Option.getD_some]
  | none =>
    -- The name was made small for its path already, and making it small again changes nothing.
    have hput : root.put (Path.ofKey key) v = root.putKey key v := by
      simp only [Path.ofKey, h, Option.getD_none, Value.put, Path.steps, Value.putAt,
        Value.putKey_eq, toLower_toLower]
    rw [hput]

end WikiMarkup.Settings
