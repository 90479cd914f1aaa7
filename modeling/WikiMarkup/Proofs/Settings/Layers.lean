import WikiMarkup.Proofs.Settings.Merge
import WikiMarkup.Proofs.Text.Utf8

/-!
# Which layer a setting comes from

A setting has the value of the last single setting for it, or else the last value that a file gives
it, or else the built-in one. Files that do not give it one leave it alone, whatever else they say
about its section, and so does an empty table, since a table is merged into what is there. How files
and single settings stand among each other does not matter. A file that is required and missing is
an error with any other layers.
-/

namespace WikiMarkup.Settings

variable {key name : String} {v w t root slot before : Value} {source : Option String} {p : Path}
variable {es incoming : List (String × Value)} {steps : List Step} {part : Section} {α : Type}
variable {layers : List Layer} {value : Section → Value} {settings : List (Path × Value)}

/-! ## The last value -/

namespace Value

/-- The value is an empty table, which leaves what it is put over as it is. -/
def isEmptyTable : Value → Bool
  | .table [] _ => true
  | _ => false

/-- The last of some values that is no empty table, or the one from before. -/
def last (before : Value) (vs : List Value) : Value :=
  (vs.filter (!·.isEmptyTable)).getLast?.getD before

@[simp] theorem last_nil (before : Value) : before.last [] = before := rfl

theorem last_append (before : Value) (vs ws : List Value) :
    before.last (vs ++ ws) = (before.last vs).last ws := by
  rw [last, last, last, List.filter_append, List.getLast?_append, Option.getD_or]

/-- The value of an entry stands for the last value put there: it is that value, or both are tables,
and then nothing is known of the entry's table but that it has no source. -/
inductive StandsFor : Value → Value → Prop where
  | self {v : Value} : (∀ es source, v ≠ .table es source) → StandsFor v v
  | table {es incoming : List (String × Value)} {source : Option String} :
    StandsFor (.table es none) (.table incoming source)

/-- One more value is put over an entry. -/
theorem StandsFor.putOver (h : slot.StandsFor v) (w : Value) :
    (w.putOver (some slot)).StandsFor (v.last [w]) := by
  cases w with
  | table incoming source =>
    cases incoming with
    | nil => exact h
    | cons e es =>
      -- Whatever stood there becomes a table without a source, or was one.
      have hsource (source : Option String) (hslot : slot.IsTableOf source) : source = none := by
        obtain ⟨es, rfl⟩ := hslot
        cases h with
        | self h => exact absurd rfl (h _ _)
        | table => rfl
      obtain ⟨entries, hentries⟩ := isTableOf_putEntries_cons hsource e es
      rw [Value.putOver, Option.getD_some, hentries]
      exact .table
  | _ => exact .self (by simp [Value.putOver])

end Value

/-- The values of the entries of a name. -/
def valuesOf (name : String) (es : List (String × Value)) : List Value :=
  (es.filter (·.1.toLower = name)).map (·.2)

theorem valuesOf_cons (name : String) (e : String × Value) (es : List (String × Value)) :
    valuesOf name (e :: es) = (if e.1.toLower = name then [e.2] else []) ++ valuesOf name es := by
  by_cases h : e.1.toLower = name
  · simp [valuesOf, h]
  · simp [valuesOf, h]

/-! ## Putting values into sections -/

namespace Section

/-- The path to the field of a section. -/
def path (part : Section) : Path := ⟨part.key, [.key part.field]⟩

/-- The values that the field of a section is given when a value is put at a path. -/
def given (part : Section) (p : Path) (v : Value) : List Value :=
  if p = ⟨part.key, []⟩ then valuesOf part.field v.entries
  else if p = part.path then [v]
  else []

/-- A value that can be put at a path without harm to the section: it goes elsewhere, or it is a
table for the section, or a value for its field, or it goes below another entry of the section. -/
inductive Admits (part : Section) : Path → Value → Prop where
  | elsewhere {p : Path} {v : Value} : p.first ≠ part.key → Admits part p v
  | table {es : List (String × Value)} {source : Option String} :
    Admits part ⟨part.key, []⟩ (.table es source)
  | field {v : Value} : Admits part part.path v
  | beside {name : String} {steps : List Step} {v : Value} : name ≠ part.field →
    Admits part ⟨part.key, .key name :: steps⟩ v

theorem toLower_key (part : Section) : part.key.toLower = part.key := by
  cases part <;> cbv

theorem toLower_field (part : Section) : part.field.toLower = part.field := by
  cases part <;> cbv

theorem small_path (part : Section) : Small part.path.steps := by
  simp [Small, path, Path.steps, or_imp, forall_and, toLower_key, toLower_field]

/-- The name of a section and that of its field, with a dot between them, write the path. -/
theorem ofString?_path (part : Section) :
    Path.ofString? (part.key ++ "." ++ part.field) = some part.path := by
  cases part <;> cbv

theorem key_injective {part other : Section} (h : other.key = part.key) : other = part := by
  revert h
  cases other <;> cases part <;> decide

theorem path_inj {part other : Section} : other.path = part.path ↔ other = part := by
  refine ⟨fun h => key_injective ?_, fun h => h ▸ rfl⟩
  exact congrArg Path.first h

theorem admits_path (part other : Section) (v : Value) : part.Admits other.path v := by
  by_cases h : other = part
  · exact h ▸ .field
  · exact .elsewhere fun hkey => h (key_injective hkey)

theorem given_path (part other : Section) (v : Value) :
    part.given other.path v = if other = part then [v] else [] := by
  rw [given, if_neg (by simp [path])]
  simp only [path_inj]

/-- The field of a section's table stands for the value. -/
def FieldHolds (part : Section) (v t : Value) : Prop :=
  ∃ slot, t.entries.lookup part.field = some slot ∧ slot.StandsFor v

theorem FieldHolds.putKey (h : part.FieldHolds v t) (key : String) (w : Value) :
    part.FieldHolds (v.last (if key.toLower = part.field then [w] else [])) (t.putKey key w) := by
  obtain ⟨slot, hslot, hv⟩ := h
  by_cases hkey : key.toLower = part.field
  · refine ⟨w.putOver (some slot), ?_, by simpa only [hkey, if_true] using hv.putOver w⟩
    rw [← hkey, Value.lookup_putKey_self, hkey, hslot]
  · refine ⟨slot, ?_, by simpa only [hkey, if_false, Value.last_nil] using hv⟩
    rw [Value.lookup_putKey_of_ne (Ne.symm hkey), hslot]

theorem FieldHolds.putEntries (h : part.FieldHolds v t) (es : List (String × Value)) :
    part.FieldHolds (v.last (valuesOf part.field es)) (t.putEntries es) := by
  induction es generalizing v t with
  | nil => exact h
  | cons e es ih =>
    rw [valuesOf_cons, Value.last_append]
    exact ih (h.putKey e.1 e.2)

/-- The tree has a table for the section, and its field stands for the value. -/
def Holds (part : Section) (v root : Value) : Prop :=
  ∃ t source, root.entries.lookup part.key = some t ∧ t.IsTableOf source ∧ part.FieldHolds v t

/-- One more value is put into the tree. -/
theorem Holds.put (h : part.Holds v root) (hsmall : Small p.steps) (hadmits : part.Admits p w) :
    part.Holds (v.last (part.given p w)) (root.put p w) := by
  obtain ⟨t, source, hlookup, htable, hfield⟩ := h
  cases hadmits with
  | elsewhere hne =>
    -- The section's entry is not touched, and nothing is given to its field.
    have hgiven : part.given p w = [] := by
      have hsection : p ≠ ⟨part.key, []⟩ := fun heq => hne (heq ▸ rfl)
      have hpath : p ≠ part.path := fun heq => hne (heq ▸ rfl)
      rw [given, if_neg hsection, if_neg hpath]
    refine ⟨t, source, ?_, htable, by rwa [hgiven]⟩
    rw [Value.put, Path.steps,
      Value.lookup_putAt_of_ne (hsmall p.first List.mem_cons_self) hne.symm, hlookup]
  | @table es =>
    -- The table is merged into the section's own, entry by entry.
    refine ⟨t.putEntries es, source, ?_, htable.putEntries es, ?_⟩
    · have hself := Value.lookup_putKey_self part.key root (.table es none)
      rw [toLower_key, hlookup] at hself
      exact hself
    · rw [given, if_pos rfl]
      exact hfield.putEntries es
  | field =>
    refine ⟨_, source, Value.lookup_put_self hlookup w _ _, htable.putAt _ _ _, ?_⟩
    have hkey := hfield.putKey part.field w
    rw [toLower_field, if_pos rfl] at hkey
    rw [given, if_neg (by simp [path]), if_pos rfl]
    exact hkey
  | @beside name _ _ hne =>
    obtain ⟨slot, hslot, hv⟩ := hfield
    refine ⟨_, source, Value.lookup_put_self hlookup w _ _, htable.putAt _ _ _, slot, ?_, ?_⟩
    · have hname : name.toLower = name := hsmall name (by simp [Path.steps])
      rw [Value.lookup_putAt_of_ne hname hne.symm, hslot]
    · rw [given, if_neg (by simp), if_neg (by simp [path, hne])]
      exact hv

/-- The values that entries at the top of a file give the field. -/
def givenByEntries (part : Section) (es : List (String × Value)) : List Value :=
  es.flatMap fun e => part.given (Path.ofKey e.1) e.2

theorem Holds.putTop (h : part.Holds v root)
    (hadmits : ∀ e ∈ es, part.Admits (Path.ofKey e.1) e.2) :
    part.Holds (v.last (part.givenByEntries es)) (putTop root es) := by
  induction es generalizing v root with
  | nil => exact h
  | cons e es ih =>
    rw [putTop_cons, givenByEntries, List.flatMap_cons, Value.last_append]
    exact ih (h.put (Path.small_ofKey e.1) (hadmits e List.mem_cons_self))
      fun e he => hadmits e (List.mem_cons_of_mem _ he)

end Section

/-! ## Laying layers over each other -/

namespace Layer

/-- The layer is a file, found or not. -/
def isFile : Layer → Bool
  | .file _ _ _ | .unreadable _ _ _ => true
  | .single _ _ => false

/-- The values that a file gives the field of a section. -/
def givenInFile (part : Section) : Layer → List Value
  | .file _ _ (some f) =>
    match f.entries with
    | .ok es => part.givenByEntries es
    | .error _ => []
  | _ => []

/-- The values that a single setting gives the field of a section. -/
def givenAlone (part : Section) : Layer → List Value
  | .single key v => if key = part.key ++ "." ++ part.field then [v] else []
  | _ => []

/-- A layer that keeps to the settings: a single setting for the field of a section, or a file that
is not there, or one whose entries all sections admit and which gives no field two values. -/
inductive Plain : Layer → Prop where
  | single {part : Section} {v : Value} : Plain (.single (part.key ++ "." ++ part.field) v)
  | missing {name : String} {required : Bool} : Plain (.file name required none)
  | found {name : String} {required : Bool} {f : SourceFile} {es : List (String × Value)} :
    f.entries = .ok es → (∀ e ∈ es, ∀ part : Section, part.Admits (Path.ofKey e.1) e.2) →
    (∀ part : Section, (part.givenByEntries es).length ≤ 1) → Plain (.file name required (some f))

end Layer

/-- The value of a section's field in the built-in settings. -/
def Section.builtIn : Section → Value
  | .parser => .scalar (.integer 262144) none
  | .output => .scalar (.string "html") none

/-- The value of a section's field in layers: the last single setting, else the last value in the
files, else the built-in one. Of the single settings none but the last counts, even if it is an
empty table. -/
def Section.valueIn (part : Section) (layers : List Layer) : Value :=
  (part.builtIn.last (layers.flatMap (·.givenInFile part))).last
    (layers.flatMap (·.givenAlone part)).getLast?.toList

theorem Section.holds_builtIn (part : Section) : part.Holds part.builtIn Settings.builtIn := by
  cases part with
  | parser => exact ⟨_, none, rfl, ⟨_, rfl⟩, _, rfl, .self (by simp)⟩
  | output => exact ⟨_, none, rfl, ⟨_, rfl⟩, _, rfl, .self (by simp)⟩

/-- All files are laid over each other if none is required and missing. -/
theorem exists_layFiles (hplain : ∀ l ∈ layers, l.Plain)
    (hpresent : ∀ name, .file name true none ∉ layers)
    (hroot : ∀ part : Section, part.Holds (value part) root) :
    ∃ tree, layFiles root layers = .ok tree ∧ ∀ part : Section,
      part.Holds ((value part).last (layers.flatMap (·.givenInFile part))) tree := by
  induction layers generalizing root value with
  | nil => exact ⟨root, rfl, hroot⟩
  | cons l layers ih =>
    have hrest (l) (hl : l ∈ layers) : l.Plain := hplain l (List.mem_cons_of_mem _ hl)
    have hrestPresent (name) : .file name true none ∉ layers :=
      fun h => hpresent name (List.mem_cons_of_mem _ h)
    -- The first layer turns the values of both sections into those that the rest starts from.
    simp only [List.flatMap_cons, Value.last_append]
    cases hplain l List.mem_cons_self with
    | single => exact ih hrest hrestPresent hroot
    | @missing name required =>
      cases required with
      | true => exact absurd List.mem_cons_self (hpresent name)
      | false => exact ih hrest hrestPresent hroot
    | found hentries hadmits _ =>
      simp only [layFiles, hentries, Layer.givenInFile]
      exact ih hrest hrestPresent fun part =>
        (hroot part).putTop fun e he => hadmits e he part

/-- The values that single settings have at the path of a section's field. -/
def Section.alone (part : Section) (settings : List (Path × Value)) : List Value :=
  (settings.filter (·.1 = part.path)).map (·.2)

theorem Section.alone_cons (part other : Section) (v : Value) (settings : List (Path × Value)) :
    part.alone ((other.path, v) :: settings) =
      (if other = part then [v] else []) ++ part.alone settings := by
  by_cases h : other = part
  · simp [alone, h]
  · simp [alone, h, Section.path_inj]

theorem Section.alone_eq_nil_iff : part.alone settings = [] ↔ part.path ∉ settings.map (·.1) := by
  simp only [alone, List.map_eq_nil_iff, List.filter_eq_nil_iff, decide_eq_true_eq, List.mem_map,
    not_exists, not_and]

/-- Of the single settings for one path, the latest is left. -/
theorem Section.alone_addSingle (part other : Section) (v : Value)
    (settings : List (Path × Value)) {vs : List Value}
    (h : part.alone settings = vs.getLast?.toList) :
    part.alone (addSingle other.path v settings) =
      ((if other = part then [v] else []) ++ vs).getLast?.toList := by
  by_cases hother : other = part
  · subst hother
    by_cases hlater : other.path ∈ settings.map (·.1)
    · have hne : vs ≠ [] := by
        rintro rfl
        exact Section.alone_eq_nil_iff.mp h hlater
      rw [addSingle, if_pos hlater, h, List.getLast?_append_of_ne_nil _ hne]
    · have hnil : vs = [] := by
        rw [Section.alone_eq_nil_iff.mpr hlater] at h
        simpa using h.symm
      rw [addSingle, if_neg hlater, Section.alone_cons, Section.alone_eq_nil_iff.mpr hlater, hnil]
      simp
  · have hkeep : part.alone (addSingle other.path v settings) = part.alone settings := by
      rw [addSingle]
      split
      · rfl
      · rw [Section.alone_cons, if_neg hother, List.nil_append]
    rw [hkeep, h, if_neg hother, List.nil_append]

theorem Section.givenAlone_single (part other : Section) (v : Value) :
    (Layer.single (other.key ++ "." ++ other.field) v).givenAlone part =
      if other = part then [v] else [] := by
  have hkey : other.key ++ "." ++ other.field = part.key ++ "." ++ part.field ↔ other = part := by
    cases other <;> cases part <;> decide
  simp only [Layer.givenAlone, hkey]

/-- The single settings that are put in place are the last ones of the layers. -/
theorem exists_singles (hplain : ∀ l ∈ layers, l.Plain) :
    ∃ settings, singles layers = .ok settings ∧ (∀ e ∈ settings, ∃ part : Section, e.1 = part.path) ∧
      ∀ part : Section,
        part.alone settings = (layers.flatMap (·.givenAlone part)).getLast?.toList := by
  induction layers with
  | nil => exact ⟨[], rfl, by simp, fun _ => rfl⟩
  | cons l layers ih =>
    obtain ⟨settings, hsettings, hpaths, halone⟩ :=
      ih fun l hl => hplain l (List.mem_cons_of_mem _ hl)
    cases hplain l List.mem_cons_self with
    | @single other v =>
      refine ⟨addSingle other.path v settings, ?_, ?_, fun part => ?_⟩
      · simp only [singles, other.ofString?_path, hsettings]
        rfl
      · intro e he
        rw [addSingle] at he
        split at he
        · exact hpaths e he
        · rcases List.mem_cons.mp he with rfl | he
          · exact ⟨other, rfl⟩
          · exact hpaths e he
      · rw [List.flatMap_cons, Section.givenAlone_single]
        exact part.alone_addSingle other v settings (halone part)
    | missing => exact ⟨settings, hsettings, hpaths, halone⟩
    | found _ _ _ => exact ⟨settings, hsettings, hpaths, halone⟩

/-- Single settings are put over the files. -/
theorem holds_laySingles (hpaths : ∀ e ∈ settings, ∃ part : Section, e.1 = part.path)
    (hroot : ∀ part : Section, part.Holds (value part) root) (part : Section) :
    part.Holds ((value part).last (part.alone settings)) (laySingles root settings) := by
  induction settings generalizing root value with
  | nil => exact hroot part
  | cons e settings ih =>
    obtain ⟨other, hother⟩ := hpaths e List.mem_cons_self
    obtain ⟨p, v⟩ := e
    obtain rfl : p = other.path := hother
    rw [Section.alone_cons, Value.last_append, ← Section.given_path]
    exact ih (fun e he => hpaths e (List.mem_cons_of_mem _ he)) fun part =>
      (hroot part).put other.small_path (part.admits_path other v)

/-! ## Reading the tree off -/

/-- The file that is named when a value cannot be converted. A table comes from no single file. -/
def Value.origin : Value → Option String
  | .table _ _ => none
  | v => v.source

theorem Value.StandsFor.source_eq (h : slot.StandsFor v) : slot.source = v.origin := by
  cases h with
  | self h =>
    cases v with
    | table es source => exact absurd rfl (h es source)
    | _ => rfl
  | table => rfl

/-- Convert the value of a section's field. -/
def Section.converted (part : Section) (convert : Value → Except (Found × Wanted) α) (v : Value) :
    Except Error α :=
  (convert v).mapError fun (found, wanted) =>
    .wrongValue found wanted (part.key ++ "." ++ part.field) v.origin

/-- The settings with these values. -/
def ofValues (first : Section) (value : Section → Value) : Except Error Settings :=
  combine first (Section.parser.converted toSize (value .parser))
    (Section.output.converted toText (value .output))

theorem readField_of_holds (convert : Value → Except (Found × Wanted) α)
    (hconvert : ∀ {slot v : Value}, slot.StandsFor v → convert slot = convert v)
    (h : part.Holds v root) : readField convert part root = part.converted convert v := by
  obtain ⟨_, source, hlookup, ⟨es, rfl⟩, slot, hslot, hv⟩ := h
  have hfield : fieldOf part (.table es source) = .ok (slot, part.key ++ "." ++ part.field) := by
    simp only [fieldOf, show es.lookup part.field = some slot from hslot]
  simp only [readField, hlookup, hfield, Section.converted, hconvert hv, hv.source_eq]

theorem ofTree_of_holds (first : Section) (h : ∀ part : Section, part.Holds (value part) root) :
    ofTree root first = ofValues first value := by
  have hsize {slot v : Value} (hv : slot.StandsFor v) : toSize slot = toSize v := by
    cases hv <;> rfl
  have htext {slot v : Value} (hv : slot.StandsFor v) : toText slot = toText v := by
    cases hv <;> rfl
  rw [ofTree, readField_of_holds toSize hsize (h .parser),
    readField_of_holds toText htext (h .output)]
  rfl

/-! ## Files and single settings apart -/

theorem layFiles_append (root : Value) (before after : List Layer) :
    layFiles root (before ++ after) = (layFiles root before).bind (layFiles · after) := by
  fun_induction layFiles root before with
  | case1 => rfl
  | case2 root key s layers ih => exact ih
  | case3 root name required layers f es hes ih =>
    simp only [List.cons_append, layFiles, hes]
    exact ih
  | case4 root name required layers f e he =>
    simp only [List.cons_append, layFiles, he]
    rfl
  | case5 | case7 => rfl
  | case6 root name layers ih => exact ih
  | case8 root name reason layers ih => exact ih

theorem layFiles_filter (root : Value) (layers : List Layer) :
    layFiles root (layers.filter (·.isFile)) = layFiles root layers := by
  fun_induction layFiles root layers with
  | case1 => rfl
  | case2 root key s layers ih => exact ih
  | case3 root name required layers f es hes ih =>
    rw [List.filter_cons_of_pos (by rfl)]
    simp only [layFiles, hes]
    exact ih
  | case4 root name required layers f e he =>
    rw [List.filter_cons_of_pos (by rfl)]
    simp only [layFiles, he]
  | case5 | case7 => rfl
  | case6 root name layers ih => exact ih
  | case8 root name reason layers ih => exact ih

theorem singles_filter (layers : List Layer) :
    singles (layers.filter (!·.isFile)) = singles layers := by
  fun_induction singles layers with
  | case1 => rfl
  | case2 name required found layers ih => exact ih
  | case3 name required reason layers ih => exact ih
  | case4 key v layers p hp ih =>
    rw [List.filter_cons_of_pos (by rfl)]
    simp only [singles, hp, ih]
  | case5 key v layers hp =>
    rw [List.filter_cons_of_pos (by rfl)]
    simp only [singles, hp]

theorem load_eq_load {layers layers' : List Layer}
    (hfiles : layFiles builtIn layers = layFiles builtIn layers')
    (hsingles : singles layers = singles layers') (first : Section) :
    load layers first = load layers' first := by
  rw [load, load, merged, merged, hfiles, hsingles]

/-- The settings depend on the files in their order and on the single settings in their order. -/
theorem load_congr {layers layers' : List Layer}
    (hfiles : layers.filter (·.isFile) = layers'.filter (·.isFile))
    (hsingles : layers.filter (!·.isFile) = layers'.filter (!·.isFile)) (first : Section) :
    load layers first = load layers' first := by
  apply load_eq_load
  · rw [← layFiles_filter builtIn layers, hfiles, layFiles_filter]
  · rw [← singles_filter layers, hsingles, singles_filter]

/-- A file that is not there and need not be is no layer. -/
theorem load_optional (before after : List Layer) (name : String) (first : Section) :
    load (before ++ .file name false none :: after) first = load (before ++ after) first := by
  apply load_eq_load
  · rw [layFiles_append, layFiles_append]
    rfl
  · rw [← singles_filter, ← singles_filter (before ++ after)]
    simp [Layer.isFile]

/-- A file that is required and not there is an error, whatever the other layers are. -/
theorem exists_load_error (before after : List Layer) (name : String) (first : Section) :
    ∃ e, load (before ++ .file name true none :: after) first = .error e := by
  cases hsingles : singles (before ++ .file name true none :: after) with
  | error e => exact ⟨e, by simp only [load, merged, hsingles]⟩
  | ok settings =>
    cases hbefore : layFiles builtIn before with
    | error e =>
      exact ⟨e, by simp only [load, merged, hsingles, layFiles_append, hbefore]; rfl⟩
    | ok root =>
      exact ⟨.notFound name, by simp only [load, merged, hsingles, layFiles_append, hbefore]; rfl⟩

/-! ## The settings of plain layers -/

theorem load_of_plain (hplain : ∀ l ∈ layers, l.Plain)
    (hpresent : ∀ name, .file name true none ∉ layers) (first : Section) :
    load layers first = ofValues first (·.valueIn layers) := by
  obtain ⟨tree, htree, hfiles⟩ := exists_layFiles hplain hpresent Section.holds_builtIn
  obtain ⟨settings, hsettings, hpaths, halone⟩ := exists_singles hplain
  have hmerged : merged layers = .ok (laySingles tree settings) := by
    simp only [merged, hsettings, htree]
    rfl
  simp only [load, hmerged]
  refine ofTree_of_holds first fun part => ?_
  rw [Section.valueIn, ← halone part]
  exact holds_laySingles hpaths hfiles part

theorem load_of_missing {before after : List Layer}
    (hplain : ∀ l ∈ before ++ .file name true none :: after, l.Plain)
    (hpresent : ∀ name, .file name true none ∉ before) (first : Section) :
    load (before ++ .file name true none :: after) first = .error (.notFound name) := by
  have hbefore (l) (hl : l ∈ before) : l.Plain := hplain l (List.mem_append_left _ hl)
  obtain ⟨tree, htree, -⟩ := exists_layFiles hbefore hpresent Section.holds_builtIn
  obtain ⟨settings, hsettings, -⟩ := exists_singles hplain
  simp only [load, merged, hsettings, layFiles_append, htree]
  rfl

/-- If no layer is a missing file that is required, each setting is converted from the last single
setting for it, else from the last value in the files, else from the built-in one; an empty table
leaves what is below it. Where both settings are wrong, either may be the one that is reported. A
missing file that is required is an error with any other layers, and with plain ones the first such
file is reported. A missing file that is not required is no layer, and how files and single settings
stand among each other does not matter. -/
theorem last_layer_wins (layers : List Layer) (first : Section) :
    ((∀ l ∈ layers, l.Plain) → (∀ name, .file name true none ∉ layers) →
      load layers first = ofValues first (·.valueIn layers)) ∧
    (∀ before name after, layers = before ++ .file name true none :: after →
      (∃ e, load layers first = .error e) ∧
      ((∀ l ∈ layers, l.Plain) → (∀ other, .file other true none ∉ before) →
        load layers first = .error (.notFound name))) ∧
    (∀ before name after, layers = before ++ .file name false none :: after →
      load layers first = load (before ++ after) first) ∧
    ∀ layers', layers'.filter (·.isFile) = layers.filter (·.isFile) →
      layers'.filter (!·.isFile) = layers.filter (!·.isFile) →
        load layers' first = load layers first := by
  refine ⟨fun hplain hpresent => load_of_plain hplain hpresent first, ?_, ?_,
    fun layers' hfiles hsingles => load_congr hfiles hsingles first⟩
  · rintro before name after rfl
    exact ⟨exists_load_error before after name first,
      fun hplain hpresent => load_of_missing hplain hpresent first⟩
  · rintro before name after rfl
    exact load_optional before after name first

/-- A file with the text. -/
def fileOf (name text : String) : SourceFile := ⟨name, Text.bytesOf text⟩

/-- A format and a size, files with a size that is no number and with one that is, an empty table
for the size, and a file that is not there. -/
def sampleLayers : List Layer :=
  [.single "output.format" (Scalar.string "json"),
    .single "parser.max_input_bytes" (Scalar.integer 5),
    .file "a" true (some (fileOf "a" "[parser]\nmax_input_bytes = 'x'")),
    .file "b" true (some (fileOf "b" "[parser]\nmax_input_bytes = 7")),
    .single "parser.max_input_bytes" .empty, .file "c" false none]

/-- The empty table takes the place of the other single setting for the size, and leaves the size
that the files give. -/
theorem last_layer_wins_sampleLayers :
    (∀ first, load sampleLayers first = .ok ⟨7, "json"⟩) ∧
    (∀ first, load (sampleLayers ++ [.file "d" true none]) first = .error (.notFound "d")) ∧
    load (sampleLayers.take 5) = load sampleLayers ∧
    load (sampleLayers.filter (!·.isFile) ++ sampleLayers.filter (·.isFile)) =
      load sampleLayers := by
  have hkey : Path.ofKey "parser" = ⟨"parser", []⟩ := by cbv
  have hadmits (part : Section) (v : Value) (source : Option String) :
      part.Admits (Path.ofKey "parser") (.table [("max_input_bytes", v)] source) := by
    rw [hkey]
    cases part with
    | parser => exact .table
    | output => exact .elsewhere (by decide)
  have hgiven (part : Section) (v : Value) (source : Option String) :
      part.givenByEntries [("parser", .table [("max_input_bytes", v)] source)] =
        if part = .parser then [v] else [] := by
    simp only [Section.givenByEntries, List.flatMap_singleton, hkey]
    cases part <;> cbv
  have hsingle (part : Section) (v : Value) (source : Option String) :
      (part.givenByEntries [("parser", .table [("max_input_bytes", v)] source)]).length ≤ 1 := by
    rw [hgiven]
    split <;> simp
  have hword : (fileOf "a" "[parser]\nmax_input_bytes = 'x'").entries =
      .ok [("parser", .table [("max_input_bytes", .scalar (.string "x") "a")] "a")] := by cbv
  have hnumber : (fileOf "b" "[parser]\nmax_input_bytes = 7").entries =
      .ok [("parser", .table [("max_input_bytes", .scalar (.integer 7) "b")] "b")] := by cbv
  have hformat (v : Value) : (Layer.single "output.format" v).Plain := @Layer.Plain.single .output v
  have hsize (v : Value) : (Layer.single "parser.max_input_bytes" v).Plain :=
    @Layer.Plain.single .parser v
  have hplain : ∀ l ∈ sampleLayers ++ [.file "d" true none], l.Plain := by
    simp only [sampleLayers, List.cons_append, List.nil_append, List.forall_mem_cons]
    refine ⟨hformat _, hsize _, .found hword ?_ fun part => hsingle part _ _,
      .found hnumber ?_ fun part => hsingle part _ _, hsize _, .missing, .missing, by simp⟩
    · exact List.forall_mem_singleton.mpr fun part => hadmits part _ _
    · exact List.forall_mem_singleton.mpr fun part => hadmits part _ _
  have hpresent (name) : .file name true none ∉ sampleLayers := by
    simp [sampleLayers]
  refine ⟨fun first => ?_, fun first => ?_, ?_, ?_⟩
  · have hnumberLast : Section.parser.valueIn sampleLayers = .scalar (.integer 7) "b" := by
      simp only [Section.valueIn, sampleLayers, List.flatMap_cons, Layer.givenInFile, hword,
        hnumber, hgiven]
      cbv
    have htext : Section.output.valueIn sampleLayers = .scalar (.string "json") none := by
      simp only [Section.valueIn, sampleLayers, List.flatMap_cons, Layer.givenInFile, hword,
        hnumber, hgiven]
      cbv
    have hall (l) (hl : l ∈ sampleLayers) : l.Plain := hplain l (List.mem_append_left _ hl)
    rw [(last_layer_wins sampleLayers first).1 hall hpresent, ofValues, hnumberLast, htext]
    rfl
  · exact ((last_layer_wins _ first).2.1 sampleLayers "d" [] rfl).2 hplain hpresent
  · exact ((last_layer_wins sampleLayers .parser).2.2.1 (sampleLayers.take 5) "c" [] rfl).symm
  · exact (last_layer_wins sampleLayers .parser).2.2.2 _ rfl rfl

theorem load_file {required : Bool} {f : SourceFile} (h : f.entries = .ok es) :
    load [.file name required (some f)] = ofTree (putTop builtIn es) .parser := by
  simp only [load, merged, singles, layFiles, h]
  rfl

/-- A value that is an empty table cannot be converted, and yet a file with such a value leaves the
setting alone. A file with neither section can still change a setting, by a key that is read as a
path. -/
theorem load_emptyTable_item :
    (fileOf "layer0.toml" "[parser]\nmax_input_bytes = \x7b\x7d\n").entries =
      .ok [("parser", .table [("max_input_bytes", .table [] "layer0.toml")] "layer0.toml")] ∧
    toSize (.table [] "layer0.toml") = .error (.table, .size) ∧
    load [.file "layer0.toml" true
      (some (fileOf "layer0.toml" "[parser]\nmax_input_bytes = \x7b\x7d\n"))] =
        .ok ⟨262144, "html"⟩ ∧
    (fileOf "layer0.toml" "\"parser[0]\" = 3\n").entries =
      .ok [("parser[0]", .scalar (.integer 3) "layer0.toml")] ∧
    load [.file "layer0.toml" true (some (fileOf "layer0.toml" "\"parser[0]\" = 3\n"))] =
      .ok ⟨3, "html"⟩ := by
  have hempty : (fileOf "layer0.toml" "[parser]\nmax_input_bytes = \x7b\x7d\n").entries =
      .ok [("parser", .table [("max_input_bytes", .table [] "layer0.toml")] "layer0.toml")] := by
    cbv
  have hitem : (fileOf "layer0.toml" "\"parser[0]\" = 3\n").entries =
      .ok [("parser[0]", .scalar (.integer 3) "layer0.toml")] := by
    cbv
  refine ⟨hempty, rfl, ?_, hitem, ?_⟩
  · rw [load_file hempty]
    cbv
  · rw [load_file hitem]
    cbv

end WikiMarkup.Settings
