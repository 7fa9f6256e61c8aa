import OrderDesk.Settings.Load
import OrderDesk.Proofs.Settings.Fields
import Mathlib.Data.List.Basic
import Mathlib.Data.List.Pairwise

/-! # What files and variables say about a field

* `Field.fromVariables?`, `Field.fromTable?`: the value that a source has for a field;
* `Admissible`: every field that is set has a value of its kind, and no other name is in the way;
* `bears_of_key`, `bears_of_variable`: such a value is read back from the tree of its source;
* `Field.fromVariables?_perm`: the order of the variables does not matter. -/

namespace OrderDesk

/-- The value at the end of a path of keys. -/
def Toml.Value.at? : List String → Toml.Value → Option Toml.Value
  | [], v => some v
  | k :: path, .table ms => (ms.lookup k).bind (at? path)
  | _ :: _, _ => none

namespace Settings

/-! ## What the sources say -/

/-- What is left of a path of names after the steps. -/
def after? : Path → List String → Option (List String)
  | [], path => some path
  | .member name :: steps, k :: path => if name = k then after? steps path else none
  | _, _ => none

/-- The path of the setting that a variable is for. -/
def variablePath? (name : String) : Option Path := (settingName? name).map Path.ofName

namespace Field

/-- The name of the field's variable, in small letters. -/
def variableName (f : Field) : String := variablePrefix ++ "__".intercalate f.path

/-- What a variable says about the field. -/
def inVariable? (f : Field) (v : String × String) : Option f.kind.type :=
  if variablePath? v.1 = some (f.path.map .member) then f.kind.ofText? v.2 else none

/-- What a key of a file says about the field. -/
def inKey? (f : Field) (key : String × Toml.Value) : Option f.kind.type :=
  (after? (Path.ofName key.1) f.path).bind fun rest => (key.2.at? rest).bind f.kind.ofToml?

def fromVariables? (f : Field) (environment : List (String × String)) : Option f.kind.type :=
  environment.findSome? f.inVariable?

/-- The value of the field in a file. Only keys with points in them can be several for one field, of
which the last counts. -/
def fromTable? (f : Field) (table : List (String × Toml.Value)) : Option f.kind.type :=
  table.reverse.findSome? f.inKey?

end Field

/-! ## Admissible sources -/

/-- Where the path is still to go to a field of the kind, there are tables, and a value of the kind
if the path goes to its end. -/
inductive Fits (k : Kind) : List String → Toml.Value → Prop
  | value {v : Toml.Value} (h : (k.ofToml? v).isSome) : Fits k [] v
  | table {name : String} {path : List String} {ms : List (String × Toml.Value)}
      (distinct : (ms.map Prod.fst).Nodup) (h : ∀ v, ms.lookup name = some v → Fits k path v) :
      Fits k (name :: path) (.table ms)

/-- Every name in the sources is a path of plain names, which leads to fields or sections with
fitting values, or else is neither a beginning nor a continuation of a field's path. No two
variables are for the same path. -/
structure Admissible (table : List (String × Toml.Value)) (environment : List (String × String)) :
    Prop where
  inFile : ∀ key v, (key, v) ∈ table → ∃ names : List String,
    Path.ofName key = names.map .member ∧
      ∀ f : Field, Apart names f.path ∨ ∃ rest, f.path = names ++ rest ∧ Fits f.kind rest v
  inEnvironment : ∀ name text, (name, text) ∈ environment → ∀ path, variablePath? name = some path →
    ∃ names : List String, path = names.map .member ∧
      ∀ f : Field, Apart names f.path ∨ names = f.path ∧ (f.kind.ofText? text).isSome
  distinct : (environment.filterMap fun v => variablePath? v.1).Nodup

section

variable {names path rest : List String} {k : Kind} {v : Toml.Value} {file : String} {f : Field}

theorem map_member_injective : Function.Injective (List.map Step.member) :=
  List.map_injective_iff.2 fun _ _ h => by injection h

theorem Apart.ne (h : Apart names path) : names ≠ path := by
  rintro rfl
  exact h.1 (List.prefix_refl names)

theorem after?_append (names rest : List String) :
    after? (names.map .member) (names ++ rest) = some rest := by
  induction names with
  | nil => cases rest <;> rfl
  | cons name names ih => simpa [after?] using ih

theorem after?_apart (h : Apart names path) : after? (names.map .member) path = none := by
  induction names generalizing path with
  | nil => exact absurd List.nil_prefix h.1
  | cons name names ih =>
    cases path with
    | nil => rfl
    | cons k path =>
      rw [List.map_cons, after?]
      split
      · next hk =>
        subst hk
        exact ih h.tail
      · rfl

/-! ## Files -/

theorem lookup_ofTomlTable (file k : String) (ms : List (String × Toml.Value)) :
    (Value.ofTomlTable file ms).lookup k = (ms.lookup k).map (Value.ofToml file) := by
  induction ms with
  | nil => rfl
  | cons m ms ih =>
    rw [Value.ofTomlTable, List.lookup_cons, List.lookup_cons, ih]
    split <;> rfl

theorem ofTomlTable_eq_map (file : String) (ms : List (String × Toml.Value)) :
    Value.ofTomlTable file ms = ms.map fun m => (m.1, Value.ofToml file m.2) := by
  induction ms with
  | nil => rfl
  | cons m ms ih => rw [Value.ofTomlTable, ih, List.map_cons]

theorem Fits.sets (h : Fits k rest v) :
    Value.Sets k.Reads rest (Value.ofToml file v) ((v.at? rest).bind k.ofToml?) := by
  induction h with
  | value h =>
    obtain ⟨x, hx⟩ := Option.isSome_iff_exists.1 h
    obtain ⟨c, hc, hread⟩ := Kind.read_of_ofToml? file hx
    rw [hc, Toml.Value.at?, Option.bind_some, hx]
    exact .scalar hread
  | @table name path ms distinct h ih =>
    have hkeys : ((Value.ofTomlTable file ms).map Prod.fst).Nodup := by
      rw [ofTomlTable_eq_map, List.map_map]
      exact distinct
    rw [Value.ofToml, Toml.Value.at?]
    cases hv : ms.lookup name with
    | none => exact .absent hkeys (by rw [lookup_ofTomlTable, hv]; rfl)
    | some v => exact .inside hkeys (by rw [lookup_ofTomlTable, hv]; rfl) (ih v hv)

theorem bears_of_key {key : String}
    (h : ∃ names : List String, Path.ofName key = names.map .member ∧
      (Apart names f.path ∨ ∃ rest, f.path = names ++ rest ∧ Fits f.kind rest v)) :
    Layer.Bears f.kind.Reads f.path (some (key, Value.ofToml file v)) (f.inKey? (key, v)) := by
  obtain ⟨names, hname, hf⟩ := h
  rw [Field.inKey?, hname]
  rcases hf with apart | ⟨rest, hpath, hfits⟩
  · rw [after?_apart apart]
    exact .apart hname apart
  · rw [hpath, after?_append]
    exact .sets hname rfl hfits.sets

/-! ## Variables -/

/-- What a variable says about a field is read back from it, unless it is a host that is none. -/
theorem bears_of_variable {name text : String}
    (h : ∀ path, variablePath? name = some path → ∃ names : List String, path = names.map .member ∧
      (Apart names f.path ∨ names = f.path ∧ (f.kind.ofText? text).isSome))
    (hhost : variablePath? name = some (f.path.map .member) → f.kind = .text →
      ¬ OnePoint text.toList) :
    Layer.Bears f.kind.Reads f.path ((settingName? name).map fun setting =>
      (setting, .scalar (some .environment) (.ofText text))) (f.inVariable? (name, text)) := by
  cases hsetting : settingName? name with
  | none =>
    rw [Field.inVariable?, if_neg (by simp [variablePath?, hsetting])]
    exact .none
  | some setting =>
    have hvariable : variablePath? name = some (Path.ofName setting) := by
      rw [variablePath?, hsetting, Option.map_some]
    obtain ⟨names, hname, hf⟩ := h _ hvariable
    rw [hname] at hvariable
    rcases hf with apart | ⟨rfl, hvalue⟩
    · have hne : variablePath? name ≠ some (f.path.map .member) := fun h =>
        apart.ne (map_member_injective (Option.some.inj (hvariable.symm.trans h)))
      rw [Field.inVariable?, if_neg hne]
      exact .apart hname apart
    · obtain ⟨x, hx⟩ := Option.isSome_iff_exists.1 hvalue
      rw [Field.inVariable?, if_pos hvariable, hx]
      exact .sets hname (List.append_nil _).symm
        (.scalar fun key => Kind.read_of_ofText? hx (hhost hvariable))

end

/-! ## One variable for a field -/

section

variable {environment environment' : List (String × String)} {f : Field}

theorem eq_of_variablePath? {v w : String × String} {path : Path}
    (h : (environment.filterMap fun v => variablePath? v.1).Nodup) (hv : v ∈ environment)
    (hw : w ∈ environment) (hvpath : variablePath? v.1 = some path)
    (hwpath : variablePath? w.1 = some path) : v = w := by
  by_contra hne
  have hpairs := List.pairwise_filterMap.1 h
  have hsymm : Std.Symm fun v w : String × String => ∀ p, variablePath? v.1 = some p →
      ∀ q, variablePath? w.1 = some q → p ≠ q := ⟨fun v w hvw p hp q hq => (hvw q hq p hp).symm⟩
  exact hpairs.forall hv hw hne path hvpath path hwpath rfl

theorem Field.variablePath?_of_inVariable? {v : String × String} {x : f.kind.type}
    (h : f.inVariable? v = some x) : variablePath? v.1 = some (f.path.map .member) := by
  rw [Field.inVariable?] at h
  split at h
  · assumption
  · cases h

/-- The one variable for a field says what its value is. -/
theorem Field.fromVariables?_eq {v : String × String} {x : f.kind.type}
    (h : (environment.filterMap fun v => variablePath? v.1).Nodup) (hv : v ∈ environment)
    (hx : f.inVariable? v = some x) : f.fromVariables? environment = some x := by
  obtain ⟨y, hy⟩ : ∃ y, f.fromVariables? environment = some y := by
    refine Option.isSome_iff_exists.1 (List.findSome?_isSome_iff.2 ⟨v, hv, ?_⟩)
    rw [hx]
    rfl
  obtain ⟨w, hw, hwy⟩ := List.exists_of_findSome?_eq_some hy
  have hvw := eq_of_variablePath? h hv hw (Field.variablePath?_of_inVariable? hx)
    (Field.variablePath?_of_inVariable? hwy)
  rw [hy, ← hwy, ← hvw, hx]

theorem Field.fromVariables?_perm (h : (environment.filterMap fun v => variablePath? v.1).Nodup)
    (hp : environment'.Perm environment) :
    f.fromVariables? environment' = f.fromVariables? environment := by
  cases hx : f.fromVariables? environment' with
  | some x =>
    obtain ⟨v, hv, hvx⟩ := List.exists_of_findSome?_eq_some hx
    exact (Field.fromVariables?_eq h (hp.mem_iff.1 hv) hvx).symm
  | none =>
    refine (List.findSome?_eq_none_iff.2 fun v hv => ?_).symm
    exact List.findSome?_eq_none_iff.1 hx v (hp.mem_iff.2 hv)

end

end Settings

end OrderDesk
