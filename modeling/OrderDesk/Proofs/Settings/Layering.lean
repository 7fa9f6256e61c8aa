import OrderDesk.Proofs.Settings.Sources

/-! # Each setting by itself

Whatever the file and the variables set, each field of the settings has the variable's value, else
the file's, else its default, and nothing that is no field matters.

* `layered`: the settings by this rule;
* `recognisedKeys`, `recognisedVariables`: what is left of the sources for the fields;
* `ofSources_layered`: the settings of admissible sources. -/

namespace OrderDesk

/-- A table without the keys that are not among the names. -/
def Toml.Value.only (names : List String) : Toml.Value → Toml.Value
  | .table ms => .table (ms.filter fun m => m.1 ∈ names)
  | v => v

namespace Settings

/-- The settings in which each field has the value of its variable, else that of the file, else its
default. -/
def layered (table : List (String × Toml.Value)) (environment : List (String × String)) :
    Settings :=
  ofSet fun f => (f.fromVariables? environment).or (f.fromTable? table)

/-- What is left of the paths of fields that a key is on the way to. -/
def rests (key : String) : List (List String) :=
  Field.all.filterMap fun f => after? (Path.ofName key) f.path

/-- A file's table without the keys that are neither fields nor sections of fields. -/
def recognisedKeys (table : List (String × Toml.Value)) : List (String × Toml.Value) :=
  (table.filter fun m => rests m.1 ≠ []).map fun m =>
    (m.1, m.2.only ((rests m.1).filterMap List.head?))

/-- The variables that are for fields. -/
def recognisedVariables (environment : List (String × String)) : List (String × String) :=
  environment.filter fun v => Field.all.any fun f => variablePath? v.1 = some (f.path.map .member)

section

variable {table : List (String × Toml.Value)} {environment environment' : List (String × String)}
  {f : Field} {file : String}

/-! ## The settings -/

theorem address_of_validate {s : Settings} (h : s.validate = .ok ()) :
    s.server.address?.isSome := by
  rw [validate] at h
  split at h
  · cases h
  · next hnone =>
    have := List.find?_eq_none.1 hnone .host (by decide)
    simpa [Rule.holds, Option.isSome_iff_ne_none] using this

/-- A text that is the host of valid settings is taken for a text. -/
theorem Admissible.not_onePoint (h : Admissible table environment)
    (valid : (layered table environment).validate = .ok ()) {name text : String}
    (hmem : (name, text) ∈ environment) (hname : variablePath? name = some (f.path.map .member))
    (hf : f.kind = .text) : ¬ OnePoint text.toList := by
  obtain rfl : f = .host := by cases f <;> first | rfl | cases hf
  have hvariable : Field.host.inVariable? (name, text) = some text := if_pos hname
  have hhost : (layered table environment).server.host = text := by
    change ((Field.host.fromVariables? environment).or _).getD _ = text
    rw [Field.fromVariables?_eq h.distinct hmem hvariable]
    rfl
  exact hhost ▸ ServerSettings.not_onePoint (address_of_validate valid)

theorem Admissible.leads (file : String) (h : Admissible table environment)
    (valid : (layered table environment).validate = .ok ()) (f : Field) :
    Value.Leads f.kind.Reads f.path
      (some (Layer.tree (.ofTable file table ++ .ofVariables environment)))
      ((f.fromVariables? environment).or (f.fromTable? table)) := by
  have hfile : ∀ m ∈ table, Layer.Bears f.kind.Reads f.path
      (some (m.1, Value.ofToml file m.2)) (f.inKey? m) := fun m hm => by
    obtain ⟨names, hname, hf⟩ := h.inFile m.1 m.2 hm
    exact bears_of_key ⟨names, hname, hf f⟩
  have henvironment : ∀ v ∈ environment, Layer.Bears f.kind.Reads f.path
      ((settingName? v.1).map fun setting =>
        (setting, .scalar (some .environment) (.ofText v.2))) (f.inVariable? v) := fun v hv => by
    refine bears_of_variable (fun path hpath => ?_) fun hname => h.not_onePoint valid hv hname
    obtain ⟨names, hnames, hf⟩ := h.inEnvironment v.1 v.2 hv path hpath
    exact ⟨names, hnames, hf f⟩
  have hroot : Value.Leads f.kind.Reads f.path (some (.table none [])) none := by
    cases f <;> exact .inside .missing
  have htable : Layer.ofTable file table =
      table.filterMap fun m => some (m.1, Value.ofToml file m.2) := by
    rw [List.filterMap_eq_map', Layer.ofTable, ofTomlTable_eq_map]
  have hreverse : environment.reverse.findSome? f.inVariable? = f.fromVariables? environment :=
    Field.fromVariables?_perm h.distinct (List.reverse_perm environment)
  rw [Layer.tree_eq, List.foldl_append, htable, ← hreverse]
  have := Layer.leads_foldl henvironment (Layer.leads_foldl hfile hroot)
  rw [Option.or_none] at this
  exact this

theorem ofSources_eq (h : Admissible table environment)
    (valid : (layered table environment).validate = .ok ()) :
    ofSources file table environment = .ok (layered table environment) := by
  have hvalue := ofValue_eq_ofSet fun f => h.leads file valid f
  rw [ofSources, ofLayer, hvalue]
  change (Except.mapError _ (layered table environment).validate).bind _ = _
  rw [valid]
  rfl

theorem Admissible.perm (h : Admissible table environment) (hp : environment'.Perm environment) :
    Admissible table environment' where
  inFile := h.inFile
  inEnvironment name text hmem := h.inEnvironment name text (hp.mem_iff.1 hmem)
  distinct := (hp.filterMap _).nodup_iff.2 h.distinct

theorem layered_perm (h : Admissible table environment) (hp : environment'.Perm environment) :
    layered table environment' = layered table environment := by
  have (f : Field) : f.fromVariables? environment' = f.fromVariables? environment :=
    f.fromVariables?_perm h.distinct hp
  simp only [layered, this]

/-- Capitals and small letters make no difference in a variable's name. -/
theorem variablePath?_of_lowered {name : String}
    (h : lowered name.toList = f.variableName.toList) :
    variablePath? name = some (f.path.map .member) := by
  rw [variablePath?, settingName?, h]
  cases f <;> rfl

end

/-! ## What is no setting -/

section

variable {table : List (String × Toml.Value)} {environment : List (String × String)}
  {f : Field} {names rest : List String} {v : Toml.Value}

theorem Fits.only (h : Fits f.kind rest v) : Fits f.kind rest (v.only names) := by
  cases h with
  | value hv =>
    cases v with
    | table => cases hv
    | _ => exact .value hv
  | @table name _ _ distinct hms =>
    refine .table (distinct.sublist (List.filter_sublist.map _)) fun v hv => hms v ?_
    by_cases hk : name ∈ names
    · rwa [lookup_filter_of_mem _ hk] at hv
    · rw [lookup_filter_of_notMem _ hk] at hv
      cases hv

/-- Nothing is lost that the path leads to. -/
theorem at?_only (h : Fits f.kind rest v) (hrest : ∀ k ∈ rest.head?, k ∈ names) :
    (v.only names).at? rest = v.at? rest := by
  cases h with
  | value hv =>
    cases v with
    | table => cases hv
    | _ => rfl
  | table distinct hms =>
    rw [Toml.Value.only, Toml.Value.at?, Toml.Value.at?, lookup_filter_of_mem _ (hrest _ rfl)]

theorem mem_rests {key : String} (h : after? (Path.ofName key) f.path = some rest) :
    rest ∈ rests key :=
  List.mem_filterMap.2 ⟨f, f.mem_all, h⟩

theorem inKey?_of_rests_eq_nil {key : String} (h : rests key = []) : f.inKey? (key, v) = none := by
  have : after? (Path.ofName key) f.path = none :=
    List.filterMap_eq_nil_iff.1 h f f.mem_all
  rw [Field.inKey?, this, Option.bind_none]

theorem Admissible.inKey?_only (h : Admissible table environment) {key : String}
    (hmem : (key, v) ∈ table) : f.inKey? (key, v.only ((rests key).filterMap List.head?)) =
      f.inKey? (key, v) := by
  obtain ⟨names, hname, hf⟩ := h.inFile key v hmem
  rcases hf f with apart | ⟨rest, hpath, hfits⟩
  · simp only [Field.inKey?, hname, after?_apart apart, Option.bind_none]
  · have hafter : after? (Path.ofName key) f.path = some rest := by
      rw [hname, hpath, after?_append]
    have hat : (v.only ((rests key).filterMap List.head?)).at? rest = v.at? rest :=
      at?_only hfits fun k hk => List.mem_filterMap.2 ⟨rest, mem_rests hafter, hk⟩
    simp only [Field.inKey?, hafter, Option.bind_some, hat]

theorem Admissible.fromTable?_recognised (h : Admissible table environment) (f : Field) :
    f.fromTable? (recognisedKeys table) = f.fromTable? table := by
  have hreverse : (recognisedKeys table).reverse = recognisedKeys table.reverse := by
    simp only [recognisedKeys, List.filter_reverse, List.map_reverse]
  rw [Field.fromTable?, Field.fromTable?, hreverse]
  have hsubset : ∀ m ∈ table.reverse, m ∈ table := fun m => List.mem_reverse.1
  generalize table.reverse = ms at hsubset ⊢
  induction ms with
  | nil => rfl
  | cons m ms ih =>
    have hms := ih fun m' hm' => hsubset m' (List.mem_cons_of_mem m hm')
    by_cases hrests : rests m.1 = []
    · have hskip : recognisedKeys (m :: ms) = recognisedKeys ms := by
        simp [recognisedKeys, hrests]
      rw [hskip, hms, List.findSome?_cons, inKey?_of_rests_eq_nil hrests]
    · have hkeep : recognisedKeys (m :: ms) =
          (m.1, m.2.only ((rests m.1).filterMap List.head?)) :: recognisedKeys ms := by
        simp [recognisedKeys, hrests]
      rw [hkeep, List.findSome?_cons, List.findSome?_cons, hms,
        h.inKey?_only (hsubset m List.mem_cons_self)]

theorem Field.mem_recognisedVariables {v : String × String} {x : f.kind.type}
    (hmem : v ∈ environment) (hx : f.inVariable? v = some x) :
    v ∈ recognisedVariables environment := by
  refine List.mem_filter.2 ⟨hmem, List.any_eq_true.2 ⟨f, f.mem_all, ?_⟩⟩
  exact decide_eq_true (Field.variablePath?_of_inVariable? hx)

theorem Admissible.fromVariables?_recognised (h : Admissible table environment) (f : Field) :
    f.fromVariables? (recognisedVariables environment) = f.fromVariables? environment := by
  have hdistinct := h.distinct.sublist (List.filter_sublist.filterMap _ :
    List.Sublist ((recognisedVariables environment).filterMap fun v => variablePath? v.1) _)
  cases hx : f.fromVariables? environment with
  | some x =>
    obtain ⟨v, hv, hvx⟩ := List.exists_of_findSome?_eq_some hx
    exact Field.fromVariables?_eq hdistinct (Field.mem_recognisedVariables hv hvx) hvx
  | none =>
    refine List.findSome?_eq_none_iff.2 fun v hv => ?_
    exact List.findSome?_eq_none_iff.1 hx v (List.mem_of_mem_filter hv)

theorem Admissible.recognised (h : Admissible table environment) :
    Admissible (recognisedKeys table) (recognisedVariables environment) where
  inFile key v hmem := by
    simp only [recognisedKeys, List.mem_map, List.mem_filter, Prod.exists, Prod.mk.injEq] at hmem
    obtain ⟨key, v, ⟨hmem, -⟩, rfl, rfl⟩ := hmem
    obtain ⟨names, hname, hf⟩ := h.inFile key v hmem
    refine ⟨names, hname, fun f => (hf f).imp_right ?_⟩
    rintro ⟨rest, hpath, hfits⟩
    exact ⟨rest, hpath, hfits.only⟩
  inEnvironment name text hmem := h.inEnvironment name text (List.mem_of_mem_filter hmem)
  distinct := h.distinct.sublist (List.filter_sublist.filterMap _)

theorem Admissible.layered_recognised (h : Admissible table environment) :
    layered (recognisedKeys table) (recognisedVariables environment) =
      layered table environment := by
  simp only [layered, h.fromTable?_recognised, h.fromVariables?_recognised]

/-- Each field of the settings is by itself: it has the value of its variable, else that of the
file, else its default. A variable is for a field if its name is, in capitals or small letters, that
of the section and the field with two underscores between them. Neither the order of the variables
matters, nor what is no field. -/
theorem ofSources_layered (file : String) (h : Admissible table environment)
    (valid : (layered table environment).validate = .ok ()) :
    ∃ s, (∀ f : Field, f.get s =
        ((f.fromVariables? environment).or (f.fromTable? table)).getD f.default) ∧
      (∀ (f : Field) (name text : String) (x : f.kind.type), (name, text) ∈ environment →
        lowered name.toList = f.variableName.toList → f.kind.ofText? text = some x →
        f.get s = x) ∧
      (∀ environment', environment'.Perm environment → ofSources file table environment' = .ok s) ∧
      ofSources file (recognisedKeys table) (recognisedVariables environment) = .ok s := by
  refine ⟨layered table environment, get_ofFields _, fun f name text x hmem hname hx => ?_,
    fun environment' hp => ?_, ?_⟩
  · have hvariable : f.inVariable? (name, text) = some x := by
      rw [Field.inVariable?, if_pos (variablePath?_of_lowered hname), hx]
    rw [layered, ofSet, get_ofFields, Field.fromVariables?_eq h.distinct hmem hvariable]
    rfl
  · rw [← layered_perm h hp] at valid ⊢
    exact ofSources_eq (h.perm hp) valid
  · rw [← h.layered_recognised] at valid ⊢
    exact ofSources_eq h.recognised valid

end

theorem ofFields_get (s : Settings) : ofFields (fun f => f.get s) = s := rfl

def sharedTable : List (String × Toml.Value) :=
  [("server", .table [("host", .text "127.0.0.1"), ("greeting", .text "hello")]),
    ("cache", .table [("backend", .text "lru"), ("capacity", .integer 50)]),
    ("colours", .array [])]

def sharedEnvironment : List (String × String) :=
  [("ORDERFLOW_CACHE__BACKEND", "moka"), ("orderflow_Server__Port", "9090"),
    ("ORDERFLOW_LOG__LEVEL", "debug"), ("PATH", "/bin")]

theorem admissible_shared : Admissible sharedTable sharedEnvironment where
  inFile key v hmem := by
    simp only [sharedTable, List.mem_cons, Prod.mk.injEq, List.not_mem_nil, or_false] at hmem
    rcases hmem with ⟨rfl, rfl⟩ | ⟨rfl, rfl⟩ | ⟨rfl, rfl⟩
    · refine ⟨["server"], by decide, fun f => ?_⟩
      cases f
      case host | portNumber =>
        exact .inr ⟨_, rfl, .table (by decide) fun v hv => by
          cases hv <;> exact .value rfl⟩
      all_goals exact .inl (by decide)
    · refine ⟨["cache"], by decide, fun f => ?_⟩
      cases f
      case backend | capacity | warmupLimit | timeToIdle =>
        exact .inr ⟨_, rfl, .table (by decide) fun v hv => by
          cases hv <;> exact .value rfl⟩
      all_goals exact .inl (by decide)
    · exact ⟨["colours"], by decide, fun f => .inl (by cases f <;> decide)⟩
  inEnvironment name text hmem path hpath := by
    simp only [sharedEnvironment, List.mem_cons, Prod.mk.injEq, List.not_mem_nil,
      or_false] at hmem
    rcases hmem with ⟨rfl, rfl⟩ | ⟨rfl, rfl⟩ | ⟨rfl, rfl⟩ | ⟨rfl, rfl⟩
    · refine ⟨Field.backend.path, Option.some.inj (hpath.symm.trans (by decide)), fun f => ?_⟩
      cases f
      case backend => exact .inr ⟨rfl, by decide⟩
      all_goals exact .inl (by decide)
    · refine ⟨Field.portNumber.path, Option.some.inj (hpath.symm.trans (by decide)), fun f => ?_⟩
      cases f
      case portNumber => exact .inr ⟨rfl, by decide⟩
      all_goals exact .inl (by decide)
    · refine ⟨["log", "level"], Option.some.inj (hpath.symm.trans (by decide)), fun f => .inl ?_⟩
      cases f <;> decide
    · cases hpath
  distinct := by decide

/-- The file and the variables share the sections. -/
theorem ofSources_shared : (layered sharedTable sharedEnvironment).validate = .ok () ∧
    ofSources "orderflow.toml" sharedTable sharedEnvironment = .ok
      { server := { host := "127.0.0.1", portNumber := 9090 }
        cache := { backend := .moka, capacity := 50 } } := by
  have valid : (layered sharedTable sharedEnvironment).validate = .ok () := by decide +kernel
  refine ⟨valid, ?_⟩
  obtain ⟨s, hfields, -, hs, -⟩ := ofSources_layered "orderflow.toml" admissible_shared valid
  rw [hs _ (List.Perm.refl _), ← ofFields_get s, funext hfields]
  decide +kernel

end Settings

end OrderDesk
