import OrderDesk.Proofs.Settings.Texts
import OrderDesk.Proofs.Settings.Tree

/-! # The fields of the settings

* `Kind`: the kinds of values that fields have, and how they are written in variables and files;
* `Field`: a field, by its place, its kind and its default;
* `ofFields`: the settings with given fields;
* `ofValue_eq_ofSet`: settings are read from a tree field by field. -/

namespace OrderDesk.Settings

/-! ## Kinds -/

inductive Kind where
  | text
  | backend
  /-- A number of so many bits. -/
  | narrow (bits : Nat)
  | unsigned
  /-- A number that may be missing. -/
  | optional
  deriving DecidableEq, Repr

namespace Kind

@[reducible] def type : Kind → Type
  | .text => String
  | .backend => CacheBackend
  | .narrow _ => Nat
  | .unsigned => Nat
  | .optional => Option Nat

def read : (k : Kind) → Located → Except ConversionError k.type
  | .text => Located.text
  | .backend => Located.backend
  | .narrow bits => Located.narrow bits
  | .unsigned => Located.unsigned
  | .optional => Located.optional Located.unsigned

def inRange? (bits : Nat) (i : Int) : Option Nat :=
  if 0 ≤ i ∧ i.toNat < Nat.pow 2 bits then some i.toNat else none

/-- The value that a word stands for, where words are values. -/
def ofWord? : (k : Kind) → String → Option k.type
  | .text, s => some s
  | .backend, s => [CacheBackend.lru, .moka].find? (·.name = s)
  | _, _ => none

/-- The value that an integer stands for, where integers are values. None has more than 63 bits. -/
def ofInt? : (k : Kind) → Int → Option k.type
  | .narrow bits, i => inRange? (min bits 63) i
  | .unsigned, i => inRange? 63 i
  | .optional, i => (inRange? 63 i).map some
  | _, _ => none

/-- The value that a variable's text is for a field of the kind. -/
def ofText? (k : Kind) (s : String) : Option k.type :=
  (k.ofWord? s).or ((Decimal.numeral? s.toList).bind k.ofInt?)

/-- The value that a value in a file is for a field of the kind. -/
def ofToml? (k : Kind) : Toml.Value → Option k.type
  | .text s => k.ofWord? s
  | .integer i => k.ofInt? i
  | _ => none

variable {k : Kind} {x : k.type} {i : Int} {bits n : Nat} {text key file : String}
  {s : Option Source} {v : Toml.Value}

theorem inRange?_eq_some_iff : inRange? bits i = some n ↔ (n : Int) = i ∧ n < Nat.pow 2 bits := by
  simp only [inRange?, Option.ite_none_right_eq_some, Option.some.injEq]
  omega

theorem unsigned_of_inRange? (h : inRange? bits i = some n) :
    Located.unsigned ⟨key, .scalar s (.integer i)⟩ = .ok n := by
  obtain ⟨rfl, -⟩ := inRange?_eq_some_iff.1 h
  rfl

theorem read_of_ofWord? (h : k.ofWord? text = some x) :
    k.read ⟨key, .scalar s (.text text)⟩ = .ok x := by
  cases k with
  | text =>
    cases h
    rfl
  | backend =>
    change [CacheBackend.lru, .moka].find? (·.name = text) = some x at h
    simp only [read, Located.backend, Located.backendNamed, h]
  | narrow | unsigned | optional => cases h

theorem read_of_ofInt? (h : k.ofInt? i = some x) :
    k.read ⟨key, .scalar s (.integer i)⟩ = .ok x := by
  cases k with
  | text | backend => cases h
  | narrow bits =>
    change inRange? (min bits 63) i = some x at h
    have hx : x < Nat.pow 2 bits :=
      Nat.lt_of_lt_of_le (inRange?_eq_some_iff.1 h).2
        (Nat.pow_le_pow_right (by decide) (Nat.min_le_left bits 63))
    simp only [read, Located.narrow, unsigned_of_inRange? h, bind, Except.bind, if_pos hx]
    rfl
  | unsigned => exact unsigned_of_inRange? h
  | optional =>
    obtain ⟨n, hn, rfl⟩ := Option.map_eq_some_iff.1 h
    simp only [read, Located.optional, unsigned_of_inRange? hn, Except.map]

theorem read_of_ofToml? (file : String) (h : k.ofToml? v = some x) :
    ∃ c, Value.ofToml file v = .scalar (some (.file file)) c ∧
      ∀ key, k.read ⟨key, .scalar (some (.file file)) c⟩ = .ok x := by
  cases v with
  | text t => exact ⟨.text t, by rw [Value.ofToml], fun key => read_of_ofWord? h⟩
  | integer i => exact ⟨.integer i, by rw [Value.ofToml], fun key => read_of_ofInt? h⟩
  | _ => cases h

theorem lt_of_ofInt? (h : k.ofInt? i = some x) : 0 ≤ i ∧ i.toNat < Nat.pow 2 63 := by
  have hrange {bits n : Nat} (hbits : bits ≤ 63) (h : inRange? bits i = some n) :
      0 ≤ i ∧ i.toNat < Nat.pow 2 63 := by
    obtain ⟨rfl, hlt⟩ := inRange?_eq_some_iff.1 h
    exact ⟨Int.natCast_nonneg n, Nat.lt_of_lt_of_le hlt (Nat.pow_le_pow_right (by decide) hbits)⟩
  cases k with
  | text | backend => cases h
  | narrow bits => exact hrange (Nat.min_le_right bits 63) h
  | unsigned => exact hrange (Nat.le_refl 63) h
  | optional =>
    obtain ⟨n, hn, -⟩ := Option.map_eq_some_iff.1 h
    exact hrange (Nat.le_refl 63) hn

/-- The text of a variable is taken for what it is, except for a text that is no host. -/
theorem read_of_ofText? (h : k.ofText? text = some x) (hhost : k = .text → ¬ OnePoint text.toList) :
    k.read ⟨key, .scalar s (.ofText text)⟩ = .ok x := by
  rcases Option.or_eq_some_iff.1 h with hword | ⟨-, hint⟩
  · have htext : Scalar.ofText text = .text text := by
      cases k with
      | text => exact Scalar.ofText_eq_text (hhost rfl)
      | backend =>
        have hname : x.name = text := by simpa using List.find?_some hword
        rw [← hname]
        cases x <;> decide
      | narrow | unsigned | optional => cases hword
    rw [htext]
    exact read_of_ofWord? hword
  · obtain ⟨i, hi, hx⟩ := Option.bind_eq_some_iff.1 hint
    obtain ⟨hlow, hhigh⟩ := lt_of_ofInt? hx
    rw [Scalar.ofText_of_numeral? hi hlow hhigh]
    exact read_of_ofInt? hx

end Kind

/-! ## Fields -/

inductive Field where
  | host
  | portNumber
  | backend
  | capacity
  | warmupLimit
  | timeToIdle
  | maxRetries
  | retryCapacity
  | backoff
  | pollInterval
  | errorBackoff
  | deadLetterCapacity
  | channelCapacity
  | shutdownTimeout
  deriving DecidableEq, Repr

namespace Field

def all : List Field :=
  [.host, .portNumber, .backend, .capacity, .warmupLimit, .timeToIdle, .maxRetries, .retryCapacity,
    .backoff, .pollInterval, .errorBackoff, .deadLetterCapacity, .channelCapacity,
    .shutdownTimeout]

theorem mem_all (f : Field) : f ∈ all := by cases f <;> decide

/-- The field's name, after that of its section if it is in one. -/
def path : Field → List String
  | .host => ["server", "host"]
  | .portNumber => ["server", "port"]
  | .backend => ["cache", "backend"]
  | .capacity => ["cache", "capacity"]
  | .warmupLimit => ["cache", "warmup_limit"]
  | .timeToIdle => ["cache", "time_to_idle_secs"]
  | .maxRetries => ["ingest", "max_retries"]
  | .retryCapacity => ["ingest", "retry_capacity"]
  | .backoff => ["ingest", "fixed_backoff_ms"]
  | .pollInterval => ["ingest", "poll_interval_ms"]
  | .errorBackoff => ["ingest", "error_backoff_ms"]
  | .deadLetterCapacity => ["ingest", "dead_letter_capacity"]
  | .channelCapacity => ["ingest", "channel_capacity"]
  | .shutdownTimeout => ["shutdown_timeout_secs"]

@[reducible] def kind : Field → Kind
  | .host => .text
  | .portNumber => .narrow 16
  | .backend => .backend
  | .timeToIdle => .optional
  | .maxRetries => .narrow 32
  | .capacity | .warmupLimit | .retryCapacity | .backoff | .pollInterval | .errorBackoff
  | .deadLetterCapacity | .channelCapacity | .shutdownTimeout => .unsigned

def get (s : Settings) : (f : Field) → f.kind.type
  | .host => s.server.host
  | .portNumber => s.server.portNumber
  | .backend => s.cache.backend
  | .capacity => s.cache.capacity
  | .warmupLimit => s.cache.warmupLimit
  | .timeToIdle => s.cache.timeToIdle
  | .maxRetries => s.ingest.maxRetries
  | .retryCapacity => s.ingest.retryCapacity
  | .backoff => s.ingest.backoff
  | .pollInterval => s.ingest.pollInterval
  | .errorBackoff => s.ingest.errorBackoff
  | .deadLetterCapacity => s.ingest.deadLetterCapacity
  | .channelCapacity => s.ingest.channelCapacity
  | .shutdownTimeout => s.shutdownTimeout

def default (f : Field) : f.kind.type := f.get {}

end Field

/-- The settings with given fields. -/
def ofFields (g : (f : Field) → f.kind.type) : Settings where
  server := { host := g .host, portNumber := g .portNumber }
  cache := {
    backend := g .backend
    capacity := g .capacity
    warmupLimit := g .warmupLimit
    timeToIdle := g .timeToIdle }
  ingest := {
    maxRetries := g .maxRetries
    retryCapacity := g .retryCapacity
    backoff := g .backoff
    pollInterval := g .pollInterval
    errorBackoff := g .errorBackoff
    deadLetterCapacity := g .deadLetterCapacity
    channelCapacity := g .channelCapacity }
  shutdownTimeout := g .shutdownTimeout

theorem get_ofFields (g : (f : Field) → f.kind.type) (f : Field) : f.get (ofFields g) = g f := by
  cases f <;> rfl

/-! ## Reading a tree -/

/-- A value is read as `x`, under whatever key it stands. -/
def Kind.Reads (k : Kind) (v : Value) (x : k.type) : Prop := ∀ key, k.read ⟨key, v⟩ = .ok x

/-- The value is a table. -/
def Value.isTable : Value → Bool
  | .table .. => true
  | _ => false

section

variable {k : Kind} {default : k.type} {x? : Option k.type} {root w : Value} {name inner : String}

theorem readOr_of_leads (default : k.type) (h : Value.Leads k.Reads [name] (some root) x?) :
    readOr default k.read ((root.asTable.2.lookup name).map fun v => ⟨name, v⟩) =
      .ok (x?.getD default) := by
  cases h with
  | inside h =>
    dsimp only [Value.asTable]
    generalize List.lookup name _ = v? at h ⊢
    cases h with
    | missing => rfl
    | here hx => exact hx name

/-- A section that is there is a table, and the field is read from it. -/
theorem readOr_of_leads_inner (h : Value.Leads k.Reads [name, inner] (some root) x?)
    (hw : root.asTable.2.lookup name = some w) :
    w.isTable ∧ ∀ key i, readOr default k.read (Located.field? ⟨key, w⟩ i inner) =
      .ok (x?.getD default) := by
  cases h with
  | inside h =>
    dsimp only [Value.asTable] at hw
    rw [hw] at h
    cases h with
    | inside h =>
      refine ⟨rfl, fun key i => ?_⟩
      dsimp only [Located.field?]
      generalize List.lookup inner _ = v? at h ⊢
      cases h with
      | missing => rfl
      | here hx => exact hx _

theorem eq_none_of_leads_inner (h : Value.Leads k.Reads [name, inner] (some root) x?)
    (hnone : root.asTable.2.lookup name = none) : x? = none := by
  cases h with
  | inside h =>
    dsimp only [Value.asTable] at hnone
    rw [hnone] at h
    cases h
    rfl

end

theorem checkSection_of_isTable {section_ key : String} {w : Value} (h : w.isTable) :
    Located.checkSection section_ ⟨key, w⟩ = .ok () := by
  cases w with
  | table => rfl
  | scalar | array => cases h

theorem bind_of_eq_ok {ε α β : Type} {r : Except ε α} {a : α} (h : r = .ok a)
    (f : α → Except ε β) : r >>= f = f a := by
  rw [h]
  rfl

section

variable {root : Value} {get : (f : Field) → Option f.kind.type}

/-- The settings by the fields that are set, the others having their defaults. -/
def ofSet (get : (f : Field) → Option f.kind.type) : Settings :=
  ofFields fun f => (get f).getD f.default

variable (h : ∀ f : Field, Value.Leads f.kind.Reads f.path (some root) (get f))
include h

theorem Field.inner (f : Field) {name inner : String} {w : Value} (hpath : f.path = [name, inner])
    (hw : root.asTable.2.lookup name = some w) : w.isTable ∧ ∀ key i,
      readOr f.default f.kind.read (Located.field? ⟨key, w⟩ i inner) =
        .ok ((get f).getD f.default) :=
  readOr_of_leads_inner (hpath ▸ h f) hw

theorem Field.eq_none (f : Field) {name inner : String} (hpath : f.path = [name, inner])
    (hnone : root.asTable.2.lookup name = none) : get f = none :=
  eq_none_of_leads_inner (hpath ▸ h f) hnone

theorem readOr_server : readOr ({} : Settings).server serverOf
    ((root.asTable.2.lookup "server").map fun v => ⟨"server", v⟩) = .ok (ofSet get).server := by
  cases hw : root.asTable.2.lookup "server" with
  | none =>
    simp only [ofSet, ofFields, Field.host.eq_none h rfl hw, Field.portNumber.eq_none h rfl hw]
    rfl
  | some w =>
    have hread (f : Field) {inner : String} (hpath : f.path = ["server", inner]) :=
      f.inner h hpath hw
    change serverOf ⟨"server", w⟩ = _
    rw [serverOf]
    refine (bind_of_eq_ok (checkSection_of_isTable (hread .host rfl).1) _).trans ?_
    refine (bind_of_eq_ok ((hread .host rfl).2 _ 0) _).trans ?_
    refine (bind_of_eq_ok ((hread .portNumber rfl).2 _ 1) _).trans ?_
    rfl

theorem readOr_cache : readOr ({} : Settings).cache cacheOf
    ((root.asTable.2.lookup "cache").map fun v => ⟨"cache", v⟩) = .ok (ofSet get).cache := by
  cases hw : root.asTable.2.lookup "cache" with
  | none =>
    simp only [ofSet, ofFields, Field.backend.eq_none h rfl hw, Field.capacity.eq_none h rfl hw,
      Field.warmupLimit.eq_none h rfl hw, Field.timeToIdle.eq_none h rfl hw]
    rfl
  | some w =>
    have hread (f : Field) {inner : String} (hpath : f.path = ["cache", inner]) :=
      f.inner h hpath hw
    change cacheOf ⟨"cache", w⟩ = _
    rw [cacheOf]
    refine (bind_of_eq_ok (checkSection_of_isTable (hread .backend rfl).1) _).trans ?_
    refine (bind_of_eq_ok ((hread .backend rfl).2 _ 0) _).trans ?_
    refine (bind_of_eq_ok ((hread .capacity rfl).2 _ 1) _).trans ?_
    refine (bind_of_eq_ok ((hread .warmupLimit rfl).2 _ 2) _).trans ?_
    refine (bind_of_eq_ok ((hread .timeToIdle rfl).2 _ 3) _).trans ?_
    rfl

theorem readOr_ingest : readOr ({} : Settings).ingest ingestOf
    ((root.asTable.2.lookup "ingest").map fun v => ⟨"ingest", v⟩) = .ok (ofSet get).ingest := by
  cases hw : root.asTable.2.lookup "ingest" with
  | none =>
    simp only [ofSet, ofFields, Field.maxRetries.eq_none h rfl hw,
      Field.retryCapacity.eq_none h rfl hw, Field.backoff.eq_none h rfl hw,
      Field.pollInterval.eq_none h rfl hw, Field.errorBackoff.eq_none h rfl hw,
      Field.deadLetterCapacity.eq_none h rfl hw, Field.channelCapacity.eq_none h rfl hw]
    rfl
  | some w =>
    have hread (f : Field) {inner : String} (hpath : f.path = ["ingest", inner]) :=
      f.inner h hpath hw
    change ingestOf ⟨"ingest", w⟩ = _
    rw [ingestOf]
    refine (bind_of_eq_ok (checkSection_of_isTable (hread .maxRetries rfl).1) _).trans ?_
    refine (bind_of_eq_ok ((hread .maxRetries rfl).2 _ 0) _).trans ?_
    refine (bind_of_eq_ok ((hread .retryCapacity rfl).2 _ 1) _).trans ?_
    refine (bind_of_eq_ok ((hread .backoff rfl).2 _ 2) _).trans ?_
    refine (bind_of_eq_ok ((hread .pollInterval rfl).2 _ 3) _).trans ?_
    refine (bind_of_eq_ok ((hread .errorBackoff rfl).2 _ 4) _).trans ?_
    refine (bind_of_eq_ok ((hread .deadLetterCapacity rfl).2 _ 5) _).trans ?_
    refine (bind_of_eq_ok ((hread .channelCapacity rfl).2 _ 6) _).trans ?_
    rfl

/-- Settings are read from a tree field by field. -/
theorem ofValue_eq_ofSet : ofValue root = .ok (ofSet get) := by
  rw [ofValue]
  refine (bind_of_eq_ok (readOr_server h) _).trans ?_
  refine (bind_of_eq_ok (readOr_cache h) _).trans ?_
  refine (bind_of_eq_ok (readOr_ingest h) _).trans ?_
  refine (bind_of_eq_ok (readOr_of_leads Field.shutdownTimeout.default (h .shutdownTimeout))
    _).trans ?_
  rfl

end

end OrderDesk.Settings
