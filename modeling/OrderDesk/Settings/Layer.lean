import OrderDesk.Settings.Value

/-! # Layers of settings

A layer is a list of named values. A name is a path of plain names with points between them and
positions in brackets, such as `cache.capacity` or `hosts[0]`; a name of any other form is one plain
name. Later values go over earlier ones.

* `Path.ofName`: the path of a name;
* `Layer.ofVariables`: the layer of the environment variables `ORDERFLOW_…`;
* `Layer.ofTable`: the layer of a settings file;
* `Layer.tree`: the tree of all values. -/

namespace OrderDesk.Settings

/-! ## Names -/

/-- An ASCII letter, a digit, `_` or `-`. -/
def isNameChar (c : Char) : Bool := c.isAlphanum || c == '_' || c == '-'

/-- A position in brackets, after the opening one. -/
def readIndex? (s : List Char) : Option (Int × List Char) :=
  let isSpace (c : Char) := c == ' ' || c == '\t'
  let s := s.dropWhile isSpace
  let (minus, s) : List Char × List Char := match s with
    | '-' :: s => (['-'], s)
    | s => ([], s)
  match (s.dropWhile Char.isDigit).dropWhile isSpace,
    Decimal.readSigned (Nat.pow 2 63 - 1) (minus ++ s.takeWhile Char.isDigit) with
  | ']' :: rest, .ok n => some (n, rest)
  | _, _ => none

/-- The steps after the first name, of which there are at most `fuel`. -/
def readSteps? : (fuel : Nat) → List Char → Option Path
  | _, [] => some []
  | 0, _ => none
  | fuel + 1, '.' :: s =>
    let name := s.takeWhile isNameChar
    if name.isEmpty then none
    else (readSteps? fuel (s.dropWhile isNameChar)).map (.member (.ofList name) :: ·)
  | fuel + 1, '[' :: s => do
    let (index, s) ← readIndex? s
    let path ← readSteps? fuel s
    pure (.element index :: path)
  | _, _ => none

/-- The path of a name of the form `name(.name|[index])*`. -/
def Path.parse? (s : List Char) : Option Path :=
  let name := s.takeWhile isNameChar
  if name.isEmpty then none
  else (readSteps? s.length (s.dropWhile isNameChar)).map (.member (.ofList name) :: ·)

def Path.ofName (name : String) : Path := (Path.parse? name.toList).getD [.member name]

/-! ## Layers -/

/-- Named values, in the order in which they take effect. -/
abbrev Layer := List (String × Value)

/-- Small letters for capitals. Of the letters beyond ASCII only the Kelvin sign has a small letter
that a setting's name can hold. -/
def lowered (s : List Char) : List Char :=
  s.map fun c => if c == '\u212a' then 'k' else c.toLower

/-- The text with a point for every pair of underscores, the leftmost first. -/
def pointed : List Char → List Char
  | '_' :: '_' :: s => '.' :: pointed s
  | c :: s => c :: pointed s
  | [] => []

def variablePrefix : String := "orderflow_"

/-- The name of the setting that a variable is for. -/
def settingName? (name : String) : Option String :=
  let s := lowered name.toList
  let p := variablePrefix.toList
  if s.take p.length = p then some (.ofList (pointed (s.drop p.length))) else none

/-- The value that a variable's text stands for: a truth value, an integer of 64 bits, a number or
the text itself. -/
def Scalar.ofText (s : String) : Scalar :=
  if Double.isWord "true" s.toList then .boolean true
  else if Double.isWord "false" s.toList then .boolean false
  else
    match Decimal.readSigned (Nat.pow 2 63 - 1) s.toList with
    | .ok n => .integer n
    | .error _ =>
      match Double.read? s.toList with
      | some x => .floating x
      | none => .text s

def Layer.ofVariables (environment : List (String × String)) : Layer :=
  environment.filterMap fun (name, text) =>
    (settingName? name).map fun setting =>
      (setting, .scalar (some .environment) (.ofText text))

def Layer.ofTable (file : String) (members : List (String × Toml.Value)) : Layer :=
  Value.ofTomlTable file members

/-- The tree of the layer's values, each put over those before it. -/
def Layer.tree (layer : Layer) : Value :=
  layer.foldl (fun root (name, v) => Value.assign v (Path.ofName name) root) (.table none [])

end OrderDesk.Settings
