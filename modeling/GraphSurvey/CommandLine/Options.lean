import GraphSurvey.Config.Basic

/-!
# Options of the command line

Options are read from left to right, and the first argument that is none ends the reading. An option
with a value has it behind an equals sign, directly behind its letter, or in the next argument,
which may then not look like an option. Models, graphs and attributes may be given again, all else
only once.

## Main definitions

* `GraphSurvey.Options`, `GraphSurvey.Options.parse` — the options, and reading them.
* `GraphSurvey.Options.apply` — the configuration that the options make of one.
-/

namespace GraphSurvey

/-- The options of the program. -/
structure Options where
  config : Option String
  models : List String
  graphFiles : List String
  attributes : List String
  format : Option OutputFormat
  summaryOnly : Bool
  sequential : Bool
  list : Bool

namespace Options

/-- No options. -/
def none : Options := ⟨.none, [], [], [], .none, false, false, false⟩

/-- An option with a value. -/
inductive ValueOption where
  | config
  | model
  | graph
  | attribute
  | format
  deriving DecidableEq, Repr

/-- An option without a value. -/
inductive Switch where
  | summaryOnly
  | sequential
  | list
  | version
  | help
  deriving DecidableEq, Repr

/-- What the arguments ask for. -/
inductive Request where
  | run (options : Options)
  | version
  | help
  /-- The arguments cannot be read. -/
  | refused

/-- The option with a value of a long name. -/
def valueOption? : String → Option ValueOption
  | "config" => some .config
  | "model" => some .model
  | "graph" => some .graph
  | "attribute" => some .attribute
  | "format" => some .format
  | _ => .none

/-- The option without a value of a long name. -/
def switch? : String → Option Switch
  | "summary-only" => some .summaryOnly
  | "sequential" => some .sequential
  | "list" => some .list
  | "version" => some .version
  | "help" => some .help
  | _ => .none

/-- The option with a value of a letter. -/
def valueLetter? : Char → Option ValueOption
  | 'c' => some .config
  | 'm' => some .model
  | 'g' => some .graph
  | 'a' => some .attribute
  | 'f' => some .format
  | _ => .none

/-- The option without a value of a letter. -/
def switchLetter? : Char → Option Switch
  | 'V' => some .version
  | 'h' => some .help
  | _ => .none

/-- The options with one more value. A path may not be empty, and a format must be known. -/
def withValue (o : Options) : ValueOption → String → Option Options
  | .config, v => if v = "" ∨ o.config.isSome then .none else some { o with config := some v }
  | .model, v => some { o with models := o.models ++ [v] }
  | .graph, v => if v = "" then .none else some { o with graphFiles := o.graphFiles ++ [v] }
  | .attribute, v => some { o with attributes := o.attributes ++ [v] }
  | .format, v =>
    match OutputFormat.ofName? v with
    | some f => if o.format.isSome then .none else some { o with format := some f }
    | .none => .none

/-- The argument may be the value of the option before it. -/
def isValue (arg : String) : Bool := arg = "-" || arg.toList.head? ≠ some '-'

/-- A long option with what stands behind its equals sign. -/
def splitLong (chars : List Char) : String × Option String :=
  let name := chars.takeWhile (· ≠ '=')
  match chars.dropWhile (· ≠ '=') with
  | [] => (String.ofList name, .none)
  | _ :: v => (String.ofList name, some (String.ofList v))

/-- What an argument is. -/
inductive Argument where
  /-- An option with its value. -/
  | assigned (opt : ValueOption) (v : String)
  /-- An option whose value is the next argument. -/
  | pending (opt : ValueOption)
  | switch (s : Switch)
  /-- The end of the options. -/
  | separator
  | unknown

/-- What an argument is. Behind its letter, the value of an option may have an equals sign. -/
def classify (arg : String) : Argument :=
  match arg.toList with
  | ['-', '-'] => .separator
  | '-' :: '-' :: long =>
    let (name, v) := splitLong long
    match valueOption? name, switch? name, v with
    | some opt, _, some v => .assigned opt v
    | some opt, _, .none => .pending opt
    | .none, some s, .none => .switch s
    | .none, _, _ => .unknown
  | '-' :: letter :: rest =>
    match valueLetter? letter, switchLetter? letter, rest with
    | some opt, _, [] => .pending opt
    | some opt, _, '=' :: v => .assigned opt (String.ofList v)
    | some opt, _, v => .assigned opt (String.ofList v)
    | .none, some s, _ => .switch s
    | .none, .none, _ => .unknown
  | _ => .unknown

/-- The options with one more switch, unless it is given already, and the requests that end the
reading. -/
def withSwitch (o : Options) : Switch → Except Request Options
  | .summaryOnly => if o.summaryOnly then .error .refused else .ok { o with summaryOnly := true }
  | .sequential => if o.sequential then .error .refused else .ok { o with sequential := true }
  | .list => if o.list then .error .refused else .ok { o with list := true }
  | .version => .error .version
  | .help => .error .help

/-- Reads the arguments after those that gave the options so far. -/
def parseFrom (o : Options) : List String → Request
  | [] => .run o
  | arg :: rest =>
    match classify arg with
    | .assigned opt v =>
      match o.withValue opt v with
      | some o => parseFrom o rest
      | .none => .refused
    | .pending opt =>
      match rest with
      | [] => .refused
      | v :: rest =>
        if isValue v then
          match o.withValue opt v with
          | some o => parseFrom o rest
          | .none => .refused
        else .refused
    | .switch s =>
      match o.withSwitch s with
      | .ok o => parseFrom o rest
      | .error request => request
    | .separator => if rest.isEmpty then .run o else .refused
    | .unknown => .refused

/-- Reads the arguments of the program. -/
def parse (args : List String) : Request := parseFrom none args

/-- The configuration with all that the options say. -/
def apply (o : Options) (c : Config) : Config where
  models := if o.models.isEmpty then c.models else o.models
  graphFiles := if o.graphFiles.isEmpty then c.graphFiles else o.graphFiles
  attributes := if o.attributes.isEmpty then c.attributes else o.attributes
  histogramField := c.histogramField
  inputColumns := c.inputColumns
  columns := c.columns
  format := o.format.getD c.format
  parallel := if o.sequential then false else c.parallel

end Options

end GraphSurvey
