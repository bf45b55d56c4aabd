import GraphSurvey.CommandLine.Options
import GraphSurvey.Config.Shown
import GraphSurvey.Report.Accounts

/-!
# The program

The program reads its options and its configuration, analyses the graphs and prints the report. It
fails if the options cannot be read, if the configuration or a graph cannot be had, and, after the
report, if a graph could not be analysed.

## Main definitions

* `GraphSurvey.Outcome` — what a run of the program prints, and its exit code.
* `GraphSurvey.program` — the program.
-/

namespace GraphSurvey

/-- What a run of the program leaves. -/
structure Outcome where
  code : Nat
  stdout : String
  stderr : String
  deriving DecidableEq, Repr

namespace Outcome

/-- A run that prints and succeeds. -/
def success (stdout : String) : Outcome := ⟨0, stdout, ""⟩

/-- A run that ends with an error. -/
def failure (stdout stderr shown : String) : Outcome :=
  ⟨1, stdout, stderr ++ "Error: " ++ shown ++ "\n"⟩

/-- A run whose arguments cannot be read. -/
def refused : Outcome := ⟨2, "", ""⟩

end Outcome

/-- The name of the program and its version. -/
def versionLine : String := "asgscope 0.1.0\n"

/-- The models of the catalogue, with their descriptions below each other. -/
def catalogLines : String :=
  String.join (catalog.map fun m =>
    String.ofList (Text.padRight 22 m.name.toList) ++ m.description ++ "\n")

/-- The report in the format of the configuration. -/
def printed (format : OutputFormat) (r : Report) : Outcome :=
  match format with
  | .text => ⟨0, r.text, String.join r.failureLines⟩
  | .json => ⟨0, r.toJson.indented ++ "\n", ""⟩

/-- The report, and an error if a graph of it could not be analysed. -/
def reported (format : OutputFormat) (r : Report) : Outcome :=
  let out := printed format r
  if r.failures.isEmpty then out
  else
    .failure out.stdout out.stderr
      (Text.quoted (toString r.failures.length ++ " of " ++
        toString (r.failures.length + r.runs.length) ++ " runs failed"))

variable {m : Type → Type} [Monad m]

/-- Analyses what a configuration asks for. -/
def survey (read : FileReader m) (summaryOnly : Bool) (c : Config) : m Outcome :=
  match c.pipeline with
  | .error e => return .failure "" "" e.shown
  | .ok p => do
    match ← c.graphs read with
    | .error e => return .failure "" "" e.shown
    | .ok gs =>
      let schema := if summaryOnly then none else some c.detailSchema
      return reported c.format (.ofGraphs p schema gs)

/-- The configuration that the options name, or the standard one. -/
def baseConfig (read : FileReader m) (o : Options) : m (Except ConfigError Config) :=
  match o.config with
  | some path => Config.load read path
  | none => return .ok Config.standard

/-- A run of the program with the given arguments. -/
def program (read : FileReader m) (args : List String) : m Outcome :=
  match Options.parse args with
  | .refused => return .refused
  | .version => return .success versionLine
  | .help => return .success ""
  | .run o =>
    if o.list then return .success catalogLines
    else do
      match ← baseConfig read o with
      | .error e => return .failure "" "" e.shown
      | .ok c => survey read o.summaryOnly (o.apply c)

end GraphSurvey
