import Phrasebook.Catalog.Generator
import Phrasebook.Settings.Lookup
import Phrasebook.Text.Terminal

/-!
# CommandLine

What the program is told on its command line, and what it does.  Arguments are read from left to
right: the first that asks for help or the version decides, or the first that is misused.  A run
loads the settings of the project and generates its modules; it notes its progress, and its failure.
-/

namespace Phrasebook

namespace CommandLine

/-- What a run is told. -/
structure Options where
  project : String
  config : Option String
  dryRun : Bool
  verbose : Bool
  deriving DecidableEq

/-- What the program is asked for. -/
inductive Invocation where
  | generate (options : Options)
  | help
  | version
  | misuse (reason : String)
  deriving DecidableEq

/-- The options that have been read. -/
structure Given where
  project : Option String := none
  config : Option String := none
  dryRun : Bool := false
  verbose : Bool := false

/-- The options that take a value. -/
inductive Valued where
  | project
  | config
  deriving DecidableEq

/-- The options that take none. -/
inductive Switch where
  | dryRun
  | verbose
  | help
  | version
  deriving DecidableEq

/-- An option. -/
abbrev Flag : Type :=
  Valued ⊕ Switch

/-- The option with a long name. -/
def long? : String → Option Flag
  | "project" => some (.inl .project)
  | "config" => some (.inl .config)
  | "dry-run" => some (.inr .dryRun)
  | "verbose" => some (.inr .verbose)
  | "help" => some (.inr .help)
  | "version" => some (.inr .version)
  | _ => none

/-- The option with a letter. -/
def short? : Char → Option Flag
  | 'p' => some (.inl .project)
  | 'c' => some (.inl .config)
  | 'v' => some (.inr .verbose)
  | 'h' => some (.inr .help)
  | 'V' => some (.inr .version)
  | _ => none

/-- An option is given twice. -/
def repeated : Invocation :=
  .misuse "the option cannot be used multiple times"

/-- An argument is not understood. -/
def unexpected (argument : String) : Invocation :=
  .misuse ("unexpected argument '" ++ argument ++ "'")

/-- An option has no value. -/
def valueMissing : Invocation :=
  .misuse "a value is required"

/-- Takes a switch: the options with it, or what it decides. -/
def Given.switch (g : Given) : Switch → Except Invocation Given
  | .dryRun => if g.dryRun then .error repeated else .ok { g with dryRun := true }
  | .verbose => if g.verbose then .error repeated else .ok { g with verbose := true }
  | .help => .error .help
  | .version => .error .version

/-- Takes the value of an option. -/
def Given.assign (g : Given) (option : Valued) (value : String) : Except Invocation Given :=
  if value = "" then .error valueMissing
  else
    match option with
    | .project =>
        if g.project.isSome then .error repeated else .ok { g with project := some value }
    | .config => if g.config.isSome then .error repeated else .ok { g with config := some value }

/-- The options of a run. -/
def Given.options (g : Given) : Options :=
  ⟨g.project.getD ".", g.config, g.dryRun, g.verbose⟩

/-- Reads letters behind a dash: the options with them, and the option that takes the next
argument as its value, if the last one does.  The rest of the letters, behind an equals sign or
not, are the value of an option that takes one. -/
def letters (g : Given) : List Char → Except Invocation (Given × Option Valued)
  | [] => .ok (g, none)
  | c :: cs =>
      match short? c with
      | none => .error (unexpected ("-" ++ c.toString))
      | some (.inr switch) =>
          match g.switch switch with
          | .error e => .error e
          | .ok g => letters g cs
      | some (.inl option) =>
          match cs with
          | [] => .ok (g, some option)
          | '=' :: value => (g.assign option (String.ofList value)).map fun g => (g, none)
          | value => (g.assign option (String.ofList value)).map fun g => (g, none)

/-- Reads the name behind two dashes, and its value behind an equals sign. -/
def longFlag (g : Given) (text : List Char) : Except Invocation (Given × Option Valued) :=
  let name := String.ofList (text.takeWhile (· != '='))
  match long? name, text.dropWhile (· != '=') with
  | none, _ => .error (unexpected ("--" ++ name))
  | some (.inr switch), [] => (g.switch switch).map fun g => (g, none)
  | some (.inr _), _ :: _ => .error (unexpected ("--" ++ String.ofList text))
  | some (.inl option), [] => .ok (g, some option)
  | some (.inl option), _ :: value =>
      (g.assign option (String.ofList value)).map fun g => (g, none)

/-- Reads one argument that is no value. -/
def argument (g : Given) (text : String) : Except Invocation (Given × Option Valued) :=
  match text.toList with
  | '-' :: '-' :: name => longFlag g name
  | '-' :: c :: cs => letters g (c :: cs)
  | _ => .error (unexpected text)

/-- An argument that is an option rather than a value. -/
def isFlag (text : String) : Bool :=
  match text.toList with
  | '-' :: _ :: _ => true
  | _ => false

/-- Reads arguments from left to right; `pending` is the option that waits for its value. -/
def readFrom (g : Given) (pending : Option Valued) : List String → Except Invocation Given
  | [] => if pending.isSome then .error valueMissing else .ok g
  | text :: rest =>
      match pending with
      | some option =>
          if isFlag text then .error valueMissing
          else
            match g.assign option text with
            | .error e => .error e
            | .ok g => readFrom g none rest
      | none =>
          if text = "--" then
            match rest with
            | [] => .ok g
            | extra :: _ => .error (unexpected extra)
          else
            match argument g text with
            | .error e => .error e
            | .ok (g, pending) => readFrom g pending rest

/-- What the program is asked for by its arguments. -/
def read (arguments : List String) : Invocation :=
  match readFrom {} none arguments with
  | .ok g => .generate g.options
  | .error invocation => invocation

/-- How a run ends. -/
inductive Outcome where
  | success
  | failure
  deriving DecidableEq

/-- The exit code of an outcome. -/
def Outcome.exitCode : Outcome → Nat
  | .success => 0
  | .failure => 1

/-- The exit code of a command line that is misused. -/
def misuseCode : Nat := 2

/-- The name and version of the program. -/
def versionText : String := "i18n-catalog 0.1.0"

/-- How the program is used. -/
def helpText : String :=
  String.intercalate "\n"
    ["Compile translation trees into typed modules",
     "",
     "Usage: i18n-catalog [OPTIONS]",
     "",
     "Options:",
     "  -p, --project <PROJECT>  Project root; relative paths in the configuration resolve " ++
       "against it [default: .]",
     "  -c, --config <CONFIG>    Configuration file, relative to the project root. Defaults to `" ++
       settingsFile ++ "`",
     "      --dry-run            Compile and report without touching the output directory",
     "  -v, --verbose            Log at debug level, overriding RUST_LOG",
     "  -h, --help               Print help",
     "  -V, --version            Print version"]

/-- Notes a failure. -/
def failed (message : String) : Script Outcome := do
  Script.tell .error message
  return .failure

/-- Generates the modules of a project. -/
def generate (p : Project) (limit : Nat) (dryRun : Bool) : Job Report := do
  let g ← Job.ofExcept (Generator.ofProject? p)
  g.run limit dryRun

/-- Notes the report on each language. -/
def tellReports : List LanguageReport → Script Unit
  | [] => pure ()
  | r :: rs => do
      Script.tell .info
        ("Language " ++ r.shortcode ++ " compiled, own " ++ toString r.own ++ ", inherited " ++
          toString r.inherited)
      tellReports rs

/-- Does what the options say; directories may be nested less deep than a limit. -/
def run (options : Options) (limit : Nat) : Script Outcome := do
  match ← (Project.new ⟨options.project⟩).loadFrom options.config with
  | .error e => failed e.message
  | .ok p =>
      match ← (generate p limit options.dryRun).run with
      | .error e => failed e.message
      | .ok report => do
          tellReports report.languages
          return .success

/-- How much notes must matter to be shown; none are without a threshold. -/
abbrev Threshold : Type :=
  Option Level

/-- The order of the levels. -/
def rank : Level → Nat
  | .error => 0
  | .warn => 1
  | .info => 2
  | .debug => 3

/-- A threshold shows the notes of a level. -/
def shows (threshold : Threshold) (level : Level) : Bool :=
  match threshold with
  | none => false
  | some least => rank level ≤ rank least

/-- A note as it is shown. -/
def display (note : Note) : Note :=
  ⟨note.level, Text.forTerminal note.text⟩

/-- The notes that a threshold shows, as they are shown. -/
def shown (threshold : Threshold) (notes : List Note) : List Note :=
  (notes.filter fun n => shows threshold n.level).map display

/-- The threshold that a setting of the environment names; errors only, if it names none. -/
def thresholdOf : String → Threshold
  | "off" => none
  | "warn" => some .warn
  | "info" => some .info
  | "debug" => some .debug
  | _ => some .error

/-- The threshold of a run: a verbose one shows all, and one without a setting what is at least
information. -/
def threshold (options : Options) (setting : Option String) : Threshold :=
  if options.verbose then some .debug
  else match setting with
    | none => some .info
    | some name => thresholdOf name

end CommandLine

end Phrasebook
