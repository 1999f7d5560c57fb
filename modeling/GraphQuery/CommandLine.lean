import GraphQuery.Parse
import GraphQuery.Document.Json
import GraphQuery.CommandLine.Invocation
import GraphQuery.CommandLine.Discovery

/-! # The command line

The program inspects documents: it prints one as JSON, prints the tokens of one, or checks many
and tells what is wrong with them. A run depends on the arguments, the file system and the setting
of the log's threshold, and all that it does is in its **outcome**: an exit code, two texts, and
the lines of its log. -/

namespace GraphQuery.CommandLine

/-- **What a run of the program does.** -/
structure Outcome where
  /-- Zero for success, one for failure, two for a mistake in the arguments. -/
  exitCode : Nat
  /-- What is printed as the result. -/
  output : String
  /-- What is printed as the complaint. -/
  complaint : String
  /-- The log lines that are shown. -/
  log : List LogLine
deriving DecidableEq

/-- **What a command reports**, with every line it logs. -/
structure Report where
  /-- Whether the command succeeds. -/
  succeeded : Bool
  /-- The result, if there is one. -/
  output : Option String
  /-- The complaint, if there is one. -/
  complaint : Option String
  /-- What the command logs. -/
  log : List LogLine
deriving DecidableEq

namespace Report

/-- A success with its result. -/
def success (log : List LogLine) (output : String) : Report := ⟨true, some output, none, log⟩

/-- A failure with its complaint. -/
def failure (log : List LogLine) (complaint : String) : Report :=
  ⟨false, none, some ("❌ " ++ complaint), log⟩

/-- The failure to read a file. -/
def unreadable (log : List LogLine) (path : String) (fault : FileFault) : Report :=
  failure log ("Failed to read " ++ inQuotes path ++ ": " ++ fault.message)

end Report

/-- The text of the file at a path. -/
def readText (files : FileSystem) (path : String) : Except FileFault String :=
  (files path).bind fun found => found.tree.text

/-! ## Printing a document -/

/-- Prints the document in a text, and complains of its errors. -/
def reportDocument (source : String) (compact : Bool) : Report :=
  let parsed := Parsed.ofText source
  let json := parsed.document.toJson
  let output := if compact then json.compact else json.pretty
  if parsed.hasErrors then
    let complaint := toString parsed.diagnostics.length ++ " parse errors:\n"
      ++ Diagnostic.renderAll source.toList parsed.diagnostics
    { Report.failure [] complaint with output := some output }
  else .success [] output

/-! ## Printing tokens -/

/-- Pads a text with blanks on the right to a width. -/
def padRight (width : Nat) (text : String) : String :=
  text ++ String.ofList (List.replicate (width - text.length) ' ')

/-- A token on a line: where it starts and stops, and what it is. -/
def tokenLine (token : Token) : String :=
  padLeft 6 (toString token.span.start) ++ ".." ++ padRight 6 (toString token.span.stop) ++ " "
    ++ token.kind.describe

/-- Whether a token is a character that starts no other token. -/
def isIllegal (token : Token) : Bool :=
  match token.kind with
  | .illegal _ => true
  | _ => false

/-- Prints the tokens of a text. -/
def reportTokens (path source : String) : Report :=
  let tokens := Token.ofText source
  let line : LogLine := ⟨.debug, "Lexed " ++ inQuotes path ++ " with "
    ++ toString (tokens.countP isIllegal) ++ " illegal characters."⟩
  .success [line] (trimRight (String.intercalate "\n" (tokens.map tokenLine)))

/-! ## Checking documents -/

/-- **A document that was read and parsed.** -/
structure Checked where
  /-- The path that messages show. -/
  path : String
  /-- The source text. -/
  source : String
  /-- The document with its diagnostics. -/
  parsed : Parsed

namespace Checked

/-- Reads and parses documents up to the first that cannot be read. -/
def ofSources : List Source → List Checked × Option (String × FileFault)
  | [] => ([], none)
  | file :: rest =>
    match file.tree.text with
    | .error fault => ([], some (file.path, fault))
    | .ok source =>
      let (checked, stop) := ofSources rest
      (⟨file.path, source, Parsed.ofText source⟩ :: checked, stop)

/-- The log line about a document. -/
def line (checked : Checked) : LogLine := ⟨.debug, "Parsing " ++ inQuotes checked.path ++ "..."⟩

/-- What is wrong with a document, each diagnostic under the path. -/
def complaint (checked : Checked) : String :=
  String.join (checked.parsed.diagnostics.map fun diagnostic =>
    checked.path ++ ":\n" ++ diagnostic.render checked.source.toList ++ "\n")

/-- The sum of a count over documents. -/
def total (count : Checked → Nat) (all : List Checked) : Nat := (all.map count).foldl (· + ·) 0

end Checked

/-- The result of a check that found nothing wrong. -/
def summary (all : List Checked) (skipped : Nat) : String :=
  let types := Checked.total (fun c => c.parsed.document.typeDefinitions.length) all
  let operations := Checked.total (fun c => c.parsed.document.operations.length) all
  "✅ All GraphQL parsed successfully:\n"
    ++ "  * Parsed " ++ toString all.length ++ " files.\n"
    ++ "  * Skipped " ++ toString skipped ++ " non-graphql files.\n"
    ++ "  * Found " ++ toString types ++ " type definitions.\n"
    ++ "  * Found " ++ toString operations ++ " operations."

/-- Checks the documents at and under paths. -/
def reportCheck (files : FileSystem) (paths extensions : List String) : Report :=
  let discovery := Discovery.ofPaths files paths extensions
  if discovery.unreachable ≠ [] then
    .failure discovery.log ("Errors locating GraphQL files: "
      ++ String.intercalate ", " (discovery.unreachable.map inQuotes))
  else
    let (all, stop) := Checked.ofSources discovery.sources
    let log := discovery.log ++ all.map Checked.line
    match stop with
    | some (path, fault) => .unreadable log path fault
    | none =>
      let errors := Checked.total (fun c => c.parsed.diagnostics.length) all
      if errors = 0 then .success log (summary all discovery.skipped)
      else
        .failure log ("Found " ++ toString errors ++ " parse errors in "
          ++ toString (all.countP fun c => c.parsed.hasErrors) ++ " files:\n\n"
          ++ trimRight (String.join (all.map Checked.complaint)))

/-! ## The program -/

/-- The name of the program. -/
def programName : String := "minigql"

/-- The version of the program. -/
def versionText : String := "0.1.0"

/-- What help shows. -/
def helpText : String :=
  "Inspect minigql documents: parse diagnostics, token streams and ASTs.\n\n"
    ++ "Log verbosity comes from `LOG_LEVEL` (`error` through `trace`, or `verbose`) unless "
    ++ "`--verbose` is passed.\n\n"
    ++ "Usage: minigql [OPTIONS] [COMMAND]\n\n"
    ++ "Commands:\n"
    ++ "  ast     Print the parsed document of a file as JSON\n"
    ++ "  parse   Parse GraphQL files and report definitions and diagnostics\n"
    ++ "  tokens  Print the token stream of a file\n"
    ++ "  help    Print this message or the help of the given subcommand(s)\n\n"
    ++ "Options:\n"
    ++ "  -v, --verbose  Log at debug level regardless of `LOG_LEVEL`\n"
    ++ "  -h, --help     Print help\n"
    ++ "  -V, --version  Print version\n"

/-- The outcome of a run that stops at its arguments. -/
def Stop.outcome : Stop → Outcome
  | mistake error =>
    ⟨2, "", "error: " ++ error.message ++ "\n\nFor more information, try '--help'.\n", []⟩
  | help => ⟨0, helpText, "", []⟩
  | version command =>
    let name := match command with
      | some command => programName ++ "-" ++ command.spelling
      | none => programName
    ⟨0, name ++ " " ++ versionText ++ "\n", "", []⟩

/-- What a command reports on a file system. -/
def Command.report (files : FileSystem) : Command → Report
  | ast path compact =>
    match readText files path with
    | .ok source => reportDocument source compact
    | .error fault => .unreadable [] path fault
  | tokens path =>
    match readText files path with
    | .ok source => reportTokens path source
    | .error fault => .unreadable [] path fault
  | parse paths extensions => reportCheck files paths extensions

/-- A text on a line of its own, if there is one. -/
def printed : Option String → String
  | some text => text ++ "\n"
  | none => ""

/-- **Runs the program.** Without a command it shows help. -/
def run (files : FileSystem) (setting : Option String) (arguments : List String) : Outcome :=
  match Invocation.ofArguments arguments with
  | .error stop => stop.outcome
  | .ok invocation =>
    let report := match invocation.command with
      | some command => command.report files
      | none => .success [] helpText
    let log := LogLine.opening invocation.verbose setting ++ report.log
    ⟨if report.succeeded then 0 else 1, printed report.output, printed report.complaint,
      LogLine.upTo (LogLevel.threshold invocation.verbose setting) log⟩

end GraphQuery.CommandLine
