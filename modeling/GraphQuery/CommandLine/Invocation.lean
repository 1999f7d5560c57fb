import GraphQuery.Entries

/-! # Invocations

The arguments of the program name one of three **commands**, or none. Options come before or after
the paths they go with: a long option may carry its value behind an equals sign, flags of one
letter may share a dash, and after `--` every argument is a path. A flag is given at most once on
either side of the command's name.

Reading arguments stops at the first mistake, and also at the first request for help or for the
version, whatever follows. -/

namespace GraphQuery.CommandLine

/-- **The commands by name.** -/
inductive CommandName where
  /-- Prints a document as JSON. -/
  | ast
  /-- Checks documents. -/
  | parse
  /-- Prints tokens. -/
  | tokens
deriving DecidableEq

namespace CommandName

/-- Every command. -/
def all : List CommandName := [ast, parse, tokens]

/-- How a command is spelled. -/
def spelling : CommandName → String
  | ast => "ast"
  | parse => "parse"
  | tokens => "tokens"

/-- The command that a text spells. -/
def ofSpelling? (text : String) : Option CommandName :=
  all.find? fun name => name.spelling = text

/-- A spelling is read back as its command. -/
@[simp] theorem ofSpelling?_spelling (name : CommandName) :
    ofSpelling? name.spelling = some name := by
  cases name <;> decide

end CommandName

/-- **A command** with what it needs. -/
inductive Command where
  /-- Prints the document in a file as JSON, on one line if it is to be compact. -/
  | ast (path : String) (compact : Bool)
  /-- Checks the documents at and under some paths; files are told by their extensions. -/
  | parse (paths : List String) (extensions : List String)
  /-- Prints the tokens of a file. -/
  | tokens (path : String)
deriving DecidableEq

/-- **What the arguments ask for.** -/
structure Invocation where
  /-- The command, if one is named. -/
  command : Option Command
  /-- Whether the log is to show more than usual. -/
  verbose : Bool
deriving DecidableEq

/-- **What is wrong with the arguments.** -/
inductive UsageError where
  /-- An option is unknown, or there is no place for an argument. -/
  | unexpected (argument : String)
  /-- No command has this name. -/
  | unknownCommand (name : String)
  /-- A flag is given twice. -/
  | repeated (option : String)
  /-- A flag is given a value. -/
  | needlessValue (option : String)
  /-- An option or a path lacks its value. -/
  | missingValue (name : String)
deriving DecidableEq

/-- A mistake in words. -/
def UsageError.message : UsageError → String
  | unexpected argument => "unexpected argument '" ++ argument ++ "' found"
  | unknownCommand name => "unrecognized subcommand '" ++ name ++ "'"
  | repeated option => "the argument '" ++ option ++ "' cannot be used multiple times"
  | needlessValue option => "unexpected value for '" ++ option ++ "' found; no more were expected"
  | missingValue name => "a value is required for '" ++ name ++ "' but none was supplied"

/-- **Why reading arguments stops early.** -/
inductive Stop where
  /-- There is a mistake. -/
  | mistake (error : UsageError)
  /-- Help is asked for. -/
  | help
  /-- The version is asked for, of the program or of a command. -/
  | version (command : Option CommandName)
deriving DecidableEq

/-- **The forms of an argument.** -/
inductive Argument where
  /-- Two dashes alone. -/
  | endOfOptions
  /-- An option by its name after two dashes, with the value behind an equals sign. -/
  | long (name : String) (value : Option String)
  /-- Flags of one letter after a dash. -/
  | flags (letters : List Char)
  /-- Any other text. -/
  | plain (text : String)
deriving DecidableEq

/-- The form of an argument; a dash alone is plain. -/
def Argument.ofText (text : String) : Argument :=
  match text.toList with
  | ['-', '-'] => endOfOptions
  | '-' :: '-' :: cs =>
    let value := match cs.dropWhile (· ≠ '=') with
      | [] => none
      | _ :: value => some (String.ofList value)
    long (String.ofList (cs.takeWhile (· ≠ '='))) value
  | '-' :: c :: cs => flags (c :: cs)
  | _ => plain text

/-- **What has been read of a command line**, before or after the name of the command. -/
structure Draft where
  /-- The command, if its name has been read. -/
  command : Option CommandName
  /-- Whether the flag for a fuller log was given. -/
  verbose : Bool
  /-- Whether the flag for JSON on one line was given. -/
  compact : Bool
  /-- Whether an option still waits for its value. -/
  waiting : Bool
  /-- Whether every further argument is a path. -/
  pathsOnly : Bool
  /-- The extensions that were given. -/
  extensions : List String
  /-- The paths that were given. -/
  paths : List String

namespace Draft

/-- Nothing has been read after the name of a command, or of the program. -/
def start (command : Option CommandName) : Draft := ⟨command, false, false, false, false, [], []⟩

/-- The option that names extensions. -/
def extensionsOption : String := "--graphql-file-exts"

/-- Sets the flag for a fuller log. -/
def setVerbose (draft : Draft) : Except Stop Draft :=
  if draft.verbose then .error (.mistake (.repeated "--verbose"))
  else .ok { draft with verbose := true }

/-- Sets the flag for JSON on one line. -/
def setCompact (draft : Draft) : Except Stop Draft :=
  if draft.compact then .error (.mistake (.repeated "--compact"))
  else .ok { draft with compact := true }

/-- Takes a list of extensions, which has commas between them. -/
def addExtensions (draft : Draft) (value : String) : Except Stop Draft :=
  .ok { draft with waiting := false, extensions := draft.extensions ++ value.splitOn "," }

/-- Takes a path. It must not be empty, and only one command takes more than one. -/
def addPath (draft : Draft) (path : String) : Except Stop Draft :=
  if path = "" then .error (.mistake (.missingValue "FILE_PATH"))
  else if draft.command = some .parse ∨ draft.command.isSome ∧ draft.paths = [] then
    .ok { draft with paths := draft.paths ++ [path] }
  else .error (.mistake (.unexpected path))

/-- Takes a flag of one letter. -/
def readLetter (draft : Draft) (letter : Char) : Except Stop Draft :=
  match letter with
  | 'v' => draft.setVerbose
  | 'h' => .error .help
  | 'V' => .error (.version draft.command)
  | _ => .error (.mistake (.unexpected ("-" ++ String.singleton letter)))

/-- Takes a flag by its name after two dashes. -/
def readFlag (draft : Draft) (name : String) : Except Stop Draft :=
  if name = "verbose" then draft.setVerbose
  else if name = "help" then .error .help
  else if name = "version" then .error (.version draft.command)
  else if name = "compact" ∧ draft.command = some .ast then draft.setCompact
  else if "--" ++ name = extensionsOption ∧ draft.command = some .parse then
    .ok { draft with waiting := true }
  else .error (.mistake (.unexpected ("--" ++ name)))

/-- Takes an option with its value. -/
def readOption (draft : Draft) (name value : String) : Except Stop Draft :=
  if "--" ++ name = extensionsOption ∧ draft.command = some .parse then draft.addExtensions value
  else .error (.mistake (.needlessValue ("--" ++ name)))

/-- **Takes an argument.** -/
def read (draft : Draft) (argument : String) : Except Stop Draft :=
  if draft.pathsOnly then draft.addPath argument
  else
    match draft.waiting, Argument.ofText argument with
    | true, .plain text => draft.addExtensions text
    | true, _ => .error (.mistake (.missingValue extensionsOption))
    | false, .endOfOptions => .ok { draft with pathsOnly := true }
    | false, .long name none => draft.readFlag name
    | false, .long name (some value) => draft.readOption name value
    | false, .flags letters => letters.foldlM readLetter draft
    | false, .plain text => draft.addPath text

/-- The extensions that tell documents unless others are given. -/
def defaultExtensions : List String := ["graphql", "graphqls"]

/-- The command, once all arguments are read. -/
def finish (draft : Draft) : Except Stop (Option Command) :=
  if draft.waiting then .error (.mistake (.missingValue extensionsOption))
  else
    match draft.command, draft.paths with
    | none, _ => .ok none
    | some _, [] => .error (.mistake (.missingValue "FILE_PATH"))
    | some .ast, path :: _ => .ok (some (.ast path draft.compact))
    | some .tokens, path :: _ => .ok (some (.tokens path))
    | some .parse, paths =>
      let given := draft.extensions
      .ok (some (.parse paths (if given = [] then defaultExtensions else given)))

end Draft

namespace Invocation

/-- Help on the program, on a command by its name, or on how to ask for help. -/
def ofHelp : List String → Stop
  | [] => .help
  | name :: rest =>
    if rest = [] ∧ (name = "help" ∨ (CommandName.ofSpelling? name).isSome) then .help
    else .mistake (.unknownCommand (rest.headD name))

/-- Reads what follows the name of a command. -/
def ofCommand (before : Draft) (name : CommandName) (arguments : List String) :
    Except Stop Invocation := do
  let draft ← arguments.foldlM Draft.read (.start (some name))
  let command ← draft.finish
  return ⟨command, before.verbose || draft.verbose⟩

/-- Reads arguments up to the name of the command, and then what follows it. -/
def ofRest (draft : Draft) : List String → Except Stop Invocation
  | [] => .ok ⟨none, draft.verbose⟩
  | argument :: rest =>
    if draft.pathsOnly then .error (.mistake (.unexpected argument))
    else if argument = "help" then .error (ofHelp rest)
    else
      match CommandName.ofSpelling? argument, Argument.ofText argument with
      | some name, _ => ofCommand draft name rest
      | none, .plain text => .error (.mistake (.unknownCommand text))
      | none, _ => (draft.read argument).bind (ofRest · rest)

/-- **Reads the arguments of the program.** -/
def ofArguments (arguments : List String) : Except Stop Invocation :=
  ofRest (.start none) arguments

end Invocation

end GraphQuery.CommandLine
