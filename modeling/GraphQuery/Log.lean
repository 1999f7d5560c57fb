import GraphQuery.Text.Quoted
import GraphQuery.Text.Whitespace

/-! # Log lines

A log line has a level. A log shows the lines up to a **threshold**, which is taken from a setting
by the name of a level, in any case and with white space around it; `VERBOSE` is another name for
the level of debugging. Without a setting, or with one that names no level, the threshold is
`INFO`.

A log that is shown on a terminal must not act on it, so `LogLine.shown` escapes the controls that
terminals obey. Line feeds are not among them: a message with line feeds takes several lines. -/

namespace GraphQuery

/-- **The levels of log lines**, the gravest first. -/
inductive LogLevel where
  /-- Failures. -/
  | error
  /-- What may be a mistake. -/
  | warn
  /-- What is worth knowing. -/
  | info
  /-- What a developer wants to know. -/
  | debug
  /-- Every step. -/
  | trace
deriving DecidableEq

namespace LogLevel

/-- The levels from the gravest on. -/
def all : List LogLevel := [error, warn, info, debug, trace]

/-- The name of a level. -/
def name : LogLevel → String
  | error => "ERROR"
  | warn => "WARN"
  | info => "INFO"
  | debug => "DEBUG"
  | trace => "TRACE"

/-- The place of a level, counted from the gravest. -/
def rank : LogLevel → Nat
  | error => 0
  | warn => 1
  | info => 2
  | debug => 3
  | trace => 4

/-- **The level that a setting names.** -/
def ofSetting? (setting : String) : Option LogLevel :=
  let name := (trim setting).map Char.toUpper
  if name = "VERBOSE" then some debug else all.find? fun level => level.name = name

/-- A level is named by its name. -/
theorem ofSetting?_name (level : LogLevel) : ofSetting? level.name = some level := by
  cases level <;> decide +kernel

/-- The threshold of a log, given whether the command line asks for more than usual. -/
def threshold (verbose : Bool) (setting : Option String) : LogLevel :=
  if verbose then debug else (setting.bind ofSetting?).getD info

end LogLevel

/-- **A log line.** -/
structure LogLine where
  /-- How grave it is. -/
  level : LogLevel
  /-- What it says. -/
  message : String
deriving DecidableEq

namespace LogLine

/-- A log line as text. -/
def text (line : LogLine) : String := line.level.name ++ " " ++ line.message

/-- Whether a terminal obeys a character: the bell, the backspace, the form feed, the escape, the
delete, and the controls above ASCII. -/
def steersTerminal (c : Char) : Bool :=
  c = '\x07' || c = '\x08' || c = '\x0c' || c = '\x1b' || (0x7f ≤ c.toNat && c.toNat ≤ 0x9f)

/-- A character of a message as it is shown. -/
def shownChar (c : Char) : List Char :=
  if steersTerminal c then
    if c.toNat < 0x80 then
      ['\\', 'x', Nat.digitChar (c.toNat / 16), Nat.digitChar (c.toNat % 16)]
    else codePointEscape c
  else [c]

/-- A hexadecimal digit does not steer a terminal. -/
theorem steersTerminal_digitChar {n : Nat} (h : n < 16) :
    steersTerminal (Nat.digitChar n) = false := by
  have all : ∀ n < 16, steersTerminal (Nat.digitChar n) = false := by decide
  exact all n h

/-- What steers a terminal is a control. -/
theorem toNat_le_of_steersTerminal {c : Char} (h : steersTerminal c = true) :
    c.toNat ≤ 0x9f := by
  simp only [steersTerminal, Bool.or_eq_true, Bool.and_eq_true, decide_eq_true_eq] at h
  rcases h with (((rfl | rfl) | rfl) | rfl) | ⟨_, h⟩
  · decide
  · decide
  · decide
  · decide
  · exact h

/-- Nothing that is shown steers a terminal. -/
theorem steersTerminal_of_mem_shownChar {c d : Char} (h : d ∈ shownChar c) :
    steersTerminal d = false := by
  unfold shownChar at h
  split at h
  case isFalse plain =>
    rw [List.mem_singleton.mp h]
    exact Bool.eq_false_iff.mpr plain
  case isTrue steers =>
    have le := toNat_le_of_steersTerminal steers
    split at h
    · simp only [List.mem_cons, List.not_mem_nil, or_false] at h
      rcases h with rfl | rfl | rfl | rfl
      · decide
      · decide
      · exact steersTerminal_digitChar (by omega)
      · exact steersTerminal_digitChar (by omega)
    · have digits : Nat.toDigits 16 c.toNat
          = [Nat.digitChar (c.toNat / 16), Nat.digitChar (c.toNat % 16)] := by
        rw [Nat.toDigits_of_base_le (by decide) (by omega), Nat.toDigits_of_lt_base (by omega)]
        rfl
      simp only [codePointEscape, digits, List.cons_append, List.nil_append, List.mem_cons,
        List.not_mem_nil, or_false] at h
      rcases h with rfl | rfl | rfl | rfl | rfl | rfl
      · decide
      · decide
      · decide
      · exact steersTerminal_digitChar (by omega)
      · exact steersTerminal_digitChar (by omega)
      · decide

/-- **A log line as it is shown on a terminal.** -/
def shown (line : LogLine) : String :=
  line.level.name ++ " " ++ String.ofList (line.message.toList.flatMap shownChar)

/-- The lines that a log starts with: its threshold, and a setting that is passed over. -/
def opening (verbose : Bool) (setting : Option String) : List LogLine :=
  let level := LogLevel.threshold verbose setting
  let ignored := match setting with
    | some text =>
      if !verbose && (LogLevel.ofSetting? text).isNone then
        [⟨.warn, "ignoring invalid `LOG_LEVEL` value `" ++ trim text ++ "`"⟩]
      else []
    | none => []
  ⟨.trace, "logging at `" ++ level.name ++ "`"⟩ :: ignored

/-- The lines that a log with a threshold shows. -/
def upTo (level : LogLevel) (lines : List LogLine) : List LogLine :=
  lines.filter fun line => line.level.rank ≤ level.rank

end LogLine

end GraphQuery
