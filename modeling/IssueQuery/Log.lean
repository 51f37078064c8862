import IssueQuery.Json

/-!
# Logging

A logger has a level and passes on the messages at that level or above. Messages about how things
go are for standard output, warnings and errors for standard error.
-/

namespace IssueQuery

/-- How much a logger says. -/
inductive LogLevel where
  | debug
  | info
  | warn
  | error
  | silent
deriving DecidableEq, Repr, Inhabited

namespace LogLevel

/-- The levels from the most talkative to the quietest. -/
def all : List LogLevel := [debug, info, warn, error, silent]

/-- The name of the level. -/
def name : LogLevel → String
  | .debug => "debug"
  | .info => "info"
  | .warn => "warn"
  | .error => "error"
  | .silent => "silent"

/-- How high a message has to be for a logger of the level. -/
def rank : LogLevel → Nat
  | .debug => 0
  | .info => 1
  | .warn => 2
  | .error => 3
  | .silent => 4

/-- The level of a name. Case matters. -/
def ofName? (name : Text) : Option LogLevel := all.find? fun l => Text.ofString l.name == name

end LogLevel

/-- The level of a message; nothing is said at the level of silence. -/
inductive Severity where
  | debug
  | info
  | warn
  | error
deriving DecidableEq, Repr, Inhabited

namespace Severity

/-- The level at which messages of the severity are said. -/
def level : Severity → LogLevel
  | .debug => .debug
  | .info => .info
  | .warn => .warn
  | .error => .error

/-- Whether messages of the severity go to standard error. -/
def isDiagnostic : Severity → Bool
  | .debug | .info => false
  | .warn | .error => true

end Severity

/-- A line that a logger wrote, with values that belong to it. -/
structure LogLine where
  /-- For standard error rather than standard output. -/
  diagnostic : Bool
  text : Text
  values : List Json
deriving Inhabited

/-- A logger. -/
structure Logger where
  /-- What every line begins with. -/
  heading : Text
  level : LogLevel
deriving DecidableEq, Repr, Inhabited

namespace Logger

/-- A logger that nobody gave a level: quiet in a test environment, else for warnings. -/
def withDefault (heading : Text) (level : Option LogLevel) (environment : Option Text) : Logger :=
  ⟨heading, level.getD (if environment = some (Text.ofString "test") then .silent else .warn)⟩

/-- Whether the logger passes on messages of a severity. -/
def passes (logger : Logger) (severity : Severity) : Bool :=
  logger.level != .silent && logger.level.rank ≤ severity.level.rank

/-- The line for a message, if the logger passes it on. -/
def line? (logger : Logger) (severity : Severity) (message : Text) (values : List Json) :
    Option LogLine :=
  if logger.passes severity then
    some ⟨severity.isDiagnostic, logger.heading ++ message, values⟩
  else none

end Logger

end IssueQuery
