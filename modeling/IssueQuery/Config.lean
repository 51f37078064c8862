import IssueQuery.Log
import IssueQuery.Number.Literal
import IssueQuery.Text.Blank
import IssueQuery.Text.LowerCase
import IssueQuery.Time

/-!
# Configuration

Settings come from four environment variables; single settings given otherwise take their place.
A blank variable counts as unset. Variables are read in a fixed order and the first unfit one is
reported, even if its setting is given otherwise.
-/

namespace IssueQuery

/-- What the program is told about where and how to work. -/
structure Config where
  /-- The path of the store. -/
  database : Option Text
  /-- How long results are kept; 0 is for ever. -/
  cacheTtl : Time
  cacheDisabled : Bool
  logLevel : LogLevel
deriving DecidableEq, Repr, Inhabited

/-- Settings given otherwise than by the environment. -/
structure Overrides where
  database : Option Text
  cacheTtl : Option Time
  cacheDisabled : Option Bool
  logLevel : Option LogLevel
deriving DecidableEq, Repr, Inhabited

/-- No setting given otherwise. -/
def Overrides.none : Overrides := ⟨.none, .none, .none, .none⟩

/-- The environment: the value of each variable that is set. -/
abbrev Environment := List (Text × Text)

/-- The value of a variable. -/
def Environment.get? (env : Environment) (name : String) : Option Text :=
  env.lookup (Text.ofString name)

namespace Config

/-- The environment variables, by what they set. -/
inductive Source where
  | database
  | cacheTtl
  | cacheDisabled
  | logLevel
deriving DecidableEq, Repr, Inhabited

/-- The name of the variable. -/
def Source.name : Source → String
  | .database => "BQL_DB"
  | .cacheTtl => "BQL_CACHE_TTL_MS"
  | .cacheDisabled => "BQL_CACHE_DISABLED"
  | .logLevel => "BQL_LOG_LEVEL"

/-- Why the value of a variable is unfit. -/
inductive Fault where
  | notANumber
  | notAnInteger
  | negative
  | notAmong (words : List String) (received : Text)
deriving DecidableEq, Repr, Inhabited

/-- What is said about the value. -/
def Fault.message : Fault → Text
  | .notANumber => "Expected number, received nan"
  | .notAnInteger => "Expected integer, received float"
  | .negative => "Number must be greater than or equal to 0"
  | .notAmong words received =>
    "Invalid enum value. Expected "
      ++ Text.ofString (" | ".intercalate (words.map fun w => "'" ++ w ++ "'"))
      ++ ", received '" ++ received ++ "'"

end Config

/-- A variable whose value is unfit. -/
structure ConfigError where
  source : Config.Source
  fault : Config.Fault
deriving DecidableEq, Repr, Inhabited

/-- The message names the variable. -/
def ConfigError.message (e : ConfigError) : Text :=
  Text.ofString e.source.name ++ ": " ++ e.fault.message

namespace Config

/-- How long results are kept unless something else is asked for: five minutes. -/
def defaultTtl : Time := 300000

/-- The trimmed value of a variable, if it is not blank. All but the path are read without regard
to case. -/
def present (env : Environment) (source : Source) : Option Text :=
  match (env.get? source.name).map Text.trim with
  | none | some [] => none
  | some value => some (if source = .database then value else value.toLower)

/-- Reads a time to live: a whole number that is not negative. -/
def readTtl (value : Text) : Except Fault Time :=
  match Number.ofLiteral? value with
  | none => .error .notANumber
  | some n =>
    match n.toInt? with
    | none => .error .notAnInteger
    | some i => if i < 0 then .error .negative else .ok n

/-- The words for yes and no, in the order in which messages list them. -/
def flagWords : List (String × Bool) := [
  ("1", true), ("0", false), ("true", true), ("false", false), ("yes", true), ("no", false),
  ("on", true), ("off", false)]

/-- Reads a word for yes or no. -/
def readFlag (value : Text) : Except Fault Bool :=
  match flagWords.find? fun w => Text.ofString w.1 == value with
  | some w => .ok w.2
  | none => .error (.notAmong (flagWords.map Prod.fst) value)

/-- Reads the name of a log level. -/
def readLevel (value : Text) : Except Fault LogLevel :=
  match LogLevel.ofName? value with
  | some level => .ok level
  | none => .error (.notAmong (LogLevel.all.map LogLevel.name) value)

/-- The setting of a variable, or what it is by default. -/
def setting {α : Type} (env : Environment) (source : Source) (read : Text → Except Fault α)
    (default : α) : Except ConfigError α :=
  match present env source with
  | none => .ok default
  | some value => (read value).mapError (ConfigError.mk source)

/-- The configuration that an environment and settings given otherwise make. -/
def load (env : Environment) (overrides : Overrides) : Except ConfigError Config := do
  let ttl ← setting env .cacheTtl readTtl defaultTtl
  let disabled ← setting env .cacheDisabled readFlag false
  let level ← setting env .logLevel readLevel .warn
  return {
    database := overrides.database <|> present env .database
    cacheTtl := overrides.cacheTtl.getD ttl
    cacheDisabled := overrides.cacheDisabled.getD disabled
    logLevel := overrides.logLevel.getD level }

end Config

end IssueQuery
