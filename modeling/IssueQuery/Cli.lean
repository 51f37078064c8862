import IssueQuery.Config
import IssueQuery.Engine.Call
import IssueQuery.Store.Schema

/-!
# The command line

The command `bql` runs, checks and takes apart queries. What it does is a function of its arguments,
the environment and the database: `Cli.run` gives the exit code, what goes to standard output and
standard error, the lines of the log, and what was done with the database.
-/

namespace IssueQuery.Cli

/-- What the command finds where its database should be. -/
structure Database where
  /-- The message if it cannot be opened. -/
  openFault : Option Text
  /-- The failure of the script that creates tables, if it fails. Like every error of a database it has
  a text. -/
  schemaFault : Option { fault : StoreFault // fault.message?.isSome }
  store : Store

/-- What a run of the command did. -/
structure Report where
  code : Nat
  out : Text
  err : Text
  lines : List LogLine
  journal : List StoreCall
deriving Inhabited

/-- A run that only printed something. -/
def Report.printed (out : Text) : Report := ⟨0, out, [], [], []⟩

/-- A run that failed with a message. -/
def Report.refused (err : Text) : Report := ⟨1, [], err, [], []⟩

/-- The version of the command. -/
def version : String := "bql 0.1.0"

/-- What the command says about itself. -/
def usage : String := "bql - query an issue store with BQL

Usage:
  bql help
  bql version

  bql query <bql> [--db <path>] [--json] [--init] [--no-cache] [--log-level <level>]
  bql check <bql> [--json]
  bql tokens <bql>

Environment:
  BQL_DB              database path (overridden by --db)
  BQL_CACHE_TTL_MS    query and graph cache lifetime, 0 = no expiry (default 300000)
  BQL_CACHE_DISABLED  1/true to bypass the caches
  BQL_LOG_LEVEL       debug | info | warn | error | silent (default warn)

Examples:
  bql query 'type = bug and priority <= P1' --db ./issues.db
  bql query 'id = \"bd-1\" expand down depth *' --db ./issues.db --json
  bql check 'status = open order by updated desc'
  bql tokens 'created > -7d'
"

/-! ## Arguments -/

/-- Whether an argument is a flag. -/
def isFlag (arg : Text) : Bool := (Text.ofString "--").isPrefixOf arg

/-- Whether a flag is among the arguments. -/
def hasFlag (args : List Text) (flag : String) : Bool := args.contains (Text.ofString flag)

/-- The value behind the first occurrence of a flag. A missing or empty value and a further flag
are none. -/
def flagValue (args : List Text) (flag : String) : Option Text :=
  match (args.dropWhile fun a => a != Text.ofString flag) with
  | _ :: value :: _ => if value.isEmpty || isFlag value then none else some value
  | _ => none

/-- The first argument that is neither a flag nor behind a flag that takes a value. -/
def positionalIn (valueFlags : List String) : List Text → Option Text
  | [] => none
  -- also a flag that takes a value and has none
  | [arg] => if isFlag arg then none else some arg
  | arg :: value :: rest =>
    if valueFlags.any fun flag => Text.ofString flag == arg then positionalIn valueFlags rest
    else if isFlag arg then positionalIn valueFlags (value :: rest)
    else some arg

/-- The query text among the arguments, of which the first is the command. -/
def positional (args : List Text) (valueFlags : List String) : Option Text :=
  positionalIn valueFlags args.tail

/-! ## Commands -/

/-- A line of output. -/
def line (text : Text) : Text := text ++ Text.ofString "\n"

/-- A message of the command about a failure. -/
def complaint (message : Text) : Report := .refused (line ("[bql] " ++ message))

/-- The command lacks a query. -/
def missingQuery : Report := .refused ("Missing query.\n\n" ++ Text.ofString usage)

/-- An issue on one line. -/
def issueLine (issue : Issue) : Text :=
  issue.id ++ "  P" ++ (Number.ofInt issue.priority).toText ++ "  " ++ issue.issueType ++ "  "
    ++ issue.status ++ "  " ++ issue.title

/-- A count as text. -/
def numeral (n : Nat) : Text := (Number.ofInt n).toText

/-- What is printed of issues. -/
def issuesText (issues : List Issue) (asJson : Bool) : Text :=
  if asJson then line (Json.arr (issues.map Issue.toJson)).pretty
  else
    (issues.map fun i => line (issueLine i)).flatten ++ line (numeral issues.length ++ " issue(s)")

/-- The warning about an expansion that left something out. -/
def truncationWarning (outcome : Engine.Outcome) : Text :=
  match outcome.expansion with
  | some e =>
    if e.truncated then
      line ("[bql] expansion stopped after " ++ numeral e.levels
        ++ " levels; results are incomplete")
    else []
  | none => []

/-- Runs a query on an open database, after its tables were created if that was asked for. -/
def runQuery (config : Config) (db : Database) (text : Text) (asJson : Bool) : Report :=
  let cfg : Engine.Settings :=
    ⟨config.cacheTtl, config.cacheDisabled, ⟨"[bql] ", config.logLevel⟩⟩
  let start := Engine.State.initial 0
  let s := Engine.drain cfg db.store (Engine.call cfg db.store start text none)
  match s.result? 0 with
  | some (.ok r) =>
    ⟨0, issuesText r.outcome.issues asJson, truncationWarning r.outcome, s.lines, s.journal⟩
  | some (.error e) => { complaint e.message with lines := s.lines, journal := s.journal }
  | none => { complaint "no result" with lines := s.lines, journal := s.journal }

/-- Opens the database, works on it, and closes it whatever happens. -/
def withDatabase (config : Config) (path : Text) (db : Database) (init : Bool) (text : Text)
    (asJson : Bool) : Report :=
  let opened := StoreCall.opened path (!init)
  match db.openFault with
  | some message => { complaint message with journal := [opened] }
  | none =>
    let report :=
      match init, db.schemaFault with
      | true, some ⟨fault, told⟩ => complaint (fault.message?.get told)
      | _, _ => runQuery config db text asJson
    let script := if init then [StoreCall.script Store.schema] else []
    { report with journal := opened :: script ++ report.journal ++ [.closed] }

/-- The command `query`. -/
def query (args : List Text) (env : Environment) (db : Database) : Report :=
  match positional args ["--db", "--log-level"] with
  | none => missingQuery
  | some text =>
    let level := flagValue args "--log-level"
    match level, level.bind LogLevel.ofName? with
    | some name, none => complaint ("unknown log level: " ++ name)
    | _, known =>
      let disabled := if hasFlag args "--no-cache" then some true else none
      match Config.load env ⟨flagValue args "--db", none, disabled, known⟩ with
      | .error e => complaint e.message
      | .ok config =>
        match config.database with
        | none | some [] => complaint "no database: pass --db <path> or set BQL_DB"
        | some path =>
          withDatabase config path db (hasFlag args "--init") text (hasFlag args "--json")

/-- A parameter as a JSON value. -/
def paramJson : Sql.Param → Json
  | .text t => .str t
  | .number n => .num n

/-- A depth as a JSON value. -/
def depthJson : Depth → Json
  | .levels n => .num (Number.ofInt n)
  | .unlimited => .ofString "unlimited"

/-- A depth as text. -/
def depthText : Depth → Text
  | .levels n => (Number.ofInt n).toText
  | .unlimited => "unlimited"

/-- An expand clause as a JSON value. -/
def expansionJson (e : Expansion) : Json :=
  .obj [("direction", .ofString e.direction.name), ("depth", depthJson e.depth)]

/-- What a query becomes, as JSON. -/
def selectionJson (q : Query) (s : Selection) : Json :=
  .obj [
    ("where", .ofString s.whereText),
    ("order_by", .ofString s.orderText),
    ("params", .arr (s.params.map paramJson)),
    ("expand", (q.expansion.map expansionJson).getD .null)]

/-- What a query becomes, in lines. -/
def selectionText (q : Query) (s : Selection) : Text :=
  line ("WHERE    " ++ Text.ofString (if s.whereText = "" then "(none)" else s.whereText))
    ++ line ("ORDER BY " ++ Text.ofString s.orderText)
    ++ line ("PARAMS   " ++ (Json.arr (s.params.map paramJson)).compact)
    ++ (match q.expansion with
      | some e =>
        line ("EXPAND   " ++ Text.ofString e.direction.name ++ " depth " ++ depthText e.depth)
      | none => [])

/-- The command `check`. -/
def check (args : List Text) : Report :=
  match positional args [] with
  | none => missingQuery
  | some text =>
    match Engine.readQuery text with
    | .error failure => complaint failure.message
    | .ok q =>
      match q.select with
      | .error e => complaint e.message
      | .ok s =>
        .printed (if hasFlag args "--json" then line (selectionJson q s).pretty
          else selectionText q s)

/-- A token on one line: its place, its kind and its text. -/
def tokenLine (t : Token) : Text :=
  numeral t.pos ++ "\t" ++ Text.ofString t.kind.name ++ "\t" ++ t.literal.quoted

/-- The command `tokens`. -/
def tokens (args : List Text) : Report :=
  match positional args [] with
  | none => missingQuery
  | some text => .printed (text.tokens.map fun t => line (tokenLine t)).flatten

/-- Runs the command with its arguments. -/
def run (args : List Text) (env : Environment) (db : Database) : Report :=
  match args with
  | [] => .printed usage
  | command :: _ =>
    if hasFlag args "--help" || hasFlag args "-h" || command = Text.ofString "help" then
      .printed usage
    else if command = Text.ofString "version" then .printed (line version)
    else if command = Text.ofString "query" then query args env db
    else if command = Text.ofString "check" then check args
    else if command = Text.ofString "tokens" then tokens args
    else .refused ("Unknown command: " ++ command ++ "\n\n" ++ Text.ofString usage)

end IssueQuery.Cli
