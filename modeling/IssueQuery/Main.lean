import IssueQuery.Cli

/-!
# The program

Gives the command its arguments and environment and prints what it reports. No database can be
reached from here: opening one fails.
-/

namespace IssueQuery.Cli

/-- The environment variables that the command reads. -/
def readEnvironment : IO Environment := do
  let sources := [Config.Source.database, .cacheTtl, .cacheDisabled, .logLevel]
  let values ← sources.mapM fun s => do return (s.name, ← IO.getEnv s.name)
  return values.filterMap fun v => v.2.map fun value => (Text.ofString v.1, Text.ofString value)

/-- A line of the log as the terminal shows it. -/
def showLine (l : LogLine) : String :=
  (Text.join " " (l.text :: l.values.map Json.compact)).toString ++ "\n"

end IssueQuery.Cli

open IssueQuery in
/-- Runs the command of the arguments. -/
def main (args : List String) : IO UInt32 := do
  let db : Cli.Database :=
    ⟨some "no database driver is linked into this program", none, Store.scripted 0 []⟩
  let report := Cli.run (args.map Text.ofString) (← Cli.readEnvironment) db
  let out ← IO.getStdout
  let err ← IO.getStderr
  for l in report.lines do
    if l.diagnostic then err.putStr (Cli.showLine l) else out.putStr (Cli.showLine l)
  out.putStr report.out.toString
  err.putStr report.err.toString
  return UInt32.ofNat report.code
