import IssueQuery.Json
import IssueQuery.Sql
import IssueQuery.Time

/-!
# The store of issues

The store is a database that answers SQL statements. Here it is any function from statements to
replies, which may depend on how many statements came before. A reply can take time, and signals
can abort while it is under way.
-/

namespace IssueQuery

/-- A statement with the values to bind to its `?`. -/
structure Statement where
  sql : String
  params : List Sql.Param
deriving DecidableEq, Repr, Inhabited

/-- What a store reports when it fails: an error with a message, or a bare value. -/
inductive StoreFault where
  | error (message : Text)
  | bare (value : Json)
deriving Inhabited

/-- The text of a fault in messages; a bare value may have none. -/
def StoreFault.message? : StoreFault → Option Text
  | .error message => some message
  | .bare value => value.display?

/-- What a store makes of a statement. -/
inductive Reply where
  /-- The statement is refused before it runs. -/
  | refused (message : Text)
  /-- The statement runs for some time, signals abort meanwhile, and it gives rows or
  fails. -/
  | ran (elapsed : Time) (aborts : List (Text × Text)) (rows : Except StoreFault (List Json))

/-- The reply to each statement, given the number of statements before it. -/
abbrev Store := Nat → Statement → Reply

/-- The store that gives replies one after the other, whatever it is asked, the first one to the
statement of number `start`, and no rows once they have run out. -/
def Store.scripted (start : Nat) (script : List Reply) : Store := fun n _ =>
  if n < start then .ran 0 [] (.ok []) else (script[n - start]?).getD (.ran 0 [] (.ok []))

/-- What was done with a store. -/
inductive StoreCall where
  /-- It was opened, or the attempt was made; `mustExist` if it was not to be created. -/
  | opened (path : Text) (mustExist : Bool)
  /-- A statement, with the values bound to it if it ran. -/
  | statement (sql : String) (params : Option (List Sql.Param))
  /-- A script of statements that give no rows. -/
  | script (sql : String)
  | closed
deriving DecidableEq, Repr, Inhabited

end IssueQuery
