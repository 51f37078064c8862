import IssueQuery.Text
import IssueQuery.Time

/-!
# Watching the store for changes

The store is a file with two companions beside it. The directory is watched, because companions come
and go; writes to one of the three files are reported once things have been quiet for a while.

* `Path.directory`, `Path.fileName` split a path;
* `Watch.step` one event of a watch.
-/

namespace IssueQuery

namespace Path

/-- The sign between the parts of a path. -/
def isSeparator (u : CodeUnit) : Bool := u.toChar == '/'

/-- The last part of a path; separators at the end are passed over. -/
def fileName (path : Text) : Text :=
  ((path.reverse.dropWhile isSeparator).takeWhile fun u => !isSeparator u).reverse

/-- What stands before the last part of a path and the separator in front of it. A path of one part
is in the current directory or at the root. -/
def directory (path : Text) : Text :=
  match path with
  | [] => "."
  | first :: rest =>
    let atRoot := isSeparator first
    -- backwards: separators at the end, the last part, the separator in front of it
    match (rest.reverse.dropWhile isSeparator).dropWhile fun u => !isSeparator u with
    | [] => if atRoot then "/" else "."
    | [_] => if atRoot then "//" else [first]
    | _ :: before => first :: before.reverse

end Path

/-- A watch over a store. -/
structure Watch where
  /-- The directory under watch. -/
  directory : Text
  /-- The names of the files that matter. -/
  names : List Text
  /-- How long things have to be quiet. -/
  debounce : Time
  now : Time
  /-- When the writes seen so far will be reported. -/
  due : Option Time
  /-- The reports made. -/
  reports : Nat
  /-- How often the watch was stopped. -/
  stops : Nat
deriving DecidableEq, Repr

namespace Watch

/-- How long things have to be quiet unless something else is asked for. -/
def usualDebounce : Time := 250

/-- A watch over the store at a path. -/
def new (path : Text) (debounce : Option Time) (now : Time) : Watch :=
  let name := Path.fileName path
  ⟨Path.directory path, [name, name ++ Text.ofString "-wal", name ++ Text.ofString "-shm"],
    debounce.getD usualDebounce, now, none, 0, 0⟩

/-- What happens to a watch. -/
inductive Event where
  /-- Something happened to the file of a name, or to one without a name. -/
  | changed (file : Option Text)
  | advance (span : Time)
  | stop
deriving DecidableEq, Repr

/-- Whether a change matters. A file without a name never does. -/
def isRelevant (w : Watch) (file : Option Text) : Bool :=
  match file with
  | none | some [] => false
  | some name => w.names.contains name

/-- One event. A change that matters puts the report off; the report is made when things have been
quiet for long enough. -/
def step (w : Watch) : Event → Watch
  | .changed file => if w.isRelevant file then { w with due := some (w.now + w.debounce) } else w
  | .advance span =>
    let now := w.now + span
    match w.due with
    | some due =>
      if due ≤ now then { w with now := now, due := none, reports := w.reports + 1 }
      else { w with now := now }
    | none => { w with now := now }
  | .stop => { w with due := none, stops := w.stops + 1 }

end Watch

end IssueQuery
