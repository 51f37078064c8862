import IssueQuery.Number.Decimal
import IssueQuery.Text.Quoted

/-!
# JSON values

The values that rows of the store, messages and the command's output are made of, with their two
written forms and the form in which a bare value is reported as a fault.

* `Json.compact` writes a value on one line, without spaces;
* `Json.pretty`  writes it over lines, two spaces deeper at each level;
* `Json.display?` is the plain text of a value, if it has one.
-/

namespace IssueQuery

/-- A JSON value. -/
inductive Json where
  | null
  | bool (b : Bool)
  | num (n : Number)
  | str (s : Text)
  | arr (items : List Json)
  /-- Members in the order in which they are written. -/
  | obj (members : List (Text × Json))
deriving Inhabited

namespace Json

/-- A string as a JSON value. -/
def ofString (s : String) : Json := .str s

/-- The member of a name; the last one counts if several have it. -/
def member? (name : Text) (members : List (Text × Json)) : Option Json :=
  (members.reverse.find? fun m => m.1 == name).map Prod.snd

/-- A number as JSON writes it: what is not finite has no form of its own. -/
def number (n : Number) : Text :=
  match n with
  | .finite .. => n.toText
  | _ => "null"

/-- Items between brackets, separated by commas. -/
def bracketed (opening closing : String) (items : List Text) : Text :=
  Text.ofString opening ++ Text.join "," items ++ Text.ofString closing

mutual

/-- The value on one line. -/
def compact : Json → Text
  | .null => "null"
  | .bool b => if b then "true" else "false"
  | .num n => number n
  | .str s => s.quoted
  | .arr items => bracketed "[" "]" (compactItems items)
  | .obj members => bracketed "\x7b" "\x7d" (compactMembers members)

/-- The values one by one, each on one line. -/
def compactItems : List Json → List Text
  | [] => []
  | item :: rest => item.compact :: compactItems rest

/-- The members one by one, each on one line. -/
def compactMembers : List (Text × Json) → List Text
  | [] => []
  | (name, value) :: rest => (name.quoted ++ ":" ++ value.compact) :: compactMembers rest

end

/-- A new line at the given level. -/
def newLine (level : Nat) : Text := 0x0A :: List.replicate (2 * level) 0x20

/-- Items on lines of their own, one level deeper than their brackets; no items take no line. -/
def stacked (level : Nat) (opening closing : String) (items : List Text) : Text :=
  match items with
  | [] => Text.ofString opening ++ Text.ofString closing
  | _ =>
    Text.ofString opening ++ newLine (level + 1) ++ Text.join ("," ++ newLine (level + 1)) items
      ++ newLine level ++ Text.ofString closing

mutual

/-- The value over lines, its first line being at the given level. -/
def prettyAt (level : Nat) : Json → Text
  | .arr items => stacked level "[" "]" (prettyItems (level + 1) items)
  | .obj members => stacked level "\x7b" "\x7d" (prettyMembers (level + 1) members)
  | .null => "null"
  | .bool b => if b then "true" else "false"
  | .num n => number n
  | .str s => s.quoted

/-- The values one by one, over lines. -/
def prettyItems (level : Nat) : List Json → List Text
  | [] => []
  | item :: rest => item.prettyAt level :: prettyItems level rest

/-- The members one by one, over lines. -/
def prettyMembers (level : Nat) : List (Text × Json) → List Text
  | [] => []
  | (name, value) :: rest =>
    (name.quoted ++ ": " ++ value.prettyAt level) :: prettyMembers level rest

end

/-- The value over lines. -/
def pretty (value : Json) : Text := value.prettyAt 0

mutual

/-- The plain text of a value: an array is its items between commas, and all objects look alike. An
object with a member `toString` has no text, for that stands in the place of the function that would
give it, and an array that holds such an object has none either. -/
def display? : Json → Option Text
  | .null => some "null"
  | .bool b => some (if b then "true" else "false")
  | .num n => some n.toText
  | .str s => some s
  | .arr items => (displayItems? items).map (Text.join ",")
  | .obj members => if (member? "toString" members).isSome then none else some "[object Object]"

/-- The texts of items, if all of them have one; that of a missing item is empty. -/
def displayItems? : List Json → Option (List Text)
  | [] => some []
  | .null :: rest => (displayItems? rest).map fun texts => [] :: texts
  | item :: rest => item.display?.bind fun text =>
    (displayItems? rest).map fun texts => text :: texts

end

end Json

end IssueQuery
