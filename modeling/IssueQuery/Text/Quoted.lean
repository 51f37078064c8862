import IssueQuery.Text

/-!
# Quoted text

Text between double quotes, as messages, identifier queries and JSON write it. A double quote, a
backslash, the characters below U+0020 and lone surrogates are escaped; nothing else is.
-/

namespace IssueQuery.Text

/-- A hexadecimal digit, in lower case. -/
def hexDigit (n : Nat) : CodeUnit := UInt16.ofNat (if n < 10 then 0x30 + n else 0x57 + n)

/-- The escape of a unit by its number, such as `\u001f`. -/
def numericEscape (u : CodeUnit) : Text :=
  ofString "\\u" ++ [hexDigit (u.toNat / 0x1000), hexDigit (u.toNat / 0x100 % 0x10),
    hexDigit (u.toNat / 0x10 % 0x10), hexDigit (u.toNat % 0x10)]

/-- What a unit that is not part of a surrogate pair becomes between the quotes. -/
def quotedUnit (u : CodeUnit) : Text :=
  match u.toChar with
  | '"' => ofString "\\\""
  | '\\' => ofString "\\\\"
  | '\x08' => ofString "\\b"
  | '\t' => ofString "\\t"
  | '\n' => ofString "\\n"
  | '\x0c' => ofString "\\f"
  | '\r' => ofString "\\r"
  | _ => if u.toNat < 0x20 || u.isSurrogate then numericEscape u else [u]

/-- What stands between the quotes. -/
def quotedBody : Text → Text
  | [] => []
  | [u] => quotedUnit u
  | u :: v :: rest =>
    if u.isHighSurrogate && v.isLowSurrogate then u :: v :: quotedBody rest
    else quotedUnit u ++ quotedBody (v :: rest)

/-- The text between double quotes. -/
def quoted (text : Text) : Text := ofString "\"" ++ quotedBody text ++ ofString "\""

end IssueQuery.Text
