import Pebble.Text.Basic

/-!
JSON values and their text. Members of an object keep their order, integers are written in full,
and the text is ASCII in the compact layout and in the indented one.
-/

namespace Pebble

inductive Json where
  | null
  | bool (b : Bool)
  | integer (n : Int)
  | text (t : Text)
  | list (items : List Json)
  | object (members : List (Text × Json))

namespace Json

def unit (n : Nat) : Text := "\\u".toList ++ Text.hex 4 n

/-- A code point in a JSON string, be it a character or half a surrogate pair by itself. The quote,
the backslash and the control characters are escaped, the usual ones by a letter; so is all that is
not ASCII, beyond U+FFFF as a surrogate pair. -/
def escaped (n : Nat) : Text :=
  if n = '"'.toNat then "\\\"".toList
  else if n = '\\'.toNat then "\\\\".toList
  else if n = '\n'.toNat then "\\n".toList
  else if n = '\r'.toNat then "\\r".toList
  else if n = '\t'.toNat then "\\t".toList
  else if n = '\x0c'.toNat then "\\f".toList
  else if n = '\x08'.toNat then "\\b".toList
  else if 0x20 ≤ n ∧ n < 0x7F then [Char.ofNat n]
  else if n < 0x10000 then unit n
  else unit (0xD800 + (n - 0x10000) / 0x400) ++ unit (0xDC00 + (n - 0x10000) % 0x400)

def literal (points : List Nat) : Text := '"' :: points.flatMap escaped ++ ['"']

def string (t : Text) : Text := literal (t.map Char.toNat)

/-- A layout says what ends an item that another one follows, and what starts an item at a given
depth. -/
structure Layout where
  comma : Text
  start : Nat → Text

def Layout.compact : Layout where
  comma := ", ".toList
  start := fun _ => []

def Layout.pretty : Layout where
  comma := [',']
  start := fun depth => '\n' :: List.replicate (2 * depth) ' '

def Layout.ofPretty (pretty : Bool) : Layout := if pretty then .pretty else .compact

/-- Items between two brackets; nothing stands between the brackets if there are none. -/
def bracketed (layout : Layout) (depth : Nat) (opening closing : Char) : List Text → Text
  | [] => [opening, closing]
  | item :: items =>
    opening :: layout.start (depth + 1) ++ item ++
      items.flatMap (fun other => layout.comma ++ layout.start (depth + 1) ++ other) ++
      layout.start depth ++ [closing]

mutual

def render (layout : Layout) (depth : Nat) : Json → Text
  | .null => "null".toList
  | .bool true => "true".toList
  | .bool false => "false".toList
  | .integer n => Text.ofInt n
  | .text t => string t
  | .list items => bracketed layout depth '[' ']' (renderItems layout (depth + 1) items)
  | .object members =>
    bracketed layout depth '\x7b' '\x7d' (renderMembers layout (depth + 1) members)

def renderItems (layout : Layout) (depth : Nat) : List Json → List Text
  | [] => []
  | item :: items => render layout depth item :: renderItems layout depth items

def renderMembers (layout : Layout) (depth : Nat) : List (Text × Json) → List Text
  | [] => []
  | (key, value) :: members =>
    (string key ++ ": ".toList ++ render layout depth value) ::
      renderMembers layout depth members

end

end Json

end Pebble
