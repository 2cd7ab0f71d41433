import Pebble.Text.Basic

/-!
Line ends: a text from a file may end its lines with a carriage return, a line feed, or both.
-/

namespace Pebble.Text

/-- Makes every line end a line feed. A carriage return and a line feed after it are one line
end. -/
def unifyNewlines : Text → Text
  | '\r' :: '\n' :: rest => '\n' :: unifyNewlines rest
  | '\r' :: rest => '\n' :: unifyNewlines rest
  | c :: rest => c :: unifyNewlines rest
  | [] => []

end Pebble.Text
