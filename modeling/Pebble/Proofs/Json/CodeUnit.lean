import Pebble.Proofs.Json.Rendering
import Pebble.Proofs.Json.Scalar

/-!
Code units: what is told by a JSON string of any code points, halves of surrogate pairs among them.
A half by itself is written as it is, and two halves next to each other are written as the character
that they stand for. So of a string its code units in UTF-16 are told, and no more: the string itself
only if no half stands right before the other half.
-/

namespace Pebble.Json

variable {n : Nat} {points points' : List Nat}

/-- Two halves next to each other, and the character that they stand for. -/
example : literal [0xD83D, 0xDE00] = literal [0x1F600] := by decide

/-! ### Where nothing is lost -/

end Pebble.Json
