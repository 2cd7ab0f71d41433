import Pebble.Grammar.Construct
import Pebble.Main
import Pebble.Proofs.Grammar.Acceptance
import Pebble.Proofs.Grammar.Viability
import Pebble.Proofs.Token.Tiling
import Pebble.Token.Scanner
import Pebble.Tree.Equality
import Pebble.Proofs.Token.Malformed
import Pebble.Proofs.Grammar.Spelling
import Pebble.Proofs.Token.Layout
import Pebble.Proofs.Grammar.Image
import Pebble.Proofs.Grammar.Sides
import Pebble.Proofs.Grammar.Nesting
import Pebble.Proofs.Grammar.Concatenation
import Pebble.Proofs.Grammar.Rewriting
import Pebble.Proofs.Command.Failures
import Pebble.Proofs.Token.Quotation
import Pebble.Proofs.Command.Fidelity
import Pebble.Proofs.Number.Exactness
import Pebble.Proofs.Grammar.Delimitation
import Pebble.Proofs.Grammar.Blame
import Pebble.Proofs.Grammar.History
import Pebble.Proofs.Grammar.Course
import Pebble.Proofs.Grammar.Folding
import Pebble.Proofs.Tree.Congruence
import Pebble.Proofs.Command.Newlines
import Pebble.Proofs.Token.Escape
import Pebble.Proofs.Token.Motion
import Pebble.Proofs.Grammar.Descent
