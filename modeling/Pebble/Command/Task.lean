import Pebble.File.Directory
import Pebble.Grammar.Session
import Pebble.Token.Scan
import Pebble.Tree.Content

/-!
Tasks: a source is taken from a text or a file, split into tokens, parsed unless only the tokens
are asked for, and written as JSON to the standard output or to a file. A task that fails writes
nothing.
-/

namespace Pebble

/-- What is noted on the way: the sizes of the results of each stage, and the file written. -/
inductive LogEntry where
  | scanned (tokens characters : Nat)
  | parsed (fields methods : Nat)
  | wrote (name : Text)
  deriving DecidableEq, Repr

namespace LogEntry

def level : LogEntry → Text
  | scanned _ _ | parsed _ _ => "DEBUG".toList
  | wrote _ => "INFO".toList

/-- Who makes an entry; `program` is the name under which the command itself does. -/
def logger (program : Text) : LogEntry → Text
  | scanned _ _ => "pebble.pebble_lexer".toList
  | parsed _ _ => "pebble.pebble_parser".toList
  | wrote _ => program

def message : LogEntry → Text
  | scanned tokens characters =>
    "lexed ".toList ++ Text.ofNat tokens ++ " tokens from ".toList ++ Text.ofNat characters ++
      " characters".toList
  | parsed fields methods =>
    "parsed ".toList ++ Text.ofNat fields ++ " fields and ".toList ++ Text.ofNat methods ++
      " methods".toList
  | wrote name => "wrote ".toList ++ name

def line (program : Text) (entry : LogEntry) : Text :=
  '[' :: entry.level ++ "] ".toList ++ entry.logger program ++ ": ".toList ++ entry.message ++
    ['\n']

end LogEntry

def Token.toJson (token : Token) : Json :=
  .object
    [("kind".toList, .text token.kind.name), ("literal".toList, .text token.literal),
      ("offset".toList, .integer token.offset)]

/-- A task. The source is the name of a file unless it is given `inline`. The side is kept as it
is shown if it is no side. -/
structure Task where
  source : Text
  inline : Bool := false
  tokensOnly : Bool := false
  side : Except Text Associativity := .ok .right
  out : Option Text := none
  pretty : Bool := false

/-- What a task comes to: the failure that ended it, if one did, what it printed, the directory as
it left it, and its log. -/
structure Outcome where
  failure : Option Failure
  printed : Text
  files : Directory
  log : List LogEntry

namespace Task

def extension : Text := ".pebble".toList

def text (task : Task) (files : Directory) : Except Failure Text :=
  if task.inline then .ok task.source
  else if extension.isSuffixOf task.source then
    match files.read task.source with
    | .error fault => .error (.file fault task.source)
    | .ok bytes =>
      match Directory.decode? bytes with
      | none => .error .undecodable
      | some text => .ok text
  else .error .wrongExtension

/-- The JSON value of the tokens or of the tree, and the log of the stages that succeeded. The side
to which chains are folded is looked at only when there are tokens to parse. -/
def result (task : Task) (text : Text) : Except Failure Json × List LogEntry :=
  match lex text with
  | .error report => (.error (.report report), [])
  | .ok tokens =>
    let scanned := LogEntry.scanned tokens.length text.length
    if task.tokensOnly then (.ok (.list (tokens.map Token.toJson)), [scanned])
    else
      match parseTo task.side tokens with
      | .error failure => (.error failure, [scanned])
      | .ok source =>
        (.ok source.record.toJson,
          [scanned, .parsed source.fields.length source.methods.length])

/-- The text that is written for a JSON value: one value and a line feed. -/
def document (task : Task) (value : Json) : Text :=
  Json.render (.ofPretty task.pretty) 0 value ++ ['\n']

/-- Writes a document where the task asks for it. An empty name stands for the standard output. -/
def deliver (task : Task) (files : Directory) (log : List LogEntry) (document : Text) : Outcome :=
  match task.out with
  | none | some [] => ⟨none, document, files, log⟩
  | some name =>
    match files.locate name with
    | .error fault => ⟨some (.file fault name), [], files, log⟩
    | .ok place =>
      ⟨none, [], files.write place (Directory.encode document), log ++ [.wrote name]⟩

def run (task : Task) (files : Directory) : Outcome :=
  match task.text files with
  | .error failure => ⟨some failure, [], files, []⟩
  | .ok text =>
    match task.result text with
    | (.error failure, log) => ⟨some failure, [], files, log⟩
    | (.ok value, log) => task.deliver files log (task.document value)

end Task

end Pebble
