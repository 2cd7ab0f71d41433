import Pebble.Command.Task

/-!
The arguments of the command: options and the source, in any order.

An option is a word that starts with two dashes, which may be cut short as long as it stays
unambiguous, or a letter after one dash. Letters can be bundled, and the value of an option can be
attached to it, after a word or the first letter also by an equals sign. Two dashes alone end the
options, and attached to an option they are no value.
-/

namespace Pebble.Arguments

inductive Flag where
  | help
  | string
  | tokens
  | pretty
  | verbose
  deriving DecidableEq, Repr

inductive Setting where
  | assoc
  | out
  deriving DecidableEq, Repr

def endOfOptions : Text := ['-', '-']

inductive Switch where
  | flag (flag : Flag)
  | setting (setting : Setting)
  deriving DecidableEq, Repr

inductive UsageError where
  | ambiguousOption (argument : Text)
  | unexpectedValue (switch : Switch)
  | missingValue (setting : Setting)
  | unknownSide (value : Text)
  | unrecognized
  | missingSource
  deriving DecidableEq, Repr

/-- What keeps a command from being run: a request for help, or arguments that cannot be
understood. -/
inductive Halt where
  | help
  | usage (error : UsageError)
  deriving DecidableEq, Repr

namespace Switch

def all : List Switch :=
  [.flag .help, .flag .string, .flag .tokens, .setting .assoc, .setting .out, .flag .pretty,
    .flag .verbose]

def word : Switch → Text
  | flag .help => "help".toList
  | flag .string => "string".toList
  | flag .tokens => "tokens".toList
  | flag .pretty => "pretty".toList
  | flag .verbose => "verbose".toList
  | setting .assoc => "assoc".toList
  | setting .out => "out".toList

def ofLetter? : Char → Option Switch
  | 'h' => some (flag .help)
  | 's' => some (flag .string)
  | 'o' => some (setting .out)
  | 'p' => some (flag .pretty)
  | _ => none

end Switch

def UsageError.message : UsageError → Text
  | ambiguousOption argument => "ambiguous option: ".toList ++ argument
  | unexpectedValue switch => "no value is taken by option: ".toList ++ switch.word
  | missingValue setting => "a value is needed by option: ".toList ++ (Switch.setting setting).word
  | unknownSide value => "neither right nor left: ".toList ++ Text.quoted value
  | unrecognized => "unrecognized arguments".toList
  | missingSource => "a source is required".toList

/-- How the options of one argument end: with a flag, with a value, or with an option whose value
must be the next argument. -/
inductive Ending where
  | done
  | value (setting : Setting) (text : Text)
  | awaits (setting : Setting)
  deriving DecidableEq, Repr

/-- The options of one argument: flags and an ending. -/
structure Bundle where
  flags : List Flag
  ending : Ending
  deriving DecidableEq, Repr

/-- The options of a letter and of what follows it in the same argument. After a flag this is
another letter; an option with a value takes all of it. -/
def letters (switch : Switch) (tail : Text) : Except UsageError Bundle :=
  match switch, tail with
  | .flag flag, [] => .ok ⟨[flag], .done⟩
  | .flag flag, c :: rest =>
    match Switch.ofLetter? c with
    | none => .error (.unexpectedValue switch)
    | some next =>
      match letters next rest with
      | .error error => .error error
      | .ok bundle => .ok { bundle with flags := flag :: bundle.flags }
  | .setting setting, [] => .ok ⟨[], .awaits setting⟩
  | .setting setting, value => .ok ⟨[], .value setting value⟩

/-- The options of a letter to which a value is assigned. For a flag the value must be more
letters. -/
def assignedLetters (switch : Switch) (value : Text) : Except UsageError Bundle :=
  match switch, value with
  | .flag _, [] => .error (.unexpectedValue switch)
  | .flag _, _ => letters switch value
  | .setting setting, _ => .ok ⟨[], .value setting value⟩

/-- The options of a word and of the value assigned to it. -/
def assigned (switch : Switch) (value : Option Text) : Except UsageError Bundle :=
  match switch, value with
  | .flag flag, none => .ok ⟨[flag], .done⟩
  | .flag _, some _ => .error (.unexpectedValue switch)
  | .setting setting, none => .ok ⟨[], .awaits setting⟩
  | .setting setting, some text => .ok ⟨[], .value setting text⟩

/-- What an argument is: a plain text, options, which may be wrong, or an option that does not
exist. -/
inductive Argument where
  | plain (text : Text)
  | options (bundle : Except UsageError Bundle)
  | unknown

/-- Whether a text after a dash makes it a negative number: digits of any script, or a point with
digits after it and perhaps before it. A line feed may follow. -/
def isNumber (text : Text) : Bool :=
  let line := if text.getLast? = some '\n' then text.dropLast else text
  match line.dropWhile Text.isDigit with
  | [] => line ≠ []
  | '.' :: fraction => fraction ≠ [] && fraction.all Text.isDigit
  | _ => false

/-- An argument that starts with a dash and is no known option. Numbers, and texts with a blank in
them, are meant as plain texts. -/
def undashed (argument rest : Text) : Argument :=
  if isNumber rest || argument.contains ' ' then .plain argument else .unknown

def classify (argument : Text) : Except UsageError Argument :=
  match argument with
  | '-' :: '-' :: rest =>
    let word := rest.takeWhile (· ≠ '=')
    let value := (rest.dropWhile (· ≠ '=')).tail?
    match Switch.all.filter fun switch => word.isPrefixOf switch.word with
    | [] => .ok (undashed argument ('-' :: rest))
    | [switch] => .ok (.options (assigned switch value))
    | _ => .error (.ambiguousOption argument)
  | '-' :: c :: rest =>
    match Switch.ofLetter? c with
    | none => .ok (undashed argument (c :: rest))
    | some switch =>
      match rest with
      | '=' :: value => .ok (.options (assignedLetters switch value))
      | _ => .ok (.options (letters switch rest))
  | _ => .ok (.plain argument)

/-- What the arguments so far come to. `adjacent` tells that the last of them was the source, and
`stray` that one of them has no place. -/
structure Progress where
  source : Option Text := none
  string : Bool := false
  tokens : Bool := false
  side : Except Text Associativity := .ok .right
  out : Option Text := none
  pretty : Bool := false
  verbose : Bool := false
  adjacent : Bool := false
  stray : Bool := false

namespace Progress

def plain (p : Progress) (text : Text) : Progress :=
  match p.source with
  | none => { p with source := some text, adjacent := true }
  | some _ => { p with stray := true, adjacent := false }

def flag (p : Progress) : Flag → Except Halt Progress
  | .help => .error .help
  | .string => .ok { p with string := true }
  | .tokens => .ok { p with tokens := true }
  | .pretty => .ok { p with pretty := true }
  | .verbose => .ok { p with verbose := true }

/-- Applies an option with its value. Two dashes are no value: then there is no file to write, and
the side is an empty list, which is found to be none only when it is needed. -/
def setting (p : Progress) (value : Text) : Setting → Except Halt Progress
  | .assoc =>
    if value = endOfOptions then .ok { p with side := .error "[]".toList }
    else
      match Associativity.ofName? value with
      | none => .error (.usage (.unknownSide value))
      | some side => .ok { p with side := .ok side }
  | .out => .ok { p with out := if value = endOfOptions then none else some value }

def read (p : Progress) : List Argument → Except Halt Progress
  | [] => .ok p
  | .plain text :: others => (p.plain text).read others
  | .unknown :: others => { p with stray := true, adjacent := false }.read others
  | .options (.error error) :: _ => .error (.usage error)
  | .options (.ok ⟨flags, ending⟩) :: others =>
    match ending, others with
    | .done, others => do
      let p ← flags.foldlM flag { p with adjacent := false }
      p.read others
    | .value name text, others => do
      let p ← flags.foldlM flag { p with adjacent := false }
      let p ← p.setting text name
      p.read others
    | .awaits name, .plain text :: others => do
      let p ← flags.foldlM flag { p with adjacent := false }
      let p ← p.setting text name
      p.read others
    | .awaits name, _ => .error (.usage (.missingValue name))

/-- Reads the arguments after the two dashes. They are the source, unless it stood right before the
dashes and nothing follows. -/
def readRest (p : Progress) (rest : List Text) : Progress :=
  match p.source, rest with
  | none, [] => p
  | none, text :: others => { p with source := some text, stray := p.stray || !others.isEmpty }
  | some _, _ => { p with stray := p.stray || !p.adjacent || !rest.isEmpty }

end Progress

/-- A command: a task, and whether its log is shown. -/
structure Command where
  task : Task
  verbose : Bool

def Progress.command (p : Progress) : Except Halt Command :=
  match p.source with
  | none => .error (.usage .missingSource)
  | some source =>
    if p.stray then .error (.usage .unrecognized)
    else
      .ok
        { task :=
            { source
              inline := p.string
              tokensOnly := p.tokens
              side := p.side
              out := p.out
              pretty := p.pretty }
          verbose := p.verbose }

def parse (arguments : List Text) : Except Halt Command := do
  let options := arguments.takeWhile (· ≠ endOfOptions)
  let classified ← (options.mapM classify).mapError Halt.usage
  let progress ← Progress.read {} classified
  match arguments.drop options.length with
  | [] => progress.command
  | _ :: rest => (progress.readRest rest).command

end Pebble.Arguments
