import Pebble.Grammar.Complaint

/-!
Rules of the grammar, and the steps they are made of.

A rule reads tokens from the front of a list and gives a value and the tokens that are left. If it
stops early, the tokens that are left are those from the one where it stopped. Every decision is
made on the next token alone, and no token is given back.
-/

namespace Pebble

/-- A rule of the grammar, as a step on the tokens that are still to be read. -/
abbrev Rule (α : Type) := EStateM Stop (List Token) α

namespace Rule

variable {α : Type}

def refuse (cause : Complaint) : Rule α := throw (.complaint cause)

def check (patterns : List Pattern) : Rule Bool := do
  return (← get).head?.any fun token => patterns.any (·.accepts token)

/-- Takes the next token if it fits one of the patterns. -/
def accept? (patterns : List Pattern) : Rule (Option Token) := do
  match ← get with
  | [] => return none
  | token :: rest =>
    if patterns.any (·.accepts token) then
      set rest
      return some token
    else
      return none

/-- Takes the next token if it fits a pattern, and tells whether it does. -/
def accepts (pattern : Pattern) : Rule Bool := do
  return (← accept? [pattern]).isSome

def demand (pattern : Pattern) (kind : ComplaintKind) : Rule Token := do
  match ← accept? [pattern] with
  | some token => return token
  | none => refuse (.missing pattern kind)

def demandWord (word : Keyword) : Rule Unit :=
  discard (demand (.keyword word) .missingKeyword)

/-- Takes a name: an identifier that is no keyword. -/
def name : Rule Text := do
  match ← get with
  | [] => refuse .expectedIdentifier
  | token :: rest =>
    if token.isName then
      set rest
      return token.literal
    else
      refuse .expectedIdentifier

def semicolon : Rule Unit := do
  if ← accepts (.mark ';') then return () else refuse .missingSemicolon

/-- A value that is introduced by a mark and may be absent. -/
def after? (c : Char) (rule : Rule α) : Rule (Option α) := do
  if ← accepts (.mark c) then return some (← rule) else return none

/-- What follows the first item of a sequence: a comma and an item, again and again. Each round
takes a token, so that `bound` may be the tokens that are left. -/
def others (item : Rule α) : List Token → Rule (List α)
  | [] => return []
  | _ :: bound => do
    if ← accepts (.mark ',') then
      let next ← item
      return next :: (← others item bound)
    else
      return []

def commaSeparated (item : Rule α) : Rule (List α) := do
  let first ← item
  return first :: (← others item (← get))

end Rule

end Pebble
