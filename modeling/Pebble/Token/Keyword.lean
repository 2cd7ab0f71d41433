import Pebble.Token.Basic

/-!
Keywords: the thirteen reserved words. An identifier is a keyword if its letters in capitals spell
one, so `let`, `Let` and `LET` are the same word.
-/

namespace Pebble

/-- The reserved words, each named as it is spelled. -/
inductive Keyword where
  | LET
  | DEF
  | NIL
  | TRUE
  | FALSE
  | IF
  | DO
  | ELSE
  | END
  | FOR
  | IN
  | WHILE
  | RETURN
  deriving DecidableEq, Repr

namespace Keyword

def spelling : Keyword → Text
  | LET => "LET".toList
  | DEF => "DEF".toList
  | NIL => "NIL".toList
  | TRUE => "TRUE".toList
  | FALSE => "FALSE".toList
  | IF => "IF".toList
  | DO => "DO".toList
  | ELSE => "ELSE".toList
  | END => "END".toList
  | FOR => "FOR".toList
  | IN => "IN".toList
  | WHILE => "WHILE".toList
  | RETURN => "RETURN".toList

def all : List Keyword := [LET, DEF, NIL, TRUE, FALSE, IF, DO, ELSE, END, FOR, IN, WHILE, RETURN]

def ofSpelling? (text : Text) : Option Keyword := all.find? fun word => word.spelling == text

/-- The capital of a letter, as far as keywords are made of it. Beside the small letters of ASCII
only the dotless i and the long s have a capital in A to Z; no keyword holds a pair of letters that
is the capital form of a ligature. -/
def capital (c : Char) : Char :=
  if c = 'ı' then 'I' else if c = 'ſ' then 'S' else c.toUpper

/-- The keyword that a text spells in any case. -/
def ofText? (text : Text) : Option Keyword := ofSpelling? (text.map capital)

theorem ofSpelling?_spelling (word : Keyword) : ofSpelling? word.spelling = some word := by
  cases word <;> decide

theorem spelling_of_ofSpelling? {text : Text} {word : Keyword}
    (h : ofSpelling? text = some word) : word.spelling = text := by
  simpa using List.find?_some h

end Keyword

namespace Token

def keyword? (token : Token) : Option Keyword :=
  if token.kind = .identifier then Keyword.ofText? token.literal else none

def isKeyword (token : Token) : Bool := token.keyword?.isSome

/-- Whether a token can be a name: an identifier that is no keyword. -/
def isName (token : Token) : Bool := token.kind = .identifier && !token.isKeyword

end Token

end Pebble
