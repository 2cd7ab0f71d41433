import Pebble.Text.Quoted

/-!
Paths: names of files, taken apart at their slashes. A path leads through folders to one last name,
from the root or from the folder in which the reader of the path is.
-/

namespace Pebble

inductive FileFault where
  | missing
  | notFolder
  | isFolder
  | nameTooLong
  | nullCharacter
  deriving DecidableEq, Repr

/-- What is said about a fault, with the number under which systems know it. -/
def FileFault.message (name : Text) : FileFault → Text
  | missing => numbered 2 "No such file or directory"
  | notFolder => numbered 20 "Not a directory"
  | isFolder => numbered 21 "Is a directory"
  | nameTooLong => numbered 36 "File name too long"
  | nullCharacter => "embedded null byte".toList
where
  /-- A number, what it means, and the name. -/
  numbered (number : Nat) (meaning : String) : Text :=
    "[Errno ".toList ++ Text.ofNat number ++ "] ".toList ++ meaning.toList ++ ": ".toList ++
      Text.quoted name

abbrev Location := List Text

/-- A name, taken apart: whether it starts at the root, the folders it passes, and what it names in
the last of them. That is absent if the name can only be that of a folder. -/
structure Path where
  absolute : Bool
  folders : List Text
  last : Option Text
  deriving DecidableEq, Repr

def Path.self : Text := ['.']

def Path.above : Text := ['.', '.']

namespace Location

/-- Where one more part of a path leads. Two slashes in a row are like one. -/
def go (here : Location) (part : Text) : Location :=
  if part = [] ∨ part = Path.self then here
  else if part = Path.above then here.dropLast
  else here ++ [part]

/-- The folders around a location, the root first. -/
def around (place : Location) : List Location := (List.range place.length).map place.take

/-- The name of a location inside a folder, if it is inside. -/
def nameIn? (folder place : Location) : Option Text :=
  if folder.isPrefixOf place then some (List.intercalate ['/'] (place.drop folder.length))
  else none

end Location

namespace Path

def parts : Text → List Text
  | [] => [[]]
  | c :: rest =>
    if c = '/' then [] :: parts rest
    else
      match parts rest with
      | [] => [[c]]
      | part :: others => (c :: part) :: others

/-- Whether a part can name a file. -/
def isPlain (part : Text) : Bool := part ≠ [] && part ≠ self && part ≠ above

/-- Takes a name apart. Slashes at the end make it the name of a folder. -/
def ofText (name : Text) : Path where
  absolute := name.head? = some '/'
  folders := ((parts name).reverse.dropWhile List.isEmpty).reverse.dropLast
  last := (parts name).getLast?.filter isPlain

def size (text : Text) : Nat := text.foldl (fun total c => total + c.utf8Size) 0

def maxPart : Nat := 255

def maxSize : Nat := 4095

end Path

end Pebble
