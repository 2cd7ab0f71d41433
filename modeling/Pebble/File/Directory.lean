import Pebble.File.Path
import Pebble.Text.Newline

/-!
Directories, as far as a task reads and writes them: folders, files with their contents, and the
folder in which the task is done. The main statement is `read_write`: what has been written under a
name is read under that name.
-/

namespace Pebble

/-- Folders and files by their places. Names that do not start at the root start at `home`. -/
structure Directory where
  home : Location := []
  folders : List Location := [[]]
  files : List (Location × ByteArray) := []

namespace Directory

/-- The directory that has some files, some folders and a home, and the folders around them. -/
def ofFiles (home : Location) (folders : List Location) (files : List (Location × ByteArray)) :
    Directory where
  home := home
  folders :=
    (home :: folders).flatMap (fun place => place :: place.around) ++
      files.flatMap (fun file => file.1.around)
  files := files

def encode (text : Text) : ByteArray := (String.ofList text).toUTF8

/-- The text that bytes hold in UTF-8, with unified line ends. Bytes that are not valid UTF-8 hold
no text. -/
def decode? (bytes : ByteArray) : Option Text :=
  (String.fromUTF8? bytes).map fun s => Text.unifyNewlines s.toList

/-- The contents of the first file at a given place. -/
def find? (place : Location) : List (Location × ByteArray) → Option ByteArray
  | [] => none
  | file :: files => if file.1 = place then some file.2 else find? place files

/-- Goes from a folder to where one part of a path leads, which must be a folder. -/
def enter (d : Directory) (here : Location) (part : Text) : Except FileFault Location :=
  if Path.maxPart < Path.size part then .error .nameTooLong
  else if d.folders.contains (here.go part) then .ok (here.go part)
  else if (find? (here.go part) d.files).isSome then .error .notFolder
  else .error .missing

def walk (d : Directory) (here : Location) : List Text → Except FileFault Location
  | [] => .ok here
  | part :: parts =>
    match d.enter here part with
    | .error fault => .error fault
    | .ok next => d.walk next parts

/-- The place of the file that a name names, whether there is one or not. -/
def locate (d : Directory) (name : Text) : Except FileFault Location :=
  if name.contains '\x00' then .error .nullCharacter
  else if Path.maxSize < Path.size name then .error .nameTooLong
  else
    let path := Path.ofText name
    match d.walk (if path.absolute then [] else d.home) path.folders with
    | .error fault => .error fault
    | .ok folder =>
      match path.last with
      | none => .error .isFolder
      | some last =>
        if Path.maxPart < Path.size last then .error .nameTooLong
        else if d.folders.contains (folder ++ [last]) then .error .isFolder
        else .ok (folder ++ [last])

def read (d : Directory) (name : Text) : Except FileFault ByteArray :=
  match d.locate name with
  | .error fault => .error fault
  | .ok place =>
    match find? place d.files with
    | none => .error .missing
    | some contents => .ok contents

def writeTo (place : Location) (contents : ByteArray) :
    List (Location × ByteArray) → List (Location × ByteArray)
  | [] => [(place, contents)]
  | file :: files =>
    if file.1 = place then (place, contents) :: files else file :: writeTo place contents files

def write (d : Directory) (place : Location) (contents : ByteArray) : Directory :=
  { d with files := writeTo place contents d.files }

def changes (d before : Directory) : List (Location × ByteArray) :=
  d.files.filter fun file => find? file.1 before.files != some file.2

theorem find?_writeTo (place other : Location) (contents : ByteArray)
    (files : List (Location × ByteArray)) :
    find? other (writeTo place contents files) =
      if other = place then some contents else find? other files := by
  induction files with
  | nil => simp [writeTo, find?, eq_comm]
  | cons file files ih =>
    by_cases hplace : file.1 = place <;> by_cases hother : file.1 = other <;>
      grind [writeTo, find?]

theorem find?_write (d : Directory) (place other : Location) (contents : ByteArray) :
    find? other (d.write place contents).files =
      if other = place then some contents else find? other d.files :=
  find?_writeTo place other contents d.files

theorem enter_write {d : Directory} {here next : Location} {part : Text} (place : Location)
    (contents : ByteArray) (h : d.enter here part = .ok next) :
    (d.write place contents).enter here part = .ok next := by
  unfold enter at h ⊢
  split at h
  · simp at h
  · split at h
    · simp_all [write]
    · split at h <;> simp at h

theorem walk_write {d : Directory} {here last : Location} {parts : List Text}
    (place : Location) (contents : ByteArray) (h : d.walk here parts = .ok last) :
    (d.write place contents).walk here parts = .ok last := by
  induction parts generalizing here with
  | nil => simpa [walk] using h
  | cons part parts ih =>
    rw [walk] at h ⊢
    split at h
    · simp at h
    · next _ hnext => rw [enter_write place contents hnext]; exact ih h

theorem locate_write {d : Directory} {name : Text} {found : Location} (place : Location)
    (contents : ByteArray) (h : d.locate name = .ok found) :
    (d.write place contents).locate name = .ok found := by
  unfold locate at h ⊢
  split at h
  · simp at h
  · split at h
    · simp at h
    · simp only at h ⊢
      split at h
      · simp at h
      · next _ hwalk =>
        rw [show (d.write place contents).home = d.home from rfl, walk_write place contents hwalk]
        simp_all [write]

/-- What has been written at the place of a name is read under that name. -/
theorem read_write {d : Directory} {name : Text} {place : Location} (contents : ByteArray)
    (h : d.locate name = .ok place) :
    (d.write place contents).read name = .ok contents := by
  simp [read, locate_write place contents h, find?_write]

end Directory

end Pebble
