import Chip8.Text.Quoted
import Chip8.Text.TextFile
/-! Directories: files by their paths, and what is found when a path is opened. Names are entered one after
the other, a dot stays and two dots go back. Only the files of the directory and the ways to them are
known: outside of it nothing is found. -/

namespace Chip8

inductive FileFault
  | missing (path : String)
  | notDirectory (path : String)
  | isDirectory (path : String)
  | longName (path : String)
  | nulInPath
  | encoding (why : Text.EncodingFault)
  deriving DecidableEq

def FileFault.message (f : FileFault) : String :=
  let named (what path : String) := what ++ ": " ++ String.ofList (Text.quoted path.toList)
  match f with
  | missing path => named "[Errno 2] No such file or directory" path
  | notDirectory path => named "[Errno 20] Not a directory" path
  | isDirectory path => named "[Errno 21] Is a directory" path
  | longName path => named "[Errno 36] File name too long" path
  | nulInPath => "embedded null byte"
  | encoding why => why.message

/-- The names that lead to a file from the directory, without detours. -/
abbrev Place := List (List Char)

structure Directory (α : Type) where
  files : List (Place × α) := []
  directories : List Place := []

namespace Directory

variable {α : Type}

def namesOf (path : String) : List (List Char) := Text.splitOn '/' path.toList

/-- Where a path starts: a slash stands for the root of all. -/
def startOf (path : String) : Place := if path.toList.head? = some '/' then [['/']] else []

def isDetour (name : List Char) : Bool := name == [] || name == ['.'] || name == ['.', '.']

def enter (place : Place) (name : List Char) : Place :=
  if name = [] ∨ name = ['.'] then place
  else if name ≠ ['.', '.'] then place ++ [name]
  else if place.all (· == ['.', '.']) then place ++ [['.', '.']]
  else if place = [['/']] then place
  else place.dropLast

def placeOf (path : String) : Place := (namesOf path).foldl enter (startOf path)

/-- The places that names lead through from a place, without the last one. -/
def passed (place : Place) : List (List Char) → List Place
  | [] => []
  | name :: names => place :: passed (enter place name) names

/-- The directory in which a file was written at each path, the later over the earlier. Whatever a path
leads through was made for it, also where it turns back. -/
def ofFiles (files : List (String × α)) : Directory α :=
  { files := files.reverse.map fun f => (placeOf f.1, f.2)
    directories := files.flatMap fun f => passed (startOf f.1) (namesOf f.1) }

def file? (d : Directory α) (place : Place) : Option α := d.files.lookup place

/-- The directory itself, those around it, the root of all, and what was made are directories. -/
def isDirectory (d : Directory α) (place : Place) : Bool :=
  place.all (· == ['.', '.']) || place == [['/']] || d.directories.contains place

/-- The longest name and the longest path, in bytes with the end of the path counted. -/
def maxName : Nat := 255

def maxPath : Nat := 4096

def walk (d : Directory α) (path : String) (place : Place) :
    List (List Char) → Except FileFault Place
  | [] => .ok place
  | name :: names =>
    if !d.isDirectory place then .error (.notDirectory path)
    else if maxName < (String.ofList name).utf8ByteSize then .error (.longName path)
    else
      let next := enter place name
      if isDetour name || d.isDirectory next || (d.file? next).isSome then d.walk path next names
      else .error (.missing path)

def open? (d : Directory α) (path : String) : Except FileFault α :=
  if path.toList.contains '\x00' then .error .nulInPath
  else if path = "" then .error (.missing path)
  else if maxPath ≤ path.utf8ByteSize then .error (.longName path)
  else
    match d.walk path (startOf path) (namesOf path) with
    | .error why => .error why
    | .ok place =>
      match d.file? place with
      | some content => .ok content
      | none => .error (.isDirectory path)

end Directory

example : ((Directory.ofFiles [("a.s", 1), ("d/b.s", 2)]).open? "./d/../a.s").toOption = some 1 ∧
    ((Directory.ofFiles [("a.s", 1)]).open? "a.s/").toOption = none ∧
    ((Directory.ofFiles [("d/../a.s", 1)]).open? "d/../a.s").toOption = some 1 ∧
    ((Directory.ofFiles [("a.s", 1)]).open? "d/../a.s").toOption = none := by decide

end Chip8
