import FeedIntake.Text.Quoted
import FeedIntake.Text.Cut

/-! # Folders and files

The working directory as far as this library changes it: folders are made below it and text is
appended to files. Places outside it are taken as they come, save for the null device, which is no
folder.
-/

namespace FeedIntake

/-- A path as the names on it, from the root or from the working directory. -/
structure Path where
  absolute : Bool
  names : List String
  deriving DecidableEq, Repr, Inhabited

namespace Path

/-- Empty names and those that stay in place are dropped. -/
def ofText (s : String) : Path :=
  let names := (Text.pieces '/' s.toList).map String.ofList
  ⟨s.toList.head? = some '/', names.filter fun n => n != "" && n != "."⟩

def text (p : Path) : String :=
  if p.absolute then "/" ++ "/".intercalate p.names
  else if p.names.isEmpty then "." else "/".intercalate p.names

def parent (p : Path) : Path := { p with names := p.names.dropLast }

/-- No path of the host has a null character in it. -/
def hasNull (p : Path) : Bool := p.names.any fun name => name.contains '\x00'

/-- Paths that can only lead to a folder: those without a name, and those that end by going up. -/
def endsInFolder (p : Path) : Bool := p.names.getLast?.all (· == "..")

end Path

inductive FolderFault where
  | notFolder (path : String)
  | isFolder (path : String)
  | exists (path : String)
  | nameTooLong (path : String)
  | nullCharacter
  deriving DecidableEq, Repr

def FolderFault.message : FolderFault → String
  | notFolder path => "[Errno 20] Not a directory: " ++ Text.quoted path
  | isFolder path => "[Errno 21] Is a directory: " ++ Text.quoted path
  | .exists path => "[Errno 17] File exists: " ++ Text.quoted path
  | nameTooLong path => "[Errno 36] File name too long: " ++ Text.quoted path
  | nullCharacter => "embedded null byte"

/-- A place below the working directory, by the names that lead to it. -/
abbrev Place := List String

structure Folder where
  folders : List Place
  files : List (Place × String)
  deriving Inhabited

namespace Folder

def empty : Folder := ⟨[], []⟩

def isFolder (f : Folder) (place : Place) : Bool := place.isEmpty || f.folders.contains place

def isFile (f : Folder) (place : Place) : Bool := f.files.any fun e => e.1 == place

def longestName : Nat := 255

/-- The size of a path that is not reached. -/
def longestPath : Nat := 4096

/-- Where following names one by one from a folder ends. -/
inductive Walk where
  | at (place : Place)
  | outside
  | missing
  | notFolder
  | tooLong

def walk (f : Folder) (place : Place) : List String → Walk
  | [] => .at place
  | ".." :: names => if place.isEmpty then .outside else walk f place.dropLast names
  | name :: names =>
      if longestName < name.utf8ByteSize then .tooLong
      else
        let next := place ++ [name]
        if f.isFolder next then walk f next names
        else if f.isFile next then
          if names.isEmpty then .at next else .notFolder
        else .missing

def makeOne (f : Folder) (path : Path) : Except FolderFault Folder :=
  match f.walk [] path.names with
  | .at place => if f.isFolder place then .ok f else .error (.exists path.text)
  | .notFolder => .error (.notFolder path.text)
  | .tooLong => .error (.nameTooLong path.text)
  | .outside => .ok f
  | .missing =>
      match f.walk [] path.parent.names with
      | .at place =>
          match path.names.getLast? with
          | some name => .ok { f with folders := f.folders ++ [place ++ [name]] }
          | none => .ok f
      | _ => .ok f

/-- Makes a folder below the working directory and, before it, the folders on the way that are
missing. -/
def makeBelow (f : Folder) (path : Path) : Except FolderFault Folder :=
  if _h : path.names = [] then .ok f
  else
    match f.walk [] path.names, f.walk [] path.parent.names with
    | .missing, .missing => do (← f.makeBelow path.parent).makeOne path
    | _, _ => f.makeOne path
termination_by path.names.length
decreasing_by
  have := List.length_pos_iff.2 _h
  simp only [Path.parent, List.length_dropLast]
  omega

/-- The null device is no folder and holds none. -/
def makeOutside (f : Folder) (path : Path) : Except FolderFault Folder :=
  match path.names with
  | ["dev", "null"] => .error (.exists path.text)
  | "dev" :: "null" :: _ => .error (.notFolder path.text)
  | _ => .ok f

def make (f : Folder) (path : Path) : Except FolderFault Folder :=
  if path.hasNull then .error .nullCharacter
  else if longestPath ≤ path.text.utf8ByteSize then .error (.nameTooLong path.text)
  else if path.absolute then f.makeOutside path
  else f.makeBelow path

/-- The place of a file below the working directory, none if it lies outside. -/
def placeOf? (path : Path) : Option Place :=
  if path.absolute then none
  else path.names.foldlM (fun place name =>
    if name = ".." then (if place.isEmpty then none else some place.dropLast)
    else some (place ++ [name])) []

def content (f : Folder) (place : Place) : String := (f.files.lookup place).getD ""

/-- Sets the content of a file, which is made if it is missing. -/
def write (f : Folder) (place : Place) (content : String) : Folder :=
  if f.isFile place then
    { f with files := f.files.map fun e => if e.1 == place then (place, content) else e }
  else { f with files := f.files ++ [(place, content)] }

/-- Opens a file to append to, in a folder that is there. -/
def openFile (f : Folder) (path : Path) : Except FolderFault Folder :=
  if path.hasNull then .error .nullCharacter
  else if path.endsInFolder then .error (.isFolder path.text)
  else
    match placeOf? path with
    | none => .ok f
    | some place =>
        if place.any fun name => longestName < name.utf8ByteSize then
          .error (.nameTooLong path.text)
        else if f.isFolder place then .error (.isFolder path.text)
        else .ok (f.write place (f.content place))

def move (f : Folder) (source target : Place) : Folder :=
  match f.files.lookup source with
  | none => f
  | some content =>
      let rest := f.files.filter fun e => e.1 != source && e.1 != target
      { f with files := rest ++ [(target, content)] }

def placeText (place : Place) : String := "/".intercalate place

/-- What the folder holds, in order: files by their paths, folders with a stroke at the end. -/
def listing (f : Folder) : List String :=
  (f.folders.map (fun p => placeText p ++ "/") ++ f.files.map fun e => placeText e.1).mergeSort
    fun a b => !decide (b < a)

end Folder

end FeedIntake
