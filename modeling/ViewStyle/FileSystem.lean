/-
The files of a host: a tree of directories, and how a path is followed through it.
-/

import ViewStyle.Location

set_option autoImplicit false

namespace ViewStyle

/-- A file with its text, a program or device without one, or a directory with what is in it, each
under its name. -/
inductive FileTree
  | file (source : String)
  | binary
  | directory (entries : List (String × FileTree))

/-- A path leads nowhere, or to something that has no text. -/
inductive PathError
  | missing
  | unreadable
  deriving DecidableEq

namespace FileTree

def nameLimit : Nat := 255

/-- Follows names from a node; `above` are the directories around it, the innermost first. An empty
name and a dot stay, two dots leave a directory, and nothing is around the root. Names are looked
at one after the other, so that the first one that fails counts. -/
def follow : FileTree → List FileTree → List String → Except PathError FileTree
  | node, _, [] => .ok node
  | .file _, _, _ :: _ => .error .unreadable
  | .binary, _, _ :: _ => .error .unreadable
  | .directory entries, above, name :: names =>
      if name = "" ∨ name = "." then follow (.directory entries) above names
      else if name = ".." then
        match above with
        | [] => follow (.directory entries) [] names
        | parent :: above => follow parent above names
      else if name.utf8ByteSize > nameLimit then .error .unreadable
      else
        match entries.lookup name with
        | some node => follow node (.directory entries :: above) names
        | none => .error .missing

def source : FileTree → Except PathError String
  | .file source => .ok source
  | .binary | .directory _ => .error .unreadable

end FileTree

/-- All files, and the path of the directory that other paths start from. -/
structure FileSystem where
  root : FileTree
  current : String

namespace FileSystem

def pathLimit : Nat := 4096

def names (path : String) : List String := path.splitOn "/"

def isAbsolute (path : String) : Bool := path.toList.head? = some '/'

def join (directory path : String) : String :=
  if isAbsolute path || directory.isEmpty then path
  else if directory.toList.getLast? = some '/' then directory ++ path
  else directory ++ "/" ++ path

def find (s : FileSystem) (path : String) : Except PathError FileTree :=
  if path.isEmpty then .error .missing
  else s.root.follow [] (names (if isAbsolute path then path else s.current ++ "/" ++ path))

def read (s : FileSystem) (path : String) : Except PathError String :=
  if path.toList.contains '\x00' || pathLimit ≤ path.utf8ByteSize then .error .unreadable
  else do (← s.find path).source

/-- Finds files in directories only. -/
def load (s : FileSystem) : Loader := fun file location =>
  match location with
  | .bundle _ => .error (.notFound file location.text)
  | .directory path =>
      match s.read (join path file.text) with
      | .ok source => .ok source
      | .error .missing => .error (.notFound file location.text)
      | .error .unreadable => .error (.unreadable file)

end FileSystem

end ViewStyle
