/-
Where stylesheets are looked up, and sources kept in memory.
-/

set_option autoImplicit false

namespace ViewStyle

/-- A directory of the file system, or a named bundle of sources. -/
inductive Location
  | directory (path : String)
  | bundle (name : String)
  deriving DecidableEq

def Location.text : Location → String
  | .directory path => s!"directory '{path}'"
  | .bundle name => s!"bundle '{name}'"

/-- A file has a name and an extension, which a dot stands between. -/
structure FileName where
  name : String
  extension : String
  deriving DecidableEq

def FileName.text (f : FileName) : String := f.name ++ "." ++ f.extension

/-- A file is missing, or there is one that cannot be read. -/
inductive FileError
  | notFound (file : FileName) (place : String)
  | unreadable (file : FileName)
  deriving DecidableEq

def FileError.message : FileError → String
  | .notFound file place => s!"stylesheet '{file.text}' not found in {place}"
  | .unreadable file => s!"failed to read {file.text}"

/-- Gives the source text of a file at a location. -/
abbrev Loader : Type := FileName → Location → Except FileError String

/-- Gives the source text of a file at some fixed place. -/
abbrev FileSource : Type := FileName → Except FileError String

def FileSource.none : FileSource := fun file => .error (.notFound file "no import location")

/-- Sources by bundle and file, the latest first. -/
structure Bundles where
  sources : List ((String × String) × String)

namespace Bundles

def empty : Bundles := ⟨[]⟩

/-- Adds a source; it hides an earlier one of the same name. -/
def add (b : Bundles) (bundle file source : String) : Bundles :=
  ⟨((bundle, file), source) :: b.sources⟩

def find? (b : Bundles) (bundle file : String) : Option String := b.sources.lookup (bundle, file)

/-- Finds files in bundles only. -/
def load (b : Bundles) : Loader := fun file location =>
  match location with
  | .directory _ => .error (.notFound file location.text)
  | .bundle name =>
      match b.find? name file.text with
      | some source => .ok source
      | none => .error (.notFound file location.text)

end Bundles

end ViewStyle
