/-
The configuration of a theme, in code or as a document in which every field may be left out.
-/

import ViewStyle.FileSystem
import ViewStyle.Text.Blank
import ViewStyle.Yaml.Document

set_option autoImplicit false

namespace ViewStyle

/-- The first file to load, where files are looked up, whether views are updated as soon as their
style is computed, and whether the plugins of the library take part. -/
structure Config where
  entryPoint : FileName := ⟨"main", "less"⟩
  baseDirectory : String := "."
  bundle : Option String := none
  autoApply : Bool := true
  builtinPlugins : Bool := true

/-- A file that cannot be read, a document that is no configuration, a collection in the place of a
text, or a configuration that no theme can work with. -/
inductive ConfigError
  | unreadable (path : String)
  | malformed
  | notText (field found wanted : String) (place : Text.Position)
  | emptyName
  | badExtension (extension : String)
  deriving DecidableEq

def ConfigError.placeText (place : Text.Position) : String :=
  if place = .start then "" else s!" at line {place.line} column {place.column}"

def ConfigError.detail : ConfigError → String
  | .unreadable path => s!"failed to read {path}"
  | .malformed => "malformed document"
  | .notText field found wanted place =>
      s!"{field}: invalid type: {found}, expected {wanted}" ++ placeText place
  | .emptyName => "entry_point.name must not be empty"
  | .badExtension extension =>
      s!"entry_point.extension '{extension}' must be a bare extension such as 'less'"

def ConfigError.message (e : ConfigError) : String := "invalid engine configuration: " ++ e.detail

namespace Config

/-- A bundle counts before the directory. -/
def location (c : Config) : Location :=
  match c.bundle with
  | some name => .bundle name
  | none => .directory c.baseDirectory

def withBaseDirectory (c : Config) (path : String) : Config :=
  { c with baseDirectory := path, bundle := none }

def isBlankText (s : String) : Bool := s.toList.all Text.isBlank

def validate (c : Config) : Except ConfigError Unit :=
  if isBlankText c.entryPoint.name then .error .emptyName
  else if isBlankText c.entryPoint.extension || c.entryPoint.extension.toList.contains '.' then
    .error (.badExtension c.entryPoint.extension)
  else .ok ()

def readText (d : Yaml.Document) (field wanted : String) (node : Yaml.Node) :
    Except ConfigError String :=
  match d.resolve node with
  | .scalar text .. => .ok text
  | .sequence start _ => .error (.notText field "sequence" wanted start)
  | .mapping start _ => .error (.notText field "map" wanted start)
  | _ => .error .malformed

def nullTag : String := "tag:yaml.org,2002:null"

def boolTag : String := "tag:yaml.org,2002:bool"

def isNullText (text : String) : Bool := ["~", "null", "Null", "NULL"].contains text

def readOptionalText (d : Yaml.Document) (field wanted : String) (node : Yaml.Node) :
    Except ConfigError (Option String) :=
  match d.resolve node with
  | .scalar text .plain none =>
      if text.isEmpty || isNullText text then .ok none else .ok (some text)
  | .scalar text .plain (some tag) =>
      if tag ≠ nullTag then .ok (some text)
      else if isNullText text then .ok none
      else .error .malformed
  | node => (readText d field wanted node).map some

def readBool (d : Yaml.Document) (node : Yaml.Node) : Except ConfigError Bool :=
  match d.resolve node with
  | .scalar text style tag =>
      if style = .plain || (style = .literal && tag = some boolTag) then
        if ["true", "True", "TRUE"].contains text then .ok true
        else if ["false", "False", "FALSE"].contains text then .ok false
        else .error .malformed
      else .error .malformed
  | _ => .error .malformed

def memberName (name : String) : Yaml.Node → String
  | .alias _ => "?"
  | _ => name

/-- Reads the members of a mapping one after the other; none may be there twice. `read` is given
what was read before, the key and the name of the member, and its value. A node that is not written
has no members. -/
def readMembers {α : Type} (d : Yaml.Document)
    (read : α → String → String → Yaml.Node → Except ConfigError α) (start : α)
    (node : Yaml.Node) : Except ConfigError α :=
  match d.resolve node with
  | .mapping _ members => do
      let (result, _) ← members.foldlM (fun (result, keys) (key, value) =>
        match d.resolve key with
        | .scalar text .. =>
            if keys.contains text then .error .malformed
            else (read result text (memberName text key) value).map (·, text :: keys)
        | _ => .error .malformed) (start, ([] : List String))
      return result
  | .scalar "" .plain _ => .ok start
  | _ => .error .malformed

def readEntryPoint (d : Yaml.Document) (field : String) : Yaml.Node → Except ConfigError FileName :=
  readMembers d (fun e key name value =>
    match key with
    | "name" =>
        (readText d s!"{field}.{name}" "a string" value).map fun name => { e with name }
    | "extension" =>
        (readText d s!"{field}.{name}" "a string" value).map fun extension =>
          { e with extension }
    | _ => .error .malformed) ⟨"main", "less"⟩

def ofNode (d : Yaml.Document) : Yaml.Node → Except ConfigError Config :=
  readMembers d (fun c key name value =>
    match key with
    | "entry_point" =>
        (readEntryPoint d name value).map fun entryPoint => { c with entryPoint }
    | "base_dir" =>
        (readText d name "path string" value).map fun baseDirectory => { c with baseDirectory }
    | "bundle" => (readOptionalText d name "a string" value).map fun bundle => { c with bundle }
    | "auto_apply_properties" => (readBool d value).map fun autoApply => { c with autoApply }
    | "builtin_plugins" => (readBool d value).map fun builtinPlugins => { c with builtinPlugins }
    | _ => .error .malformed) {}

def ofDocument (d : Yaml.Document) : Except ConfigError Config := do
  let config ←
    match d.root with
    | some root => ofNode d root
    | none => .ok {}
  if d.whole then return config else .error .malformed

/-- Reads a configuration that a theme can work with. -/
def ofYaml (text : String) : Except ConfigError Config := do
  let config ← ofDocument (Yaml.Document.ofText text)
  config.validate
  return config

def ofFile (files : FileSystem) (path : String) : Except ConfigError Config :=
  match files.read path with
  | .ok text => ofYaml text
  | .error _ => .error (.unreadable path)

end Config

end ViewStyle
