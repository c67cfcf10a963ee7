/-
A YAML text as a single document.
-/

import ViewStyle.Yaml.Node
import ViewStyle.Yaml.Part
import ViewStyle.Yaml.Token.Scan

set_option autoImplicit false

namespace ViewStyle.Yaml

/-- A document has a root unless its text is empty. It is not whole if its text goes wrong somewhere
or goes on with another document; then there is what stands before that. -/
structure Document where
  root : Option Node := none
  whole : Bool := false

def handles : List (String × String) := [("!", "!"), ("!!", "tag:yaml.org,2002:")]

def takeDirectives? (versioned : Bool) (found : List (String × String)) :
    List Token → Option (List (String × String) × List Token)
  | ⟨.directive (.version major minor), _⟩ :: rest =>
      if versioned || major ≠ 1 || (minor ≠ 1 && minor ≠ 2) then none
      else takeDirectives? true found rest
  | ⟨.directive (.tag handle text), _⟩ :: rest =>
      if (found.lookup handle).isSome then none
      else takeDirectives? versioned ((handle, text) :: found) rest
  | tokens => some (found ++ handles, tokens)

namespace Document

def isOver (tokens : List Token) : Bool :=
  match tokens.dropWhile (·.kind = .documentEnd) with
  | ⟨.streamEnd, _⟩ :: _ => true
  | _ => false

def ofContent (handles : List (String × String)) (tokens : List Token) : Document :=
  let found := Node.read handles (4 * tokens.length + 4) false [] tokens
  { root := found.value, whole := found.rest.any isOver }

def ofTokens (tokens : List Token) : Document :=
  match tokens with
  | ⟨.streamEnd, _⟩ :: _ => { whole := true }
  | ⟨.directive _, _⟩ :: _ | ⟨.documentStart, _⟩ :: _ =>
      match takeDirectives? false [] tokens with
      | some (handles, ⟨.documentStart, _⟩ :: rest) =>
          match rest with
          | ⟨.directive _, _⟩ :: _ | ⟨.documentStart, _⟩ :: _ | ⟨.documentEnd, _⟩ :: _
          | ⟨.streamEnd, _⟩ :: _ => { root := some .missing, whole := isOver rest }
          | rest => ofContent handles rest
      | _ => {}
  | tokens => ofContent handles tokens

/-- Reads a text as far as it is right. -/
def ofText (text : String) : Document :=
  let (sound, cut) := intake text.toList
  ofTokens (Token.scan sound cut)

def resolve (d : Document) : Node → Node
  | .anchored _ node => node
  | .alias number => ((d.root.toList.flatMap Node.anchors).reverse.lookup number).getD .missing
  | node => node

end Document

end ViewStyle.Yaml
