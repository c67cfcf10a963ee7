/-
The nodes of a YAML document. Where its tokens break off, the collections that are open have the
nodes up to there.
-/

import ViewStyle.Yaml.Token.Basic

set_option autoImplicit false

namespace ViewStyle.Yaml

open Text (Position)

/-- A node; collections know where they start. Anchors are numbered, and an alias stands for the
node with its number. -/
inductive Node
  | scalar (text : String) (style : Style) (tag : Option String)
  | sequence (start : Position) (items : List Node)
  | mapping (start : Position) (members : List (Node × Node))
  | anchored (number : Nat) (node : Node)
  | alias (number : Nat)

namespace Node

def missing : Node := .scalar "" .plain none

mutual

def anchors : Node → List (Nat × Node)
  | .scalar .. => []
  | .sequence _ items => anchorsOfItems items
  | .mapping _ members => anchorsOfMembers members
  | .anchored number node => (number, node) :: anchors node
  | .alias _ => []

def anchorsOfItems : List Node → List (Nat × Node)
  | [] => []
  | item :: items => anchors item ++ anchorsOfItems items

def anchorsOfMembers : List (Node × Node) → List (Nat × Node)
  | [] => []
  | (key, value) :: members => anchors key ++ anchors value ++ anchorsOfMembers members

end

end Node

abbrev Anchors := List (String × Nat)

def Anchors.add (known : Anchors) (name : String) : Anchors :=
  (name, known.length) :: known.filter (·.1 ≠ name)

/-- What was read, the anchors that are known behind it, and the tokens behind it, unless they
broke off. -/
structure Found (α : Type) where
  value : α
  known : Anchors
  rest : Option (List Token)

def Found.append {α : Type} (first : Found (List α))
    (more : Anchors → List Token → Found (List α)) : Found (List α) :=
  match first.rest with
  | none => first
  | some rest =>
      let second := more first.known rest
      { second with value := first.value ++ second.value }

def Token.Kind.endsNode : Token.Kind → Bool
  | .key | .value | .comma | .blockEnd | .sequenceEnd | .mappingEnd => true
  | _ => false

def commaBefore? : List Token → Option (List Token)
  | ⟨.comma, _⟩ :: rest => some rest
  | ⟨.sequenceEnd, position⟩ :: rest => some (⟨.sequenceEnd, position⟩ :: rest)
  | ⟨.mappingEnd, position⟩ :: rest => some (⟨.mappingEnd, position⟩ :: rest)
  | _ => none

structure Properties where
  start : Position
  anchor : Option String
  tag : Option TagName
  rest : List Token

def takeProperties? : List Token → Option Properties
  | [] => none
  | ⟨.anchor name, start⟩ :: ⟨.tag tag, _⟩ :: rest => some ⟨start, some name, some tag, rest⟩
  | ⟨.tag tag, start⟩ :: ⟨.anchor name, _⟩ :: rest => some ⟨start, some name, some tag, rest⟩
  | ⟨.anchor name, start⟩ :: rest => some ⟨start, some name, none, rest⟩
  | ⟨.tag tag, start⟩ :: rest => some ⟨start, none, some tag, rest⟩
  | token :: rest => some ⟨token.position, none, none, token :: rest⟩

def TagName.resolve? (handles : List (String × String)) (name : TagName) : Option String :=
  if name.handle.isEmpty then some name.suffix
  else (handles.lookup name.handle).map (· ++ name.suffix)

namespace Node

mutual

/-- Reads a node. A sequence that is a member's value may start without a token of its own. -/
def read (handles : List (String × String)) (fuel : Nat) (inMember : Bool) (known : Anchors)
    (tokens : List Token) : Found (Option Node) :=
  match fuel, tokens with
  | _ + 1, ⟨.alias name, _⟩ :: rest =>
      match known.lookup name with
      | some number => ⟨some (.alias number), known, some rest⟩
      | none => ⟨none, known, none⟩
  | fuel + 1, tokens =>
      match takeProperties? tokens with
      | none => ⟨none, known, none⟩
      | some ⟨start, anchor, name, content⟩ =>
          match name.mapM (TagName.resolve? handles) with
          | none => ⟨none, known, none⟩
          | some tag =>
              let number := known.length
              let known := (anchor.map known.add).getD known
              let named (node : Node) := if anchor.isSome then Node.anchored number node else node
              let sequence (found : Found (List Node)) : Found (Option Node) :=
                ⟨some (named (.sequence start found.value)), found.known, found.rest⟩
              let mapping (found : Found (List (Node × Node))) : Found (Option Node) :=
                ⟨some (named (.mapping start found.value)), found.known, found.rest⟩
              match content with
              | ⟨.scalar text style, _⟩ :: rest =>
                  ⟨some (named (.scalar text style tag)), known, some rest⟩
              | ⟨.sequenceStart true, _⟩ :: rest =>
                  sequence (flowItems handles fuel true known rest)
              | ⟨.sequenceStart false, _⟩ :: rest =>
                  sequence (blockItems handles fuel false known rest)
              | ⟨.mappingStart true, _⟩ :: rest =>
                  mapping (flowMembers handles fuel true known rest)
              | ⟨.mappingStart false, _⟩ :: rest =>
                  mapping (blockMembers handles fuel known rest)
              | [] => ⟨none, known, none⟩
              | token :: rest =>
                  if inMember && token.kind = .item then
                    sequence (blockItems handles fuel true known (token :: rest))
                  else if anchor.isSome || tag.isSome then
                    ⟨some (named (.scalar "" .plain tag)), known, some (token :: rest)⟩
                  else ⟨none, known, none⟩
  | 0, _ => ⟨none, known, none⟩

def readOptional (handles : List (String × String)) (fuel : Nat) (inMember : Bool)
    (known : Anchors) (tokens : List Token) : Found (Option Node) :=
  match fuel, tokens with
  | fuel + 1, token :: rest =>
      if token.kind.endsNode || (token.kind = .item && !inMember) then
        ⟨some missing, known, some (token :: rest)⟩
      else read handles fuel inMember known (token :: rest)
  | _, _ => ⟨none, known, none⟩

def readMember (handles : List (String × String)) (fuel : Nat) (flow : Bool)
    (key : Found (Option Node)) : Found (List (Node × Node)) :=
  match fuel, key with
  | fuel + 1, ⟨some key, known, some (⟨.value, _⟩ :: rest)⟩ =>
      let value := readOptional handles fuel (!flow) known rest
      ⟨[(key, value.value.getD missing)], value.known, value.rest⟩
  | _ + 1, ⟨some key, known, rest⟩ => ⟨[(key, missing)], known, rest⟩
  | _, ⟨_, known, _⟩ => ⟨[], known, none⟩

def blockItems (handles : List (String × String)) (fuel : Nat) (bare : Bool) (known : Anchors)
    (tokens : List Token) : Found (List Node) :=
  match fuel, tokens with
  | fuel + 1, ⟨.item, _⟩ :: rest =>
      let item := readOptional handles fuel false known rest
      Found.append ⟨item.value.toList, item.known, item.rest⟩ (blockItems handles fuel bare)
  | _ + 1, token :: rest =>
      if bare then ⟨[], known, some (token :: rest)⟩
      else ⟨[], known, if token.kind = .blockEnd then some rest else none⟩
  | _, _ => ⟨[], known, none⟩

def blockMembers (handles : List (String × String)) (fuel : Nat) (known : Anchors)
    (tokens : List Token) : Found (List (Node × Node)) :=
  match fuel, tokens with
  | fuel + 1, ⟨.key, _⟩ :: rest =>
      (readMember handles fuel false (readOptional handles fuel true known rest)).append
        (blockMembers handles fuel)
  | _ + 1, ⟨.blockEnd, _⟩ :: rest => ⟨[], known, some rest⟩
  | _, _ => ⟨[], known, none⟩

def flowItems (handles : List (String × String)) (fuel : Nat) (first : Bool) (known : Anchors)
    (tokens : List Token) : Found (List Node) :=
  match fuel, if first then some tokens else commaBefore? tokens with
  | _ + 1, some (⟨.sequenceEnd, _⟩ :: rest) => ⟨[], known, some rest⟩
  | fuel + 1, some (⟨.key, start⟩ :: rest) =>
      let found := readMember handles fuel true (readOptional handles fuel false known rest)
      Found.append ⟨[.mapping start found.value], found.known, found.rest⟩
        (flowItems handles fuel false)
  | fuel + 1, some tokens =>
      let item := read handles fuel false known tokens
      Found.append ⟨item.value.toList, item.known, item.rest⟩ (flowItems handles fuel false)
  | _, _ => ⟨[], known, none⟩

def flowMembers (handles : List (String × String)) (fuel : Nat) (first : Bool) (known : Anchors)
    (tokens : List Token) : Found (List (Node × Node)) :=
  match fuel, if first then some tokens else commaBefore? tokens with
  | _ + 1, some (⟨.mappingEnd, _⟩ :: rest) => ⟨[], known, some rest⟩
  | fuel + 1, some (⟨.key, _⟩ :: rest) =>
      (readMember handles fuel true (readOptional handles fuel false known rest)).append
        (flowMembers handles fuel false)
  | fuel + 1, some tokens =>
      let key := read handles fuel false known tokens
      Found.append ⟨(key.value.map (·, missing)).toList, key.known, key.rest⟩
        (flowMembers handles fuel false)
  | _, _ => ⟨[], known, none⟩

end

end Node

end ViewStyle.Yaml
