/-
A YAML text comes in parts of a certain size. A part with a control in it is refused as a whole, and
all that is behind it is not even looked at.
-/

set_option autoImplicit false

namespace ViewStyle.Yaml

def isTextChar (c : Char) : Bool :=
  c == '\t' || c == '\n' || c == '\r' || (' ' ≤ c && c ≤ '~') || c == '\u0085' ||
    ('\u00a0' ≤ c && c ≠ '\ufffe' && c ≠ '\uffff')

def partLimit : Nat := 16384

def splitParts (part : List Char) (size : Nat) : List Char → List (List Char)
  | [] => [part.reverse]
  | c :: cs =>
      if size + c.utf8Size ≤ partLimit then splitParts (c :: part) (size + c.utf8Size) cs
      else part.reverse :: splitParts [c] c.utf8Size cs

def intake (text : List Char) : List Char × Bool :=
  let parts := splitParts [] 0 text
  let sound := parts.takeWhile fun part => part.all isTextChar
  (sound.flatten, sound.length < parts.length)

end ViewStyle.Yaml
