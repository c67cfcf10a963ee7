/-
Anchors and tags, which stand before a node, and the directives before a document, which tell what
the handles of tags mean.
-/

import ViewStyle.Yaml.Scalar.Basic

set_option autoImplicit false

namespace ViewStyle.Yaml

def takeAnchor (c : Cursor) : Option (String × Cursor) :=
  let name := (c.rest.drop 1).takeWhile isNameChar
  let behind := c.skip (name.length + 1)
  let ended := endsWord behind.rest ||
    behind.rest.head?.any ['?', ':', ',', ']', '\x7d', '%', '@', '\x60'].contains
  if !name.isEmpty && ended then some (String.ofList name, behind) else none

def isTagChar (verbatim : Bool) (c : Char) : Bool :=
  isNameChar c ||
    [';', '/', '?', ':', '@', '&', '=', '+', '$', '.', '!', '~', '*', '\'', '(', ')'].contains c ||
    (verbatim && [',', '[', ']'].contains c)

def octetsBehind? (octet : Nat) : Option Nat :=
  if octet < 128 then some 0
  else if octet / 32 = 6 then some 1
  else if octet / 16 = 14 then some 2
  else if octet / 8 = 30 then some 3
  else none

def takeTagText (verbatim : Bool) : Nat → List Char → Option (List Char × Nat)
  | due, [] => if due = 0 then some ([], 0) else none
  | due, '%' :: a :: b :: cs => do
      let octet ← hexNumber? [a, b]
      let due ←
        if due = 0 then octetsBehind? octet
        else if octet / 64 = 2 then some (due - 1)
        else none
      let (text, length) ← takeTagText verbatim due cs
      return (Char.ofNat octet :: text, length + 3)
  | due, c :: cs =>
      if due ≠ 0 || c == '%' then none
      else if isTagChar verbatim c then
        (takeTagText verbatim 0 cs).map fun (text, length) => (c :: text, length + 1)
      else some ([], 0)

/-- A tag as it is written: a handle, and what stands behind that. A tag between angles has an
empty handle. -/
structure TagName where
  handle : String
  suffix : String
  deriving DecidableEq

def TagName.ofChars (handle suffix : List Char) : TagName :=
  ⟨String.ofList handle, String.ofList (suffix.takeWhile (· ≠ '\x00'))⟩

def takeTag (flow : Bool) (c : Cursor) : Option (TagName × Cursor) := do
  let (name, behind) ←
    match c.rest.drop 1 with
    | '<' :: cs => do
        let (text, length) ← takeTagText true 0 cs
        let behind := c.skip (length + 2)
        if length = 0 || behind.rest.head? ≠ some '>' then none
        else some (TagName.ofChars [] text, behind.skip 1)
    | cs => do
        let letters := cs.takeWhile isNameChar
        let rest := cs.drop letters.length
        if rest.head? = some '!' then
          let (text, length) ← takeTagText false 0 rest.tail
          if length = 0 then none
          else
            some (TagName.ofChars ('!' :: letters ++ ['!']) text,
              c.skip (letters.length + length + 2))
        else
          let (text, length) ← takeTagText false 0 rest
          let name := TagName.ofChars ['!'] (letters ++ text)
          let behind := c.skip (letters.length + length + 1)
          some (if name.suffix.isEmpty then ⟨"", "!"⟩ else name, behind)
  if endsWord behind.rest || (flow && behind.rest.head? = some ',') then some (name, behind)
  else none

/-- A line before a document. -/
inductive Directive
  | version (major minor : Nat)
  | tag (handle text : String)
  deriving DecidableEq

def takeNumber (c : Cursor) : Option (Nat × Cursor) :=
  let digits := c.rest.takeWhile Char.isDigit
  if digits.isEmpty || 9 < digits.length then none
  else some (digits.foldl (fun n d => 10 * n + (d.toNat - 48)) 0, c.skip digits.length)

def takeVersion (c : Cursor) : Option (Directive × Cursor) := do
  let (major, behind) ← takeNumber c
  let (minor, behind) ← if behind.rest.head? = some '.' then takeNumber (behind.skip 1) else none
  return (.version major minor, behind)

def takeTagDirective (c : Cursor) : Option (Directive × Cursor) := do
  let letters := (c.rest.drop 1).takeWhile isNameChar
  let inner := c.skip (letters.length + 1)
  let closed := inner.rest.head? = some '!'
  if c.rest.head? ≠ some '!' || (!closed && !letters.isEmpty) then none
  else
    let behind := if closed then inner.skip 1 else inner
    let start := behind.skipWhile isBlank
    let (text, length) ← takeTagText true 0 start.rest
    let after := start.skip length
    if behind.rest.head?.any isBlank && length ≠ 0 && endsWord after.rest then
      let name := TagName.ofChars ('!' :: letters ++ if closed then ['!'] else []) text
      some (.tag name.handle name.suffix, after)
    else none

def takeDirective (c : Cursor) : Option (Directive × Cursor) := do
  let name := (c.rest.drop 1).takeWhile isNameChar
  let behind := c.skip (name.length + 1)
  let values := behind.skipWhile isBlank
  if !endsWord behind.rest then none
  else
    let (directive, after) ←
      if name = ['Y', 'A', 'M', 'L'] then takeVersion values
      else if name = ['T', 'A', 'G'] then takeTagDirective values
      else none
    return (directive, ← after.endLine?)

end ViewStyle.Yaml
