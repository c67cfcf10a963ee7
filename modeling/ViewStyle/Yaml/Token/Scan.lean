/-
From a YAML text to its tokens. What may turn out to be a key is known as one only when its colon is
met: until then the place before it is remembered, and tokens are put there later. A text that goes
wrong has the tokens that were certain by then, and no end.
-/

import ViewStyle.Yaml.Scalar.Block
import ViewStyle.Yaml.Scalar.Plain
import ViewStyle.Yaml.Scalar.Quoted
import ViewStyle.Yaml.Token.Basic

set_option autoImplicit false

namespace ViewStyle.Yaml

structure Candidate where
  line : Nat
  column : Nat
  offset : Nat
  before : Nat
  required : Bool

def keyLimit : Nat := 1024

def Candidate.isLost (k : Candidate) (c : Cursor) : Bool :=
  k.line < c.line || k.offset + keyLimit < c.offset

/-- What is known in the middle of a text: the columns of the open block collections and what may be
a key in each flow collection, both from the inside out; what has to be a key around all of those;
what may be a key now; whether one may start here; and the tokens from the last to the first with
their number. -/
structure Scan where
  cursor : Cursor
  columns : List Nat := []
  outer : List (Option Candidate) := []
  due : Option Candidate := none
  candidate : Option Candidate := none
  keyAllowed : Bool := true
  tokens : List Token := []
  count : Nat := 0

namespace Scan

def inFlow (s : Scan) : Bool := !s.outer.isEmpty

def least (s : Scan) : Nat :=
  match s.columns with
  | [] => 0
  | column :: _ => column + 1

def certain (s : Scan) : List Token :=
  let candidates := (s.candidate :: s.outer).filterMap (·.filter (!·.isLost s.cursor))
  s.tokens.reverse.take (candidates.foldl (fun n k => min n k.before) s.count)

def emit (s : Scan) (kind : Token.Kind) : Scan :=
  { s with tokens := ⟨kind, s.cursor.position⟩ :: s.tokens, count := s.count + 1 }

def insert (s : Scan) (before : Nat) (token : Token) : Scan :=
  let behind := s.count - before
  { s with
    tokens := s.tokens.take behind ++ token :: s.tokens.drop behind
    count := s.count + 1 }

def mark (s : Scan) (kind : Token.Kind) (length : Nat) : Scan :=
  { s.emit kind with cursor := s.cursor.skip length }

def forget (s : Scan) : Option Scan :=
  if s.candidate.any (·.required) then none else some { s with candidate := none }

def remember (s : Scan) : Option Scan :=
  if s.keyAllowed then do
    let s ← s.forget
    let required := !s.inFlow && s.least = s.cursor.column + 1
    let ⟨_, line, column, offset, _⟩ := s.cursor
    return { s with candidate := some ⟨line, column, offset, s.count, required⟩ }
  else some s

def expire (s : Scan) : Option Scan :=
  if [s.candidate, s.due].any (·.any fun k => k.required && k.isLost s.cursor) then none
  else some { s with candidate := s.candidate.filter (!·.isLost s.cursor) }

def unindent (s : Scan) (least : Nat) : Scan :=
  if s.inFlow then s
  else
    let columns := s.columns.dropWhile (least ≤ ·)
    let ended := s.columns.length - columns.length
    { s with
      columns
      tokens := List.replicate ended ⟨.blockEnd, s.cursor.position⟩ ++ s.tokens
      count := s.count + ended }

def indent (s : Scan) (column before : Nat) (token : Token) : Scan :=
  if !s.inFlow && s.least ≤ column then
    { s.insert before token with columns := column :: s.columns }
  else s

def indentHere (s : Scan) (kind : Token.Kind) : Scan :=
  s.indent s.cursor.column s.count ⟨kind, s.cursor.position⟩

def blanks (flow keyAllowed : Bool) (c : Cursor) : Bool × Cursor :=
  let start := if c.column = 0 && c.rest.head?.any isMark then c.skip 1 else c
  let inner := start.skipWhile fun b => b == ' ' || (b == '\t' && (flow || !keyAllowed))
  let behind := inner.skipComment
  if behind.rest.isEmpty = false ∧ behind.rest.head?.any isBreak then
    blanks flow (keyAllowed || !flow) (behind.skip 1)
  else (keyAllowed, behind)
termination_by c.rest.length
decreasing_by
  rename_i nonempty
  have first : start.rest.length ≤ c.rest.length := by
    unfold start
    split
    · exact c.length_skip_le 1
    · exact Nat.le_refl _
  have second : inner.rest.length ≤ start.rest.length := start.length_skipWhile_le _
  have third : behind.rest.length ≤ inner.rest.length := inner.length_skipComment_le
  exact Nat.lt_of_lt_of_le (behind.length_skip_lt ⟨Nat.one_pos, nonempty.1⟩)
    (Nat.le_trans third (Nat.le_trans second first))

def approach (s : Scan) : Option Scan :=
  let (keyAllowed, cursor) := blanks s.inFlow s.keyAllowed s.cursor
  if cursor.sees 4 then
    (expire { s with keyAllowed, cursor }).map fun s => s.unindent (s.cursor.column + 1)
  else none

def finish (s : Scan) : Option (List Token) := do
  let s := if s.cursor.column = 0 then s
    else { s with cursor := { s.cursor with line := s.cursor.line + 1, column := 0 } }
  let s ← (s.unindent 0).forget
  let s ← (s.emit .streamEnd).expire
  return s.tokens.reverse

def readOutside (s : Scan) : Option Scan := do
  let s ← (s.unindent 0).forget
  let s := { s with keyAllowed := false }
  if s.cursor.atDocumentStart then some (s.mark .documentStart 3)
  else if s.cursor.atDocumentEnd then some (s.mark .documentEnd 3)
  else
    let (directive, cursor) ← takeDirective s.cursor
    return { s.emit (.directive directive) with cursor }

def openFlow (s : Scan) (kind : Token.Kind) : Option Scan := do
  let s ← s.remember
  let s := s.mark kind 1
  return { s with
    outer := s.candidate :: s.outer
    due := if s.inFlow then s.due else s.candidate
    candidate := none
    keyAllowed := true }

def closeFlow (s : Scan) (kind : Token.Kind) : Option Scan := do
  let s ← s.forget
  let s := { s.mark kind 1 with keyAllowed := false }
  match s.outer with
  | [] => return s
  | candidate :: outer =>
      return { s with candidate, outer, due := if outer.isEmpty then none else s.due }

def readComma (s : Scan) : Option Scan := do
  let s ← s.forget
  return { s.mark .comma 1 with keyAllowed := true }

def readItem (s : Scan) : Option Scan := do
  let s ← if s.inFlow then some s
    else if s.keyAllowed then some (s.indentHere (.sequenceStart false)) else none
  let s ← s.forget
  return { s.mark .item 1 with keyAllowed := true }

def readKey (s : Scan) : Option Scan := do
  let s ← if s.inFlow then some s
    else if s.keyAllowed then some (s.indentHere (.mappingStart false)) else none
  let s ← s.forget
  return { s.mark .key 1 with keyAllowed := !s.inFlow }

def readValue (s : Scan) : Option Scan :=
  match s.candidate with
  | some k =>
      let position : Text.Position := ⟨k.line + 1, k.column + 1⟩
      let s := s.insert k.before ⟨.key, position⟩
      let s := s.indent k.column k.before ⟨.mappingStart false, position⟩
      some { s.mark .value 1 with candidate := none, keyAllowed := false }
  | none => do
      let s ← if s.inFlow then some s
        else if s.keyAllowed then some (s.indentHere (.mappingStart false)) else none
      return { s.mark .value 1 with keyAllowed := !s.inFlow }

def readProperty (s : Scan) (found : Option (Token.Kind × Cursor)) : Option Scan := do
  let s ← s.remember
  let (kind, cursor) ← found
  if cursor.sees 1 then some { s.emit kind with cursor, keyAllowed := false } else none

def scalar (s : Scan) (text : List Char) (style : Style) (cursor : Cursor) : Scan :=
  { s.emit (.scalar (String.ofList text) style) with cursor }

def readPlain (s : Scan) : Option Scan := do
  let s ← s.remember
  let found ← takePlain s.inFlow s.least [] [] s.cursor
  return { s.scalar found.text .plain found.cursor with keyAllowed := found.ended }

def readQuoted (s : Scan) (double : Bool) : Option Scan := do
  let s ← s.remember
  let start := s.cursor.skip 1
  let (text, cursor) ← if start.sees 4 then takeQuoted double [] start else none
  let style := if double then Style.doubleQuoted else Style.singleQuoted
  return { s.scalar text style cursor with keyAllowed := false }

def readBlock (s : Scan) (folded : Bool) : Option Scan := do
  let s ← s.forget
  let (text, cursor) ← takeBlock folded s.least s.cursor
  let style := if folded then Style.folded else Style.literal
  if cursor.sees 1 then some { s.scalar text style cursor with keyAllowed := true } else none

def isIndicator (c : Char) : Bool :=
  isFlowMark c ||
    ['-', '?', ':', '#', '&', '*', '!', '|', '>', '\'', '"', '%', '@', '\x60'].contains c

def readToken (s : Scan) (c : Char) (cs : List Char) : Option Scan :=
  let alone := endsWord cs
  match c with
  | '[' => s.openFlow (.sequenceStart true)
  | '\x7b' => s.openFlow (.mappingStart true)
  | ']' => s.closeFlow .sequenceEnd
  | '\x7d' => s.closeFlow .mappingEnd
  | ',' => s.readComma
  | '*' => s.readProperty ((takeAnchor s.cursor).map fun (name, c) => (.alias name, c))
  | '&' => s.readProperty ((takeAnchor s.cursor).map fun (name, c) => (.anchor name, c))
  | '!' => s.readProperty ((takeTag s.inFlow s.cursor).map fun (name, c) => (.tag name, c))
  | '\'' => s.readQuoted false
  | '"' => s.readQuoted true
  | '-' => if alone then s.readItem else s.readPlain
  | '?' => if s.inFlow || alone then s.readKey else s.readPlain
  | ':' => if s.inFlow || alone then s.readValue else s.readPlain
  | '|' => if s.inFlow then none else s.readBlock false
  | '>' => if s.inFlow then none else s.readBlock true
  | c => if isSpace c || isIndicator c then none else s.readPlain

def read (s : Scan) : Option Scan := do
  let next ←
    match s.cursor.rest with
    | [] => none
    | c :: cs =>
        if s.cursor.atDocumentMark || (s.cursor.column = 0 && c = '%') then s.readOutside
        else s.readToken c cs
  next.expire

/-- Reads on to the end, or to where the text goes wrong. `size` is the number of its bytes. -/
def run (size : Nat) (s : Scan) : List Token :=
  match s.approach with
  | none => s.certain
  | some near =>
      if near.cursor.rest.isEmpty then near.finish.getD s.certain
      else
        match near.read with
        | none => s.certain
        | some next =>
            if s.cursor.offset < next.cursor.offset ∧ next.cursor.offset ≤ size then run size next
            else next.certain
termination_by size - s.cursor.offset
decreasing_by
  rename_i forward
  exact Nat.sub_lt_sub_left (Nat.lt_of_lt_of_le forward.1 forward.2) forward.1

end Scan

/-- The tokens of a text, which ends with a token of its own unless it goes wrong or is cut off. -/
def Token.scan (text : List Char) (cut : Bool) : List Token :=
  let rest := normalize text
  Scan.run (byteSize rest) { cursor := { rest, cut } }

end ViewStyle.Yaml
