/-
From a source text to its tokens. White space and comments turn into flags on the tokens, two
characters in a row into comparison operators, and every group that is opened has to be closed; a
closing bracket that does not fit the innermost open group is an ordinary token.
-/

import ViewStyle.Token.Basic
import ViewStyle.Token.Error
import ViewStyle.Token.Lexeme

set_option autoImplicit false

namespace ViewStyle

open Text (Span Position)

namespace Scan

/-- A group that has not been closed yet. -/
structure Group where
  bracket : Bracket
  span : Span

/-- What is known in the middle of a text: where it goes on, whether white space was passed since
the last token, the open groups from the inside out, and the tokens from the last to the first. -/
structure State where
  position : Position
  spaced : Bool
  groups : List Group
  tokens : List Token

def State.start : State := ⟨.start, false, [], []⟩

/-- The operator that a token forms with an equals sign right behind it. -/
def joined : Token.Kind → Option Operator
  | .operator .less => some .lessEqual
  | .operator .greater => some .greaterEqual
  | .operator .assign => some .equal
  | .punct .bang => some .notEqual
  | _ => none

/-- Adds a token, or joins it with the one before. -/
def push (tokens : List Token) (token : Token) : List Token :=
  match token.kind, token.spaced, tokens with
  | .operator .assign, false, last :: earlier =>
      match joined last.kind with
      | some op => { last with kind := .operator op } :: earlier
      | none => token :: tokens
  | _, _, _ => token :: tokens

/-- The token of a character that is no bracket. -/
def markKind : Char → Token.Kind
  | '<' => .operator .less
  | '>' => .operator .greater
  | '=' => .operator .assign
  | '+' => .operator .plus
  | '-' => .operator .minus
  | '*' => .operator .star
  | '/' => .operator .slash
  | ';' => .punct .semicolon
  | ':' => .punct .colon
  | ',' => .punct .comma
  | '.' => .punct .dot
  | '!' => .punct .bang
  | '&' => .punct .ampersand
  | c => .punct (.other c)

def opening? : Char → Option Bracket
  | '\x7b' => some .brace
  | '[' => some .square
  | '(' => some .round
  | _ => none

def closing? : Char → Option Bracket
  | '\x7d' => some .brace
  | ']' => some .square
  | ')' => some .round
  | _ => none

/-- Adds a token at the current place; it takes the white space before it. -/
def State.emit (s : State) (origin : Option String) (kind : Token.Kind) : State :=
  { s with spaced := false, tokens := push s.tokens ⟨kind, ⟨origin, s.position⟩, s.spaced⟩ }

def State.enter (s : State) (origin : Option String) (kind : Token.Kind) (bracket : Bracket) :
    Except ScanError State :=
  let span : Span := ⟨origin, s.position⟩
  if nestingLimit ≤ s.groups.length then .error (.tooDeep span)
  else .ok { s.emit origin kind with groups := ⟨bracket, span⟩ :: s.groups }

def State.leave (s : State) (origin : Option String) (bracket : Bracket) : State :=
  let closed := s.emit origin (.punct (.closing bracket))
  match s.groups with
  | [] => closed
  | group :: outer => if group.bracket = bracket then { closed with groups := outer } else closed

/-- What one lexeme adds; `text` is its source text. The position stays where the lexeme starts. -/
def State.read (s : State) (origin : Option String) (text : List Char) :
    Lexeme → Except ScanError State
  | .blank => .ok { s with spaced := true }
  | .comment true => .ok { s with spaced := true }
  | .comment false => .error (.unterminatedComment ⟨origin, s.position⟩)
  | .ident name => .ok (s.emit origin (.ident name))
  | .atWord name => .ok (s.emit origin (.atWord name))
  | .hash name => .ok (s.emit origin (.hash name))
  | .string text true => .ok (s.emit origin (.string text))
  | .string _ false => .error (.unterminatedString ⟨origin, s.position⟩)
  | .number value unit => .ok (s.emit origin (.number value unit (String.ofList text)))
  | .function name => s.enter origin (.function name) .round
  | .address target =>
      .ok (((s.emit origin (.function "url")).emit origin (.string target)).emit origin
        (.punct (.closing .round)))
  | .mark c =>
      match opening? c, closing? c with
      | some bracket, _ => s.enter origin (.punct (.opening bracket)) bracket
      | none, some bracket => .ok (s.leave origin bracket)
      | none, none => .ok (s.emit origin (markKind c))
  | .refused => .error (.invalidToken ⟨origin, s.position⟩ (String.ofList text))

/-- Reads a text to its end, where no group may be open. -/
def run (origin : Option String) (s : State) : List Char → Except ScanError (List Token)
  | [] =>
      match s.groups with
      | [] => .ok s.tokens.reverse
      | group :: _ => .error (.unterminatedBlock group.span group.bracket.closing)
  | c :: cs =>
      let (lexeme, n) := Lexeme.next c cs
      let text := c :: cs.take n
      match s.read origin text lexeme with
      | .error e => .error e
      | .ok s => run origin { s with position := s.position.after text } (cs.drop n)
termination_by cs => cs.length

end Scan

/-- The tokens of a source text; `origin` names it in positions. -/
def Token.scan (source : String) (origin : Option String) : Except ScanError (List Token) :=
  Scan.run origin .start source.toList

end ViewStyle
