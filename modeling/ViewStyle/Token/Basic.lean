/-
Tokens of a stylesheet, their written form, and the text of a run of tokens, in which a single
space stands for any white space and comments before a token.
-/

import ViewStyle.Text.Position

set_option autoImplicit false

namespace ViewStyle

open Text (Span)

/-- Operators of values and conditions. A single equals sign assigns in a block of variables and
compares in a condition. -/
inductive Operator
  | less
  | lessEqual
  | assign
  | equal
  | notEqual
  | greater
  | greaterEqual
  | plus
  | minus
  | star
  | slash
  deriving DecidableEq

def Operator.text : Operator → String
  | .less => "<"
  | .lessEqual => "<="
  | .assign => "="
  | .equal => "=="
  | .notEqual => "!="
  | .greater => ">"
  | .greaterEqual => ">="
  | .plus => "+"
  | .minus => "-"
  | .star => "*"
  | .slash => "/"

def Operator.all : List Operator :=
  [.less, .lessEqual, .assign, .equal, .notEqual, .greater, .greaterEqual, .plus, .minus, .star,
    .slash]

def Operator.ofText? (text : String) : Option Operator := Operator.all.find? (·.text == text)

/-- The three kinds of bracket; a function head opens a round one. -/
inductive Bracket
  | brace
  | square
  | round
  deriving DecidableEq

def Bracket.opening : Bracket → Char
  | .brace => '\x7b'
  | .square => '['
  | .round => '('

def Bracket.closing : Bracket → Char
  | .brace => '\x7d'
  | .square => ']'
  | .round => ')'

/-- Punctuation; `other` is any character that is nothing else. -/
inductive Punct
  | opening (bracket : Bracket)
  | closing (bracket : Bracket)
  | semicolon
  | colon
  | comma
  | dot
  | bang
  | ampersand
  | other (c : Char)
  deriving DecidableEq

def Punct.char : Punct → Char
  | .opening bracket => bracket.opening
  | .closing bracket => bracket.closing
  | .semicolon => ';'
  | .colon => ':'
  | .comma => ','
  | .dot => '.'
  | .bang => '!'
  | .ampersand => '&'
  | .other c => c

namespace Token

/-- What a token is. Names and strings have their escapes resolved; a number keeps its source text,
so that its sign and format survive. -/
inductive Kind
  | ident (name : String)
  | atWord (name : String)
  | hash (name : String)
  | string (text : String)
  | number (value : Float) (unit : Option String) (source : String)
  | function (name : String)
  | operator (op : Operator)
  | punct (mark : Punct)
  deriving BEq, DecidableEq

def Kind.label : Kind → String
  | .ident name => s!"identifier '{name}'"
  | .atWord name => s!"'@{name}'"
  | .hash name => s!"'#{name}'"
  | .string _ => "string"
  | .number _ _ source => s!"number '{source}'"
  | .function name => s!"function '{name}('"
  | .operator op => s!"'{op.text}'"
  | .punct mark => s!"'{mark.char}'"

/-- Inside a string only quotes and backslashes are escaped. -/
def escapeQuotes (cs : List Char) : List Char :=
  cs.flatMap fun c => if c = '"' ∨ c = '\\' then ['\\', c] else [c]

/-- The written form of a token. -/
def Kind.text : Kind → String
  | .ident name => name
  | .atWord name => "@" ++ name
  | .hash name => "#" ++ name
  | .string text => "\"" ++ String.ofList (escapeQuotes text.toList) ++ "\""
  | .number _ _ source => source
  | .function name => name ++ "("
  | .operator op => op.text
  | .punct mark => mark.char.toString

/-- A function head or an opening bracket. -/
def Kind.opens : Kind → Bool
  | .function _ => true
  | .punct (.opening _) => true
  | _ => false

def Kind.closes : Kind → Bool
  | .punct (.closing _) => true
  | _ => false

end Token

/-- A token and its place; `spaced` if white space or a comment stands before it. -/
structure Token where
  kind : Token.Kind
  span : Span
  spaced : Bool
  deriving BEq, DecidableEq

namespace Token

def renderRest (tokens : List Token) : String :=
  String.join (tokens.map fun t => if t.spaced then " " ++ t.kind.text else t.kind.text)

/-- The text of a run of tokens. -/
def render : List Token → String
  | [] => ""
  | first :: rest => first.kind.text ++ renderRest rest

/-- The number of groups that are open behind a token, if `depth` are open before it. A closing
token without a group to close changes nothing. -/
def depthAfter (kind : Kind) (depth : Nat) : Nat :=
  if kind.opens then depth + 1 else if kind.closes then depth - 1 else depth

/-- The text equals a word but for the case of ASCII letters. -/
def spells (word name : String) : Bool := name.toLower == word

end Token

end ViewStyle
