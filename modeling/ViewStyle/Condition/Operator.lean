/-
The comparisons and the arithmetic of conditions.
-/

import ViewStyle.Token.Basic

set_option autoImplicit false

namespace ViewStyle

inductive Comparison
  | less
  | lessEqual
  | equal
  | notEqual
  | greater
  | greaterEqual
  deriving DecidableEq

namespace Comparison

/-- One equals sign compares like two. -/
def ofOperator? : Operator → Option Comparison
  | .less => some .less
  | .lessEqual => some .lessEqual
  | .assign => some .equal
  | .equal => some .equal
  | .notEqual => some .notEqual
  | .greater => some .greater
  | .greaterEqual => some .greaterEqual
  | _ => none

def text : Comparison → String
  | .less => "<"
  | .lessEqual => "<="
  | .equal => "=="
  | .notEqual => "!="
  | .greater => ">"
  | .greaterEqual => ">="

def needsNumbers : Comparison → Bool
  | .equal => false
  | .notEqual => false
  | _ => true

def holds : Comparison → Ordering → Bool
  | .less, o => o == .lt
  | .lessEqual, o => o != .gt
  | .equal, o => o == .eq
  | .notEqual, o => o != .eq
  | .greater, o => o == .gt
  | .greaterEqual, o => o != .lt

end Comparison

inductive Arithmetic
  | add
  | sub
  | mul
  | div
  deriving DecidableEq

namespace Arithmetic

def ofOperator? : Operator → Option Arithmetic
  | .plus => some .add
  | .minus => some .sub
  | .star => some .mul
  | .slash => some .div
  | _ => none

def text : Arithmetic → String
  | .add => "+"
  | .sub => "-"
  | .mul => "*"
  | .div => "/"

def isProduct : Arithmetic → Bool
  | .mul => true
  | .div => true
  | _ => false

def result? : Arithmetic → Float → Float → Option Float
  | .add, l, r => some (l + r)
  | .sub, l, r => some (l - r)
  | .mul, l, r => some (l * r)
  | .div, l, r => if r == 0 then none else some (l / r)

end Arithmetic

end ViewStyle
