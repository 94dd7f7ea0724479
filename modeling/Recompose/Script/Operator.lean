namespace Recompose.Script

/-- Binding strength of an expression form; a larger level binds tighter. -/
abbrev Level := Nat

namespace Level

def lowest : Level := 0
def comma : Level := 1
def spread : Level := 2
def yields : Level := 3
def assign : Level := 4
def conditional : Level := 5
def coalesce : Level := 6
def logicalOr : Level := 7
def logicalAnd : Level := 8
def bitOr : Level := 9
def bitXor : Level := 10
def bitAnd : Level := 11
def equals : Level := 12
def compare : Level := 13
def shift : Level := 14
def add : Level := 15
def multiply : Level := 16
def power : Level := 17
def beforeOp : Level := 18
def afterOp : Level := 19
def construct : Level := 20
def call : Level := 21
def member : Level := 22

end Level

inductive UnaryOp where
  | plus | minus | not | complement | typeOf | void | delete
deriving DecidableEq, Repr, Inhabited

namespace UnaryOp

def text : UnaryOp → String
  | plus => "+"
  | minus => "-"
  | not => "!"
  | complement => "~"
  | typeOf => "typeof"
  | void => "void"
  | delete => "delete"

def isWord : UnaryOp → Bool
  | typeOf | void | delete => true
  | _ => false

def ofText? (s : String) : Option UnaryOp :=
  [plus, minus, not, complement, typeOf, void, delete].find? (·.text == s)

end UnaryOp

inductive UpdateOp where
  | increment | decrement
deriving DecidableEq, Repr, Inhabited

def UpdateOp.text : UpdateOp → String
  | increment => "++"
  | decrement => "--"

inductive BinaryOp where
  | equal | notEqual | identical | notIdentical
  | less | lessEqual | greater | greaterEqual
  | add | subtract | multiply | divide | remainder | power
  | shiftLeft | shiftRight | shiftRightZero
  | bitOr | bitXor | bitAnd
  | isIn | instanceOf
deriving DecidableEq, Repr, Inhabited

namespace BinaryOp

def text : BinaryOp → String
  | equal => "=="
  | notEqual => "!="
  | identical => "==="
  | notIdentical => "!=="
  | less => "<"
  | lessEqual => "<="
  | greater => ">"
  | greaterEqual => ">="
  | add => "+"
  | subtract => "-"
  | multiply => "*"
  | divide => "/"
  | remainder => "%"
  | power => "**"
  | shiftLeft => "<<"
  | shiftRight => ">>"
  | shiftRightZero => ">>>"
  | bitOr => "|"
  | bitXor => "^"
  | bitAnd => "&"
  | isIn => "in"
  | instanceOf => "instanceof"

def all : List BinaryOp :=
  [equal, notEqual, identical, notIdentical, less, lessEqual, greater, greaterEqual, add, subtract,
    multiply, divide, remainder, power, shiftLeft, shiftRight, shiftRightZero, bitOr, bitXor, bitAnd,
    isIn, instanceOf]

def ofText? (s : String) : Option BinaryOp :=
  all.find? (·.text == s)

def level : BinaryOp → Level
  | equal | notEqual | identical | notIdentical => Level.equals
  | less | lessEqual | greater | greaterEqual | isIn | instanceOf => Level.compare
  | add | subtract => Level.add
  | multiply | divide | remainder => Level.multiply
  | power => Level.power
  | shiftLeft | shiftRight | shiftRightZero => Level.shift
  | bitOr => Level.bitOr
  | bitXor => Level.bitXor
  | bitAnd => Level.bitAnd

def assigns : BinaryOp → Bool
  | add | subtract | multiply | divide | remainder | power | shiftLeft | shiftRight
  | shiftRightZero | bitOr | bitXor | bitAnd => true
  | _ => false

end BinaryOp

inductive LogicalOp where
  | or | and | coalesce
deriving DecidableEq, Repr, Inhabited

namespace LogicalOp

def text : LogicalOp → String
  | or => "||"
  | and => "&&"
  | coalesce => "??"

def ofText? (s : String) : Option LogicalOp :=
  [or, and, coalesce].find? (·.text == s)

def level : LogicalOp → Level
  | or => Level.logicalOr
  | and => Level.logicalAnd
  | coalesce => Level.coalesce

end LogicalOp

inductive AssignOp where
  | plain
  | arithmetic (op : BinaryOp)
  | logical (op : LogicalOp)
deriving DecidableEq, Repr, Inhabited

namespace AssignOp

def text : AssignOp → String
  | plain => "="
  | arithmetic op => op.text ++ "="
  | logical op => op.text ++ "="

def all : List AssignOp :=
  plain :: (BinaryOp.all.filter (·.assigns)).map arithmetic
    ++ [LogicalOp.or, LogicalOp.and, LogicalOp.coalesce].map logical

def ofText? (s : String) : Option AssignOp :=
  all.find? (·.text == s)

end AssignOp

end Recompose.Script
