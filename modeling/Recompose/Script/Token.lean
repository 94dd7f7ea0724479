import Recompose.Script.Node

namespace Recompose.Script

structure Comment where
  span : Span
  block : Bool
deriving DecidableEq, Repr, Inhabited

inductive TokenKind where
  | name
  | privateName
  | punct
  | number
  | bigint
  | string (lone : Bool)
  /-- A chunk of a template; `last` if a back quote ends it, `valid` if its escapes are. -/
  | template (last valid : Bool)
  | regex (flags : String)
  | jsxText
  | stop
deriving DecidableEq, Repr, Inhabited

structure Token where
  kind : TokenKind
  text : String
  raw : String
  span : Span
  newline : Bool := false
  escaped : Bool := false
  pureMark : Bool := false
  effectFreeMark : Bool := false
deriving DecidableEq, Repr, Inhabited

namespace Token

/-- Is the token the given punctuation or unescaped word? -/
def is (t : Token) (s : String) : Bool :=
  (t.kind == .punct || (t.kind == .name && !t.escaped)) && t.text == s

def isAny (t : Token) (ss : List String) : Bool :=
  (t.kind == .punct || (t.kind == .name && !t.escaped)) && ss.contains t.text

def isString (t : Token) : Bool :=
  match t.kind with
  | .string _ => true
  | _ => false

def isTemplate (t : Token) : Bool :=
  match t.kind with
  | .template _ _ => true
  | _ => false

def reserved : List String :=
  ["break", "case", "catch", "class", "const", "continue", "debugger", "default", "delete", "do",
    "else", "enum", "export", "extends", "false", "finally", "for", "function", "if", "import", "in",
    "instanceof", "new", "null", "return", "super", "switch", "this", "throw", "true", "try",
    "typeof", "var", "void", "while", "with"]

def isIdentifier (t : Token) : Bool :=
  t.kind == .name && !reserved.contains t.text

end Token

end Recompose.Script
