import Recompose.Text.Offset

namespace Recompose

/-- A line and a column, both counted from one. -/
structure Position where
  line : Nat
  column : Nat
deriving DecidableEq, Repr, Inhabited

namespace Position

def advance (p : Position) (c : Char) : Position :=
  if c = '\n' then ⟨p.line + 1, 1⟩ else ⟨p.line, p.column + 1⟩

def after (text : List Char) : Position :=
  text.foldl advance ⟨1, 1⟩

/-- The position of a byte offset. An offset that is past the end or inside a character gives the
position of the end. -/
def ofOffset (source : String) (offset : Nat) : Position :=
  after ((Text.takeBytes? offset source.toList).getD source.toList)

end Position

inductive Rule where
  | parse | earlyExit | branchVar | branchSuspend | arity | paramPattern | unsupported | entry
  | options | internal
deriving DecidableEq, Repr, Inhabited

namespace Rule

def code : Rule → String
  | parse => "MEMO-ERR-PARSE"
  | earlyExit => "MEMO-ERR-EARLY-EXIT"
  | branchVar => "MEMO-ERR-BRANCH-VAR"
  | branchSuspend => "MEMO-ERR-BRANCH-SUSPEND"
  | arity => "MEMO-ERR-ARITY"
  | paramPattern => "MEMO-ERR-PARAM-PATTERN"
  | unsupported => "MEMO-ERR-UNSUPPORTED"
  | entry => "MEMO-ERR-ENTRY"
  | options => "MEMO-ERR-OPTIONS"
  | internal => "MEMO-ERR-INTERNAL"

def guarantee : Rule → String
  | parse => "Only syntactically valid sources reach the memo transform."
  | earlyExit =>
    "A reified branch never changes where return, break or continue transfer control."
  | branchVar => "Variables declared in a branch keep their original visibility."
  | branchSuspend => "Branch closures are synchronous; suspension points stay in their function."
  | arity =>
    "Every memo function carries exactly two hidden parameters ahead of its declared ones."
  | paramPattern => "Every change-detected parameter is addressable by name."
  | unsupported => "Only plain synchronous functions, methods and lambdas are memoized."
  | entry => "Memo entry points receive their context and identity explicitly."
  | options => "The transform runs with a validated configuration."
  | internal => "Generated runtime glue is well-formed."

def all : List Rule :=
  [parse, earlyExit, branchVar, branchSuspend, arity, paramPattern, unsupported, entry, options,
    internal]

def ofCode? (code : String) : Option Rule :=
  all.find? (·.code == code)

end Rule

structure Diagnostic where
  code : String
  message : String
  file : String
  position : Position
  context : Option String := none
  hints : List String := []
deriving DecidableEq, Repr, Inhabited

namespace Diagnostic

def kind : String := "MEMO_TRANSFORM_VIOLATION"

def guarantee (d : Diagnostic) : String :=
  ((Rule.ofCode? d.code).map Rule.guarantee).getD "Unknown invariant."

def display (d : Diagnostic) : String :=
  "[" ++ d.code ++ "] " ++ d.message ++ " (" ++ d.file ++ ":" ++ toString d.position.line ++ ":"
    ++ toString d.position.column ++ ")"

end Diagnostic

/-- What stops the work on a file without a place in it to blame. -/
inductive Failure where
  | options
  | hashWidth (width : Nat)
  | snippet (text reason : String)
  | depth
deriving DecidableEq, Repr, Inhabited

namespace Failure

def message : Failure → String
  | options => "invalid transform options"
  | hashWidth w => "hash width " ++ toString w ++ " is outside the supported range 8..=53"
  | snippet text reason => "failed to build generated code \x60" ++ text ++ "\x60: " ++ reason
  | depth => "the walk does not end"

def rule : Failure → Rule
  | options => .options
  | hashWidth _ => .options
  | snippet _ _ => .internal
  | depth => .internal

def diagnostic (f : Failure) (file : String) : Diagnostic where
  code := f.rule.code
  message := f.message
  file := file
  position := ⟨0, 0⟩

end Failure

end Recompose
