import Recompose.Script.Parse.Goal

namespace Recompose.Script.Parse

/-- Carries the offsets of shorthand properties with a default. -/
abbrev Convert := StateT (List Nat) Option

/-- An operand that `++`, `--` or `=` can write to; parentheses around it vanish. -/
def simpleTarget? : Expr → Option Expr
  | .form _ .paren [e] => simpleTarget? e
  | .ref s n => some (.ref s n)
  | .member s o n p false => some (.member s o n p false)
  | .form s (.index false) es => some (.form s (.index false) es)
  | .form s .nonNull es => some (.form s .nonNull es)
  | .ascribe s h e t => some (.ascribe s h e t)
  | _ => none

mutual

def target : Expr → Convert Pattern
  | .form s .array es => return .arrayPattern s (← targets es)
  | .object s ps => return .objectPattern s (← targetFields ps)
  | e => do
    let e ← (simpleTarget? e : Option _)
    return .place e

def targets : List Expr → Convert (List Pattern)
  | [] => return []
  | [.form s .spread [e]] => return [.restPattern s (← target e)]
  | .hole _ :: es => return .gap :: (← targets es)
  | .assign s .plain t v :: es => return .withDefault s t v :: (← targets es)
  | e :: es => do
    let p ← target e
    return p :: (← targets es)

def targetFields : List Node → Convert (List Pattern)
  | [] => return []
  | [.spreadProp s e] => return [.restPattern s (← target e)]
  | .pair s k (.assign sv .plain t v) shorthand :: ps => do
    if shorthand then modify (·.erase s.start)
    return .fieldPattern s k (.withDefault sv t v) shorthand :: (← targetFields ps)
  | .pair s k e shorthand :: ps => do
    let p ← target e
    return .fieldPattern s k p shorthand :: (← targetFields ps)
  | _ => failure

end

open Script.Parser

def asTarget (e : Expr) : Parser Pattern := do
  let (p, covers) ← ((target e).run (← get).covers : Option _)
  modify fun c => { c with covers }
  return p

end Recompose.Script.Parse
