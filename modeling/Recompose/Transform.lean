import Recompose.Imports
import Recompose.Script.Print
import Recompose.Weave.Walk

namespace Recompose

open Script

structure Report where
  code : Option String
  errors : List Diagnostic := []
  stats : Stats := {}
deriving DecidableEq, Repr, Inhabited

namespace Report

def failed (errors : List Diagnostic) (stats : Stats) : Report :=
  { code := none, errors, stats }

def isOk (r : Report) : Bool :=
  r.errors.isEmpty

end Report

def allowsElements (file : String) : Bool :=
  ".tsx".toList.isSuffixOf file.toList

/-- No file of this many bytes is nested deeper once it is woven. -/
def walkDepth (size : Nat) : Nat :=
  16 * size + 64

/-- What the walk found wrong, a failure of generated code last. -/
def walkErrors (file : String) (s : Weave.State) : List Diagnostic :=
  s.errors ++ (s.failure.map (·.diagnostic file)).toList

def emit (o : Options) (program : Program) (stats : Stats) : Report :=
  let body := if o.emitImports then insertImports o (0 < stats.reifiedChains) program.body
    else .ok program.body
  match body with
  | .error f => .failed [f.diagnostic o.filePath] stats
  | .ok body => { code := some { program with body }.print, stats }

def siteOf (source : String) (o : Options) (parsed : Parsed) : Weave.Site :=
  let annotations := Annotations.ofComments source parsed.comments
  let identity := Identity.ofWidth o.hashWidth
  let graph := CallGraph.build parsed.program.body o.filePath annotations identity
  ⟨o, source, annotations, graph, identity⟩

def transformParsed (source : String) (o : Options) (parsed : Parsed) : Report :=
  let depth := walkDepth source.utf8ByteSize
  match Weave.walkAll (siteOf source o parsed) depth parsed.program.body with
  | none => .failed [Failure.depth.diagnostic o.filePath] {}
  | some (body, s) =>
    match walkErrors o.filePath s with
    | [] =>
      if s.touched then emit o { parsed.program with body } s.stats
      else { code := some source, stats := s.stats }
    | errors => .failed errors s.stats

def parseDiagnostic (file : String) : Diagnostic where
  code := Rule.parse.code
  message := "unexpected token"
  file := file
  position := ⟨1, 1⟩

/-- Applies the memo transform to one file. -/
def transform (source : String) (o : Options) : Report :=
  match o.validate with
  | .error f => .failed [f.diagnostic o.filePath] {}
  | .ok () =>
    match parse? source (allowsElements o.filePath) with
    | none => .failed [parseDiagnostic o.filePath] {}
    | some parsed => transformParsed source o parsed

def transformAll (files : List (String × String)) (o : Options) : List Report :=
  files.map fun f => transform f.2 { o with filePath := f.1 }

end Recompose
