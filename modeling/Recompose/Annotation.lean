import Recompose.Marker
import Recompose.Script.Token
import Recompose.Text.Blank
import Recompose.Text.Offset

namespace Recompose

open Script

/-- Marked offsets, in the order of the comments. An offset may occur several times. -/
structure Annotations where
  entries : List (Nat × Markers)
deriving DecidableEq, Repr, Inhabited

namespace Annotations

def afterWord? (word : String) (text : List Char) : Option (List Char) :=
  match (text.drop word.length).span Text.isBlank with
  | (_ :: _, rest) => if text.take word.length = word.toList then some rest else none
  | ([], _) => none

def afterExport? (text : List Char) : Option (List Char) :=
  (afterWord? "export" text).map fun rest => (afterWord? "default" rest).getD rest

/-- The offsets that a comment marks: that of the next thing after it and, if this is an export,
that of the exported thing. `after` is the text behind the comment. -/
def targets (size : Nat) (after : List Char) : List Nat :=
  let rest := Text.trimStart after
  (size - Text.byteWidth rest) ::
    ((afterExport? rest).map fun rest => size - Text.byteWidth rest).toList

def ofComment (text : List Char) (comment : Comment) : List (Nat × Markers) :=
  match Text.sliceBytes? comment.span.start comment.span.stop text,
      Text.dropBytes? comment.span.stop text with
  | some body, some after =>
    let markers := Markers.ofText body
    if markers.isEmpty then []
    else (targets (Text.byteWidth text) after).map (·, markers)
  | _, _ => []

def ofComments (source : String) (comments : List Comment) : Annotations :=
  ⟨comments.flatMap (ofComment source.toList)⟩

def markers (a : Annotations) (offset : Nat) : Markers :=
  Markers.mergeAll ((a.entries.filter (·.1 == offset)).map (·.2))

def offsets (a : Annotations) : List Nat :=
  (a.entries.map (·.1)).mergeSort.eraseDups

end Annotations

end Recompose
