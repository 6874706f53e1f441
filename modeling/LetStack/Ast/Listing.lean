import LetStack.Ast.Outline
import LetStack.Token.Listing

/-!
Listings of syntax trees: drawn with branches for people, and JSON.
-/

namespace LetStack.Ast

/-- Where something lies: lines and columns if the file is known, else the range of bytes. -/
def placeText (fs? : Option FileSet) (file : FileId) (s : Span) : Bytes :=
  if s.isEmpty then "empty"
  else
    match fs? with
    | some fs =>
      if (fs.get? file).isSome then
        let (start, stop) := fs.resolve file s
        start.renderRange stop
      else "span(" ++ Bytes.ofWord s.start ++ "-" ++ Bytes.ofWord s.stop ++ ")"
    | none => "span(" ++ Bytes.ofWord s.start ++ "-" ++ Bytes.ofWord s.stop ++ ")"

namespace Outline

def headline (fs? : Option FileSet) (file : FileId) (o : Outline) : Bytes :=
  let quoted : Bytes := if o.text = [] then [] else " " ++ Text.quote o.text
  o.label ++ quoted ++ " (" ++ placeText fs? file o.span ++ ")\n"

mutual

/-- The lines of an entry behind its branch; `indent` stands before the branches of its parts. -/
def drawn (fs? : Option FileSet) (file : FileId) (branch indent : Bytes) : Outline → List Bytes
  | o@⟨_, _, _, _, children⟩ => (branch ++ o.headline fs? file) :: drawnAll fs? file indent children

/-- The lines of entries below one another; the last one closes the line of branches. -/
def drawnAll (fs? : Option FileSet) (file : FileId) (indent : Bytes) : List Outline → List Bytes
  | [] => []
  | [o] => o.drawn fs? file (indent ++ "└─ ") (indent ++ "   ")
  | o :: rest => o.drawn fs? file (indent ++ "├─ ") (indent ++ "│  ") ++ drawnAll fs? file indent rest

end

def listing (fs? : Option FileSet) (file : FileId) (o : Outline) : Bytes := (o.drawn fs? file [] []).flatten

mutual

def toJson : Outline → Json.Value
  | ⟨type, kind, text, span, children⟩ =>
    .record (Json.field "type" (.text type) ++ Json.fieldUnless (kind.isEmpty) "kind" (.text kind) ++
      Json.field "span" span.toJson ++ Json.fieldUnless (text.isEmpty) "text" (.text text) ++
      Json.fieldUnless children.isEmpty "children" (.list (allToJson children)))

def allToJson : List Outline → List Json.Value
  | [] => []
  | o :: rest => o.toJson :: allToJson rest

end

def document (o : Outline) : Bytes := o.toJson.document

end Outline

end LetStack.Ast
