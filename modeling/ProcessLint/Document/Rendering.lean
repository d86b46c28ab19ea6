import ProcessLint.Document.Basic
import ProcessLint.Number.Numeral
import ProcessLint.Text.Blank

/-! Definitions written out as text, line by line. -/
namespace ProcessLint

def indentLine (line : String) : String := "    " ++ line

def commaList (words : List String) : String := ", ".intercalate words

@[simp] theorem commaList_nil : commaList [] = "" := rfl

@[simp] theorem commaList_singleton (w : String) : commaList [w] = w :=
  String.intercalate_singleton

theorem commaList_cons_cons (w v : String) (ws : List String) :
    commaList (w :: v :: ws) = w ++ ", " ++ commaList (v :: ws) := String.intercalate_cons_cons

/-- Something with its attributes in parentheses behind it, if it has any. -/
def withAttributes (head : String) (attributes : List String) : String :=
  if attributes.isEmpty then head else head ++ " (" ++ commaList attributes ++ ")"

namespace Field

def attributes (f : Field) : List String :=
  (f.min.toList.map fun x => "min=" ++ x.plainText) ++
    (f.max.toList.map fun x => "max=" ++ x.plainText) ++
    (f.values.toList.map fun vs => "values=[" ++ commaList vs ++ "]") ++ f.attrs

def line (f : Field) : String := withAttributes (f.name ++ ": " ++ f.type) f.attributes

end Field

namespace Property

def attributes (p : Property) : List String :=
  (p.values.toList.map fun vs => "values: [" ++ commaList vs ++ "]") ++
    (p.default.toList.map fun d => "default: " ++ d)

def line (p : Property) : String := withAttributes (p.name ++ ": " ++ p.type) p.attributes

end Property

def dashed (line : String) : String :=
  match Text.trim line.toList with
  | '-' :: r => .ofList ('-' :: r)
  | cs => "- " ++ .ofList cs

/-- A labelled list of dashed lines; an empty list leaves nothing. -/
def labelled (label : String) (lines : List String) : List String :=
  if lines.isEmpty then [] else (label ++ ":") :: lines.map fun l => indentLine (dashed l)

def block (head : String) (body : List String) : List String :=
  (head ++ " \x7b") :: body.map indentLine ++ ["\x7d"]

namespace Step

def lines (s : Step) : List String :=
  block ("Step " ++ s.name) <|
    labelled "Input" s.inputs ++ labelled "Validation" s.validations ++
      labelled "Action" s.actions ++ labelled "OnError" s.onError ++ labelled "Output" s.outputs

end Step

namespace Process

mutual

def lines : Process → List String
  | ⟨name, actors, steps, actions, processes⟩ =>
    block ("Process " ++ name) <|
      ("Actors: [" ++ commaList actors ++ "]") :: steps.flatMap Step.lines ++
        labelled "Action" actions ++ allLines processes

def allLines : List Process → List String
  | [] => []
  | p :: ps => lines p ++ allLines ps

end

end Process

namespace Item

def lines : Item → List String
  | .dataObject d =>
    block ("DataObject " ++ d.name) ("Schema:" :: d.fields.map fun f => indentLine f.line)
  | .entity e =>
    block ("Entity " ++ e.name) <|
      ("dataRef: " ++ e.dataRef) ::
        if e.properties.isEmpty then []
        else "Properties:" :: e.properties.map fun p => indentLine p.line
  | .asset a => ["ITAsset " ++ a.name ++ " \x7b \x7d"]
  | .relationship r =>
    block ("Relationship " ++ r.name)
      ["From: " ++ r.source, "To: " ++ r.target, "Type: " ++ r.type]
  | .process p => p.lines
  | .rule r =>
    block ("Rule " ++ r.name)
      ["Description: \"" ++ r.description ++ "\"", "Trigger: " ++ r.trigger]
  | .report r => block ("Report " ++ r.name) ["Query: " ++ r.query]

end Item

namespace Document

/-- The lines of all declarations, an empty line between one and the next. -/
def lines (d : Document) : List String := [""].intercalate (d.items.map Item.lines)

/-- The definition written out, every line with its end. -/
def rendering (d : Document) : String := String.join (d.lines.map fun l => l ++ "\n")

/-- The text of a definition: as it was kept, or else written out. -/
def text (d : Document) : String := d.source.getD d.rendering

end Document
end ProcessLint
