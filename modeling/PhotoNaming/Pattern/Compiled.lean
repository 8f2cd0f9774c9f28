import PhotoNaming.Pattern.Basic
import PhotoNaming.Record.Basic
import PhotoNaming.Timestamp.Format
import PhotoNaming.Journal
import PhotoNaming.Text.Blank

/-!
Patterns ready for use: filling them in for a record, and reporting codes that no property has.
-/

namespace PhotoNaming

/-- The text of a segment for a record. A date that is not there, or is no date, is empty. -/
def Segment.render (r : Record) : Segment → Text
  | .literal t => t
  | .field code => r.fileText code
  | .date code pattern =>
    match (r.property? code).map Property.value with
    | some (Value.timestamp t) => t.format pattern
    | _ => []

structure Pattern where
  source : Text
  segments : List Segment
  deriving DecidableEq

namespace Pattern

def compile (source : Text) : Pattern := ⟨source, Segment.ofPattern dateCode source⟩

def render (p : Pattern) (r : Record) : Text := p.segments.flatMap (Segment.render r)

def codes (p : Pattern) : List Text := p.segments.filterMap Segment.code?

def text (p : Pattern) : Text := "CompiledPattern(".toList ++ Text.quoted p.source ++ [')']

/-- One warning for each field whose code is not in the catalog. -/
def warnings (p : Pattern) (catalog : Catalog) : List Journal.Entry :=
  (p.codes.filter (!catalog.contains ·)).map fun code =>
    ⟨.warning, .pattern, "Pattern ".toList ++ Text.quoted p.source ++ ": unknown code $".toList ++
      code ++ " will render empty".toList⟩

/-- One pattern for each directory level of a text with `;` between levels; a blank text has no
level. -/
def compileLevels (text : Text) : List Pattern :=
  if Text.stripped text = [] then [] else (text.splitOn ';').map compile

end Pattern

end PhotoNaming
