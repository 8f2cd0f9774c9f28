import PhotoNaming.Record.Basic
import PhotoNaming.Journal

/-!
Tallies: how often each reported text of each property occurs among records.
-/

namespace PhotoNaming

structure Report where
  code : Text
  raw : Text
  deriving DecidableEq

/-- How many records are counted, and how often each report was seen, in the order in which they
were first seen. -/
structure Tally where
  records : Nat
  counts : List (Report × Nat)

structure TallyRow where
  code : Text
  name : Text
  raw : Text
  count : Nat
  deriving DecidableEq

def TallyRow.line (row : TallyRow) : Text :=
  row.name ++ '\t' :: row.raw ++ '\t' :: Text.ofNat row.count

namespace Tally

def empty : Tally := ⟨0, []⟩

/-- Adds to the count of one report, which is begun at the end if it is new. -/
def added (counts : List (Report × Nat)) (report : Report) (n : Nat) : List (Report × Nat) :=
  if counts.any (·.1 = report) then
    counts.map fun (other, m) => if other = report then (other, m + n) else (other, m)
  else counts ++ [(report, n)]

def reports (catalog : Catalog) (r : Record) : List Report :=
  (r.properties.filter (!catalog.isExcluded ·.code)).map fun p => ⟨p.code, p.raw⟩

def count (catalog : Catalog) (tally : Tally) (r : Record) : Tally where
  records := tally.records + 1
  counts := (reports catalog r).foldl (added · · 1) tally.counts

def merge (tally other : Tally) : Tally where
  records := tally.records + other.records
  counts := other.counts.foldl (fun counts (report, n) => added counts report n) tally.counts

def countOf (tally : Tally) (report : Report) : Nat :=
  ((tally.counts.find? (·.1 = report)).map (·.2)).getD 0

def codes (tally : Tally) : List Text := (tally.counts.map (·.1.code)).eraseDups

def nameOf (catalog : Catalog) (code : Text) : Text :=
  match catalog.byCode? code with
  | some d => d.name
  | none => code

def row (catalog : Catalog) (report : Report) (n : Nat) : TallyRow :=
  ⟨report.code, nameOf catalog report.code, report.raw, n⟩

def rows (catalog : Catalog) (tally : Tally) : List TallyRow :=
  tally.counts.map fun (report, n) => row catalog report n

/-- The rows by falling count; equal counts go by code, and within a code by first sight. -/
def ranking (catalog : Catalog) (tally : Tally) : List TallyRow :=
  (tally.rows catalog).mergeSort fun a b =>
    decide (b.count < a.count) || (a.count = b.count && decide (¬ b.code < a.code))

def topSize : Nat := 10

/-- The first rows of the ranking; a negative limit leaves out that many at the end. -/
def top (catalog : Catalog) (tally : Tally) : Int → List TallyRow
  | .ofNat limit => (tally.ranking catalog).take limit
  | .negSucc n => (tally.ranking catalog).take ((tally.ranking catalog).length - (n + 1))

def repeated (catalog : Catalog) (tally : Tally) (code : Text) : List TallyRow :=
  (((tally.rows catalog).filter (·.code = code)).mergeSort fun a b => decide (¬ b.raw < a.raw)).filter
    (1 < ·.count)

/-- The rows with a count above one, code by code in the order of the display names. -/
def listing (catalog : Catalog) (tally : Tally) : List TallyRow :=
  (tally.codes.mergeSort fun a b => decide (¬ nameOf catalog b < nameOf catalog a)).flatMap
    (tally.repeated catalog)

private def divider : Text := "========="

private def heading : Text := "Property\tValue\tCount"

/-- The ten rows at the top, and then the listing. -/
def report (catalog : Catalog) (tally : Tally) : Text :=
  Text.joinWith ['\n']
    (["Top ".toList ++ Text.ofNat topSize ++ [':'], divider, heading] ++
      (tally.top catalog topSize).map (·.line) ++
      [divider, "Statistics:", divider, heading] ++ (tally.listing catalog).map (·.line)) ++ ['\n']

def reportEntry (tally : Tally) : Journal.Entry :=
  ⟨.debug, .statistics, "Statistics report over ".toList ++ Text.ofNat tally.records ++
    " records, ".toList ++ Text.ofNat tally.codes.length ++ " properties".toList⟩

end Tally

end PhotoNaming
