import PhotoNaming.Setting.Basic
import PhotoNaming.Binary64.Decimal

/-!
What an unquoted word of a YAML text stands for: nothing, a flag, a number or itself.
-/

namespace PhotoNaming.Yaml

private def isDigitOrMark (c : Char) : Bool := c.isDigit || c = '_'

private def isNumeral (t : Text) : Bool :=
  match t with
  | c :: rest => c.isDigit && rest.all isDigitOrMark
  | [] => false

private def withoutMarks (t : Text) : Text := t.filter (· ≠ '_')

private def digitValue? (base : Nat) (c : Char) : Option Nat :=
  let value :=
    if c.isDigit then c.toNat - '0'.toNat
    else if 'a' ≤ c ∧ c ≤ 'f' then c.toNat - 'a'.toNat + 10
    else if 'A' ≤ c ∧ c ≤ 'F' then c.toNat - 'A'.toNat + 10
    else base
  if value < base then some value else none

/-- The number that digits and group marks denote; there has to be a digit. -/
private def natural? (base : Nat) (t : Text) : Option Nat :=
  match withoutMarks t with
  | [] => none
  | digits => digits.foldlM (fun n c => (digitValue? base c).map (n * base + ·)) 0

/-- A part of a clock reading that is not the first: below sixty, in one or two digits. -/
private def sixtieth? (t : Text) : Option Nat :=
  match t with
  | [c] => digitValue? 10 c
  | [c, d] => do
    let tens ← digitValue? 6 c
    return tens * 10 + (← digitValue? 10 d)
  | _ => none

/-- The number of a clock reading: numerals between colons, each part counting sixty times the
next. -/
private def clock? (parts : List Text) : Option Nat :=
  match parts with
  | first :: second :: rest => do
    if isNumeral first then
      let start ← natural? 10 first
      (second :: rest).foldlM (fun n part => (sixtieth? part).map (n * 60 + ·)) start
    else none
  | _ => none

/-- An integer without its sign: binary behind `0b`, hexadecimal behind `0x`, octal behind `0`, and
decimal or a clock reading otherwise. -/
private def magnitude? : Text → Option Nat
  | ['0'] => some 0
  | '0' :: 'b' :: digits => natural? 2 digits
  | '0' :: 'x' :: digits => natural? 16 digits
  | '0' :: rest => natural? 8 ('0' :: rest)
  | t => if isNumeral t then natural? 10 t else clock? (t.splitOn ':')

def integer? (t : Text) : Option Int :=
  let (negative, magnitude) := Binary64.signed t
  (magnitude? magnitude).map fun n => if negative then -(n : Int) else n

private def isExponent : Text → Bool
  | [] => true
  | e :: sign :: digits =>
    (e = 'e' || e = 'E') && (sign = '+' || sign = '-') && digits ≠ [] && digits.all (·.isDigit)
  | _ => false

/-- Digits with a point among or before them and maybe an exponent. Only digits that start the
number may have a sign before them. -/
private def isDecimal (t : Text) : Bool :=
  let (whole, rest) := (Binary64.signed t).2.span isDigitOrMark
  match rest with
  | '.' :: more =>
    let (fraction, exponent) := more.span isDigitOrMark
    isExponent exponent &&
      (isNumeral whole || (whole = [] && isNumeral fraction && t.head? = some '.'))
  | _ => false

private def clockReal? (t : Text) : Option Binary64 :=
  let (negative, magnitude) := Binary64.signed t
  let (clock, rest) := magnitude.span (· ≠ '.')
  match rest with
  | '.' :: fraction =>
    if fraction.all isDigitOrMark then
      let digits := withoutMarks fraction
      (clock? (clock.splitOn ':')).map fun n =>
        Binary64.ofDecimal negative (n * Nat.pow 10 digits.length + Text.digitsValue digits)
          (-(digits.length : Int))
    else none
  | _ => none

private def named? (t : Text) : Option Binary64 :=
  let (negative, magnitude) := Binary64.signed t
  if [".inf".toList, ".Inf".toList, ".INF".toList].contains magnitude then some (.infinity negative)
  else if [".nan".toList, ".NaN".toList, ".NAN".toList].contains t then some .nan
  else none

def real? (t : Text) : Option Binary64 :=
  if isDecimal t then Binary64.ofText? (withoutMarks t) else (clockReal? t).or (named? t)

private def spellings (word : Text) : List Text :=
  [word, word.map Char.toUpper,
    match word with
    | c :: rest => c.toUpper :: rest
    | [] => []]

private def isWord (words : List String) (t : Text) : Bool :=
  words.any fun word => (spellings word.toList).contains t

/-- Words that stand for something that plain settings cannot hold. -/
private def isReserved (t : Text) : Bool := t = ['='] || t = ['<', '<']

/-- The setting that an unquoted word is. -/
def plain? (t : Text) : Option Plain :=
  if t = [] ∨ t = ['~'] ∨ isWord ["null"] t then some .nothing
  else if isWord ["yes", "true", "on"] t then some (.flag true)
  else if isWord ["no", "false", "off"] t then some (.flag false)
  else if isReserved t then none
  else
    match integer? t, real? t with
    | some n, _ => some (.number (.integer n))
    | none, some x => some (.number (.binary x))
    | none, none => some (.text t)

end PhotoNaming.Yaml
