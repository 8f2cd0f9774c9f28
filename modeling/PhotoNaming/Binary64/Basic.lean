/-!
Binary64 numbers, held exactly, with the one rounding that all arithmetic on them goes through.
-/

namespace PhotoNaming

/-- A binary64 number. A finite one is a whole multiple of the least positive one, 2^-1074, and is
kept as its sign and that multiple. -/
inductive Binary64
  | nan
  | infinity (negative : Bool)
  | finite (negative : Bool) (units : Nat)
  deriving DecidableEq

namespace Binary64

/-- The number of units in one. -/
def one : Nat := Nat.pow 2 1074

def limit : Nat := Nat.pow 2 2098

/-- The quotient rounded to the nearest whole number, a half going to the even neighbour. -/
def roundedQuotient (num den : Nat) : Nat :=
  let low := num / den
  let rest := num % den
  if 2 * rest < den ∨ (2 * rest = den ∧ low % 2 = 0) then low else low + 1

/-- The distance between neighbouring binary64 numbers near `units`: 53 binary digits are kept. -/
def spacing (units : Nat) : Nat := Nat.pow 2 (units.log2 - 52)

def nearestUnits (num den : Nat) : Nat :=
  let step := spacing (num / den)
  roundedQuotient num (den * step) * step

/-- The number nearest to `num / den` units with the given sign; infinite when that is too large. -/
def ofUnits (negative : Bool) (num den : Nat) : Binary64 :=
  if nearestUnits num den < limit then finite negative (nearestUnits num den)
  else infinity negative

def ofRatio (negative : Bool) (num den : Nat) : Binary64 := ofUnits negative (num * one) den

def isNegative : Binary64 → Bool
  | nan => false
  | infinity negative => negative
  | finite negative _ => negative

def finite? : Binary64 → Option Binary64
  | finite negative units => some (finite negative units)
  | _ => none

def ofInt? (n : Int) : Option Binary64 := finite? (ofRatio (decide (n < 0)) n.natAbs 1)

def ofQuotient (num : Int) (den : Nat) : Binary64 := ofRatio (decide (num < 0)) num.natAbs den

def div? : Binary64 → Binary64 → Option Binary64
  | _, finite _ 0 => none
  | nan, _ => some nan
  | _, nan => some nan
  | infinity _, infinity _ => some nan
  | infinity a, finite b _ => some (infinity (a != b))
  | finite a _, infinity b => some (finite (a != b) 0)
  | finite a m, finite b n => some (ofRatio (a != b) m n)

def toInt? : Binary64 → Option Int
  | finite negative units =>
    if units % one = 0 then some (if negative then -(units / one : Nat) else (units / one : Nat))
    else none
  | _ => none

/-- The whole number that a positive number holds; zero for all others. -/
def wholePart : Binary64 → Nat
  | finite false units => units / one
  | _ => 0

/-- Where a number stands on the extended line: infinities beside all multiples of a unit. -/
structure Position where
  level : Int
  units : Int
  deriving DecidableEq

namespace Position

def Before (a b : Position) : Prop := a.level < b.level ∨ (a.level = b.level ∧ a.units < b.units)

instance (a b : Position) : Decidable (a.Before b) := by
  unfold Before
  infer_instance

def ofInt (n : Int) : Position := ⟨0, n * (one : Nat)⟩

end Position

def position? : Binary64 → Option Position
  | nan => none
  | infinity negative => some ⟨if negative then -1 else 1, 0⟩
  | finite negative units => some ⟨0, if negative then -units else units⟩

end Binary64

end PhotoNaming
