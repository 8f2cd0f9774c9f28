import PhotoNaming.Binary64.Decimal

/-!
Writing binary64 numbers with the fewest digits that read back as the same number.
-/

namespace PhotoNaming.Binary64

structure Numeral where
  digits : Nat
  exponent : Int

namespace Numeral

/-- `a / b` as numerator and denominator of `num / den` divided by ten to the `exponent`. -/
private def overPowerOfTen (num den : Nat) : Int → Nat × Nat
  | .ofNat e => (num, den * Nat.pow 10 e)
  | .negSucc e => (num * Nat.pow 10 (e + 1), den)

def readsBack (units : Nat) (n : Numeral) : Bool :=
  ofDecimal false n.digits n.exponent == finite false units

/-- The two numerals with the given exponent on either side of `units`, the nearer one first. At
equal distance the even one is the nearer. -/
def neighbours (units : Nat) (exponent : Int) : List Numeral :=
  let (num, den) := overPowerOfTen units one exponent
  let low : Numeral := ⟨num / den, exponent⟩
  let high : Numeral := ⟨num / den + 1, exponent⟩
  if roundedQuotient num den = num / den then [low, high] else [high, low]

def leadingExponent (units : Nat) : Int :=
  (Text.ofNat (units * Nat.pow 10 330 / one)).length - 331

def exact (units : Nat) : Numeral := ⟨units * Nat.pow 5 1074, -1074⟩

/-- The numeral of at most seventeen digits with the fewest of them that reads back as `units`, and
of several such the nearest. -/
def shortest (units : Nat) : Numeral :=
  (((List.range 17).flatMap fun (behind : Nat) =>
    neighbours units (leadingExponent units - behind)).find?
    (readsBack units)).getD (exact units)

end Numeral

/-- Numbers from ten to the `positionalFrom` up to ten to the `positionalTo` are written without a
power of ten. -/
def positionalFrom : Int := -4

def positionalTo : Int := 16

private def exponentText (e : Int) : Text :=
  ['e', if e < 0 then '-' else '+'] ++ Text.zeroPadded 2 e.natAbs

/-- Writes digits whose first one has the given power of ten. -/
def layout (digits : Text) (leading : Int) : Text :=
  if leading < positionalFrom ∨ positionalTo ≤ leading then
    match digits with
    | [] => []
    | [d] => d :: exponentText leading
    | d :: rest => d :: '.' :: rest ++ exponentText leading
  else if leading < 0 then
    ['0', '.'] ++ List.replicate (leading.natAbs - 1) '0' ++ digits
  else
    let whole := leading.toNat + 1
    if digits.length ≤ whole then digits.rightpad whole '0' ++ ['.', '0']
    else digits.take whole ++ '.' :: digits.drop whole

private def magnitudeText (units : Nat) : Text :=
  if units = 0 then ['0', '.', '0']
  else
    let n := Numeral.shortest units
    let digits := Text.ofNat n.digits
    layout (digits.reverse.dropWhile (· = '0')).reverse (digits.length - 1 + n.exponent)

private def signText (negative : Bool) : Text := if negative then ['-'] else []

def text : Binary64 → Text
  | nan => "nan".toList
  | infinity negative => signText negative ++ "inf".toList
  | finite negative units => signText negative ++ magnitudeText units

/-- The shortest text, but a number without fraction is written as an integer. -/
def numberText (x : Binary64) : Text :=
  match x.toInt? with
  | some n => Text.ofInt n
  | none => x.text

theorem layout_of_scientific {leading : Int} (h : leading < positionalFrom ∨ positionalTo ≤ leading)
    (d : Char) (rest : Text) :
    layout (d :: rest) leading = [d] ++ ((if rest = [] then [] else '.' :: rest) ++
      'e' :: (if leading < 0 then '-' else '+') :: Text.zeroPadded 2 leading.natAbs) := by
  unfold layout
  rw [if_pos h]
  cases rest with
  | nil => rfl
  | cons next rest => rfl

theorem text_finite {units : Nat} (h : units ≠ 0) :
    (finite false units).text =
      layout ((Text.ofNat (Numeral.shortest units).digits).reverse.dropWhile (· = '0')).reverse
        ((Text.ofNat (Numeral.shortest units).digits).length - 1 + (Numeral.shortest units).exponent) := by
  rw [text, magnitudeText, if_neg h, signText, if_neg Bool.false_ne_true, List.nil_append]

end PhotoNaming.Binary64
