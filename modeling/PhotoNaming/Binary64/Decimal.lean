import PhotoNaming.Binary64.Basic
import PhotoNaming.Text.Blank
import PhotoNaming.Text.DecimalDigit

/-!
Reading binary64 numbers from decimal text.
-/

namespace PhotoNaming.Binary64

/-- The number nearest to `digits` times a power of ten. Exponents far outside the range are
answered without computing the power. -/
def ofDecimal (negative : Bool) (digits : Nat) (exponent : Int) : Binary64 :=
  let magnitude := (Text.ofNat digits).length + exponent
  if digits = 0 then finite negative 0
  else if 400 < magnitude then infinity negative
  else if magnitude < -400 then finite negative 0
  else
    match exponent with
    | .ofNat e => ofRatio negative (digits * Nat.pow 10 e) 1
    | .negSucc e => ofRatio negative digits (Nat.pow 10 (e + 1))

def signed : Text → Bool × Text
  | '-' :: rest => (true, rest)
  | '+' :: rest => (false, rest)
  | t => (false, t)

private def exponent? : Text → Option Int
  | [] => some 0
  | c :: rest =>
    let (negative, digits) := signed rest
    if (c = 'e' || c = 'E') && digits ≠ [] && digits.all (·.isDigit) then
      some (if negative then -(Text.digitsValue digits : Int) else Text.digitsValue digits)
    else none

private def unsigned? (negative : Bool) (t : Text) : Option Binary64 :=
  let (whole, rest) := t.span (·.isDigit)
  let (fraction, rest) := match rest with
    | '.' :: more => more.span (·.isDigit)
    | _ => ([], rest)
  if whole = [] ∧ fraction = [] then none
  else
    (exponent? rest).map fun e =>
      ofDecimal negative (Text.digitsValue (whole ++ fraction)) (e - fraction.length)

/-- Reads a number: blanks around it, a sign, a decimal numeral with `_` between digits, or
`inf`, `infinity` or `nan` in any case. -/
def ofText? (t : Text) : Option Binary64 := do
  let (negative, magnitude) := signed (← Text.withoutGroupMarks?
    (Text.trimmed Text.isWhite (Text.withPlainDigits t)))
  let name := magnitude.map Char.toLower
  if name = "inf".toList ∨ name = "infinity".toList then some (infinity negative)
  else if name = "nan".toList then some nan
  else unsigned? negative magnitude

/-- More digits of a numeral behind its point, if it has one. -/
inductive IsFraction : Text → Text → Prop
  | absent : IsFraction [] []
  | digits {fraction : Text} (h : ∀ c ∈ fraction, c.isDigit) : IsFraction ('.' :: fraction) fraction

inductive IsPower : Text → Int → Prop
  | absent : IsPower [] 0
  | plus {digits : Text} (hne : digits ≠ []) (h : ∀ c ∈ digits, c.isDigit) :
    IsPower ('e' :: '+' :: digits) (Text.digitsValue digits)
  | minus {digits : Text} (hne : digits ≠ []) (h : ∀ c ∈ digits, c.isDigit) :
    IsPower ('e' :: '-' :: digits) (-(Text.digitsValue digits : Int))

section Numerals

variable {t whole point fraction power : Text} {e : Int}

private theorem span_loop_cons (p : Char → Bool) (c : Char) (t before : Text) :
    List.span.loop p (c :: t) before =
      if p c then List.span.loop p t (c :: before) else (before.reverse, c :: t) := by
  change (match p c with | true => _ | false => _) = _
  cases p c <;> rfl

private theorem span_loop_digits {digits rest : Text} (h : ∀ c ∈ digits, c.isDigit)
    (hrest : ∀ c ∈ rest.head?, c.isDigit = false) (before : Text) :
    List.span.loop (·.isDigit) (digits ++ rest) before = (before.reverse ++ digits, rest) := by
  induction digits generalizing before with
  | nil =>
    rw [List.append_nil]
    cases rest with
    | nil => rfl
    | cons c rest => simp [span_loop_cons, hrest c rfl]
  | cons c digits ih =>
    rw [List.forall_mem_cons] at h
    simp [span_loop_cons, h.1, ih h.2]

private theorem span_digits {digits rest : Text} (h : ∀ c ∈ digits, c.isDigit)
    (hrest : ∀ c ∈ rest.head?, c.isDigit = false) :
    (digits ++ rest).span (·.isDigit) = (digits, rest) :=
  span_loop_digits h hrest []

private theorem exponent?_of_isPower (h : IsPower power e) : exponent? power = some e := by
  cases h with
  | absent => rfl
  | plus hne hd => simpa [exponent?, signed, hne] using hd
  | minus hne hd => simpa [exponent?, signed, hne] using hd

private theorem IsPower.head? (h : IsPower power e) {c : Char} (hc : c ∈ power.head?) : c = 'e' := by
  cases h with
  | absent => cases hc
  | plus | minus => exact (Option.some.inj hc).symm

private theorem unsigned?_of_isFraction {negative : Bool} (hw : ∀ c ∈ whole, c.isDigit) (hne : whole ≠ [])
    (hf : IsFraction point fraction) (hp : IsPower power e) :
    unsigned? negative (whole ++ (point ++ power)) =
      some (ofDecimal negative (Text.digitsValue (whole ++ fraction)) (e - fraction.length)) := by
  have hstop : ∀ c ∈ power.head?, c.isDigit = false := fun c hc => by
    rw [hp.head? hc]
    rfl
  have hpower := exponent?_of_isPower hp
  cases hf with
  | absent =>
    simp only [unsigned?, List.nil_append, span_digits hw hstop]
    split
    · exact absurd (hp.head? rfl) (by decide)
    · simp [hne, hpower]
  | digits hd =>
    have hdot : ∀ c ∈ ('.' :: (fraction ++ power)).head?, c.isDigit = false := fun c hc => by
      rw [← Option.some.inj hc]
      rfl
    simp only [unsigned?, List.cons_append, span_digits hw hdot, span_digits hd hstop]
    simp [hne, hpower]

private theorem toLower_of_isDigit {c : Char} (h : c.isDigit) : c.toLower = c := by
  have hr : c.toNat ≤ 57 := (Char.isDigit_iff_toNat.mp h).2
  refine dif_neg fun hc => ?_
  have hl : 65 ≤ c.toNat := UInt32.le_iff_toNat_le.mp hc.1
  omega

/-- A numeral in plain characters is read as its digits times its power of ten. -/
theorem ofText?_of_isFraction
    (ht : Text.withoutGroupMarks? (Text.trimmed Text.isWhite (Text.withPlainDigits t)) =
      some (whole ++ (point ++ power)))
    (hw : ∀ c ∈ whole, c.isDigit) (hne : whole ≠ []) (hf : IsFraction point fraction)
    (hp : IsPower power e) :
    ofText? t = some (ofDecimal false (Text.digitsValue (whole ++ fraction)) (e - fraction.length)) := by
  obtain ⟨c, rest, rfl⟩ := List.exists_cons_of_ne_nil hne
  have hc := hw c List.mem_cons_self
  have hsigned : signed (c :: rest ++ (point ++ power)) = (false, c :: rest ++ (point ++ power)) := by
    rw [List.cons_append]
    unfold signed
    split
    · rename_i heq
      rw [(List.cons.inj heq).1] at hc
      cases hc
    · rename_i heq
      rw [(List.cons.inj heq).1] at hc
      cases hc
    · rfl
  have hname {name : Text} (hn : (name.head?.map Char.isDigit) = some false) :
      (c :: rest ++ (point ++ power)).map Char.toLower ≠ name := fun heq => by
    rw [← heq, List.cons_append, List.map_cons, List.head?_cons, Option.map_some, toLower_of_isDigit hc,
      hc] at hn
    cases hn
  rw [ofText?, ht]
  simp only [Option.bind_eq_bind, Option.bind_some, hsigned]
  rw [if_neg (not_or.mpr ⟨hname rfl, hname rfl⟩), if_neg (hname rfl)]
  exact unsigned?_of_isFraction hw hne hf hp

end Numerals

end PhotoNaming.Binary64
