import PhotoNaming.Text.Printable
import PhotoNaming.Text.Basic

/-!
Texts between quotes, as error messages and lists show them.
-/

namespace PhotoNaming.Text

private def hexDigits (count n : Nat) : Text := (Nat.toDigits 16 n).leftpad count '0'

private def escaped (c : Char) : Text :=
  if c.toNat ≤ 0xFF then ['\\', 'x'] ++ hexDigits 2 c.toNat
  else if c.toNat ≤ 0xFFFF then ['\\', 'u'] ++ hexDigits 4 c.toNat
  else ['\\', 'U'] ++ hexDigits 8 c.toNat

private def quotedChar (quote c : Char) : Text :=
  if c = quote || c = '\\' then ['\\', c]
  else if c = '\n' then ['\\', 'n']
  else if c = '\r' then ['\\', 'r']
  else if c = '\t' then ['\\', 't']
  else if isPrintable c then [c]
  else escaped c

/-- Double quotes are taken only for a text with a single quote and no double one. -/
private def quoteFor (t : Text) : Char :=
  if t.contains '\'' && !t.contains '"' then '"' else '\''

def quoted (t : Text) : Text := quoteFor t :: t.flatMap (quotedChar (quoteFor t)) ++ [quoteFor t]

end PhotoNaming.Text
