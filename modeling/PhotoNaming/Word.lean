/-!
Signed machine words: the integers that some number of binary digits and a sign can hold.
-/

namespace PhotoNaming.Word

/-- The least integer that is too large for a sign and `bits` binary digits. -/
def bound (bits : Nat) : Int := Nat.pow 2 bits

def Fits (bits : Nat) (n : Int) : Prop := -bound bits ≤ n ∧ n < bound bits

instance (bits : Nat) (n : Int) : Decidable (Fits bits n) := by
  unfold Fits
  infer_instance

end PhotoNaming.Word
