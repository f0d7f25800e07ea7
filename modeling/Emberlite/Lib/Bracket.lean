import Mathlib.Data.Fintype.EquivFin
import Mathlib.Data.Nat.Find

/-! Calls that take something out of a state and calls that give it back, where taking may fail. -/

namespace Bracket
variable {S E K H : Type}

/-- What is taken first is given back where the rest fails. -/
def guarded (acquire : S → Except E K × S) (release : K → S → S) (rest : K → Except E H) (s : S) : Except E H × S :=
  match acquire s with
  | (.error e, t) => (.error e, t)
  | (.ok k, t) =>
    match rest k with
    | .error e => (.error e, release k t)
    | .ok h => (.ok h, t)

variable {acquire : S → Except E H × S} {release : H → S → S} {s t : S}

/-- The lowest number that is not in use. -/
def lowestFree (used : Finset Nat) : Nat := Nat.find (Infinite.exists_notMem_finset used)

theorem lowestFree_notMem (used : Finset Nat) : lowestFree used ∉ used :=
  Nat.find_spec (Infinite.exists_notMem_finset used)

end Bracket
