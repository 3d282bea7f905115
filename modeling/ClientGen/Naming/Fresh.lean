/-!
# Fresh names

The first name of a numbered sequence that is not taken yet. The sequences used have no repetitions, so
as many steps as there are taken names always reach a free one.
-/

namespace ClientGen.Naming

/-- The first number from `n` on whose candidate is free, looking at most `bound` numbers ahead. -/
def firstFree (isTaken : String → Bool) (candidate : Nat → String) : (bound : Nat) → (n : Nat) → Nat
  | 0, n => n
  | bound + 1, n => if isTaken (candidate n) then firstFree isTaken candidate bound (n + 1) else n

/-- The first candidate from number `n` on that is not among the taken names. -/
def fresh (taken : List String) (candidate : Nat → String) (n : Nat) : String :=
  candidate (firstFree taken.contains candidate taken.length n)

/-- The name itself as number 1, and the name with a number after it from 2 on. -/
def numbered (base mark : String) (n : Nat) : String :=
  if n ≤ 1 then base else base ++ mark ++ toString n

/-- The name followed by underscores. -/
def underscored (base : String) (n : Nat) : String := base ++ .ofList (List.replicate n '_')

end ClientGen.Naming
