/-!
# Names with numbers

A supply of names counts how often every name has been asked for.  The first request for a name gets the
name itself, the others get it with a number.
-/

namespace FlowCompiler

/-- How often every name has been asked for. -/
structure NameSupply where
  counts : List (String × Nat) := []
deriving Inhabited

namespace NameSupply

def count (s : NameSupply) (base : String) : Nat := (s.counts.lookup base).getD 0

/-- The name that the `n`-th further request for a base gets. -/
def numbered (base : String) (n : Nat) : String := if n = 0 then base else s!"{base}_{n}"

/-- A name: the base itself the first time, then with a number. -/
def fresh (s : NameSupply) (base : String) : String × NameSupply :=
  let n := s.count base
  (numbered base n, { counts := (base, n + 1) :: s.counts.filter (·.1 ≠ base) })

end NameSupply
end FlowCompiler
