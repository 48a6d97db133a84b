/-!
# Powers and sums

Powers and sums of numbers are the core ones, so that a definition means the same whether or not
the algebra is known in which they are instances of others.
-/

namespace TreeCursor

instance (priority := 2000) natPow : Pow Nat Nat := instPowNat

instance (priority := 2000) natZero : Zero Nat := Zero.ofOfNat0

attribute [default_instance 20000] instPowNat
attribute [default_instance 30000] natPow

end TreeCursor
