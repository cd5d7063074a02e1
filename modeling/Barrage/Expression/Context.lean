import Barrage.Expression.Basic
import Barrage.Journal.Basic
import Barrage.Random.Source

/-!
Contexts for expressions on their own: parameters, a difficulty, a random source and a journal.
-/

set_option autoImplicit false

namespace Barrage

def Journal.unbound (index : Nat) (j : Journal) : Journal :=
  j.debug "Unbound parameter read as 0" fun _ => [("index", toString index)]

structure Context (F : Type) where
  params : List F
  rank : F
  random : RandomSource F
  journal : Journal := {}

namespace Context

variable {F : Type} [Scalar F]

/-- The value of a parameter, counted from one. -/
def param? (c : Context F) (index : Nat) : Option F :=
  if index = 0 then none else c.params[index - 1]?

def reading (c : Context F) : Reading F (Context F) where
  param? := c.param?
  rank c := c.rank
  random c := let (x, random) := c.random.next; (x, { c with random })
  unbound index c := { c with journal := c.journal.unbound index }

end Context

end Barrage
