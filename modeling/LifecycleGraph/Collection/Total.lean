/-!
# Totals

The total of a number that each member of a list has, as it is used for sizes
and widths.
-/

set_option autoImplicit false

namespace LifecycleGraph

variable {α : Type}

def total (measure : α → Nat) : List α → Nat
  | [] => 0
  | member :: rest => measure member + total measure rest

end LifecycleGraph
