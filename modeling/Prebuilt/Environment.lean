import Prebuilt.Bytes

/-!
# Environment variables

A program sees its environment as a finite map from names to values. A
variable may be set to the empty value, which most readers here treat
like an unset one (`valueOf`); `get?` still tells the two apart.
-/

namespace Prebuilt

abbrev Environment := List (Bytes × Bytes)

namespace Environment

def get? : Environment → Bytes → Option Bytes
  | [], _ => none
  | (k, v) :: rest, name => if k = name then some v else get? rest name

/-- The value of a variable, empty if it is unset. -/
def valueOf (env : Environment) (name : Bytes) : Bytes := (env.get? name).getD []

def unset (env : Environment) (name : Bytes) : Environment :=
  env.filter fun e => e.1 ≠ name

def set (env : Environment) (name value : Bytes) : Environment :=
  (name, value) :: env.unset name

end Environment

end Prebuilt
