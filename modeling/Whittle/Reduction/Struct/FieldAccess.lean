import Whittle.Check.Log

namespace Whittle
namespace Reduction

/-!
# Accesses to fields

An access to a field is a member of an expression of struct type.  Which struct
it is, the type table knows; where no types are at hand, the name of a variable
has to do.
-/

def accessesField (types : TypeTable) (struct field : String) : Expr → Bool
  | .member _ base name => types[base.id]? == some (.struct struct) && name == field
  | _ => false

def projectsField (types : TypeTable) (struct field : String) : Expr → Bool
  | .member _ base _ => accessesField types struct field base
  | _ => false

def isMemberOf (varName member : String) : Expr → Bool
  | .member _ base name => base.varName? == some varName && name == member
  | _ => false

end Reduction
end Whittle
