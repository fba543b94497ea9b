/- # Labels

Short texts that name a namespace, a class, a member or a parameter, for listings.
-/

import AmbientDecl.Model.Basic
import AmbientDecl.Text.Quoted

namespace AmbientDecl
namespace Label

/-- The label of the namespace with a path. -/
def ofPath (path : List String) : String :=
  "Namespace(" ++ Text.quoted (Dotted.join path) ++ ")"

/-- The label of a class. -/
def ofClass (c : Class) : String :=
  "Klass(" ++ Text.quoted c.fullName ++ ")"

/-- The label of a member of a class. -/
def ofMember (owner : Class) (member : Member) : String :=
  "Member(" ++ owner.fullName ++ "#" ++ member.key ++ ")"

/-- The label of a parameter. -/
def ofParam (param : Param) : String :=
  "Param(" ++ (if param.isRest then "..." else "") ++ param.name.display ++ ": " ++
    param.type.display ++ ")"

end Label
end AmbientDecl
