/- # The declaration file

Namespaces become nested blocks.  In the block of a namespace stand the members of the class that
documents it, then the blocks of the namespaces in it, then those of its classes; a class that
documents a namespace has no block of its own.  Private members are left out.

A table of the configuration that is at fault where a text needs it stops the rendering.
-/

import AmbientDecl.Model.Reference
import AmbientDecl.Output.Layout
import AmbientDecl.Output.Signature

namespace AmbientDecl
namespace Output

/-- The members of a class that are not private. -/
def publicMembers (c : Class) : List (String × Member) :=
  c.members.filter fun entry => !entry.2.isPrivate

/-- The texts for a member that a class has under a key. -/
def memberText (m : Model) (id : ClassId) (entry : String × Member) :
    Except ShapeFault MemberText := do
  let owner := m.classAt entry.2.owner
  let declarations ← Signature.declarations owner entry.2
  return ⟨id, entry.1, DocComment.ofMember? owner entry.2, declarations⟩

/-- The texts for the members of a class. -/
def memberTexts (m : Model) (id : ClassId) : Except ShapeFault (List MemberText) :=
  (publicMembers (m.classAt id)).mapM (memberText m id)

/-- A type that a class implements, as seen from the class. -/
def typeRef (m : Model) (base : String) : TypeRef → Except ShapeFault Json
  | .linked id => m.reference (m.fullName id) base
  | .named text => .ok (.str text)

/-- The generic parameters of a class. -/
def genericsClause (c : Class) : String :=
  if c.generics.isTruthy then "<" ++ c.generics.display ++ ">" else ""

/-- The parent of a class. -/
def extendsClause (m : Model) (c : Class) : Except ShapeFault String := do
  match c.parent? with
  | some parent => return " extends " ++ (← m.reference (m.fullName parent) c.fullName).display
  | none => return ""

/-- The types that a class implements. -/
def implementsClause (m : Model) (c : Class) : Except ShapeFault String := do
  if c.implemented = [] then return ""
  else
    let types ← c.implemented.mapM (typeRef m c.fullName)
    return " implements " ++ (← ShapeFault.required .unfit (Json.join? ", " types))

/-- The word for a class or for an extension of a class that the language defines. -/
def classWord (c : Class) : String :=
  if c.isBuiltIn then "interface" else "class"

/-- The declaration of a class, without its brace. -/
def classHeader (m : Model) (c : Class) : Except ShapeFault String := do
  let parent ← extendsClause m c
  let implemented ← implementsClause m c
  return classWord c ++ " " ++ c.name ++ genericsClause c ++ parent ++ implemented

/-- The block of a class. -/
def classBlock (m : Model) (id : ClassId) : Except ShapeFault ClassBlock := do
  let c := m.classAt id
  let header ← classHeader m c
  let members ← memberTexts m id
  return ⟨id, DocComment.ofClass? c, header, members⟩

/-- The numbers of the classes of a namespace, in the order of their registration. -/
def classIdsIn (m : Model) (path : List String) : List ClassId :=
  m.classIds.filter fun id => (m.classAt id).slot.home == path

/-- The classes of a namespace, in the order of their registration. -/
def classesIn (m : Model) (path : List String) : List Class :=
  (classIdsIn m path).map m.classAt

/-- The blocks of the classes of a namespace. -/
def classBlocks (m : Model) (path : List String) : Except ShapeFault (List ClassBlock) :=
  ((classIdsIn m path).filter fun id => !(m.classAt id).isPlainNamespace).mapM (classBlock m)

/-- The texts for the members of the class that documents the child `name` of a namespace. -/
def documentedTexts (m : Model) (path : List String) (name : String) :
    Except ShapeFault (List MemberText) :=
  match m.inSlot? ⟨path, name⟩ with
  | none => .ok []
  | some id => if (m.classAt id).isTrueClass then .ok [] else memberTexts m id

/-- The blocks of the namespaces of a forest below the namespace with a path. -/
def namespaceBlocks (m : Model) (path : List String) : Forest → Except ShapeFault NamespaceBlocks
  | .nil => .ok .nil
  | .node name children rest => do
    let members ← documentedTexts m path name
    let inner ← namespaceBlocks m (path ++ [name]) children
    let classes ← classBlocks m (path ++ [name])
    let siblings ← namespaceBlocks m path rest
    return .block name members inner classes siblings

/-- What stands in the declaration file of a model. -/
def layout (m : Model) : Except ShapeFault Layout := do
  let namespaces ← namespaceBlocks m [] m.tree
  let classes ← classBlocks m []
  return ⟨namespaces, classes, m.settings.exportName⟩

/-- The declaration file of a model. -/
def render (m : Model) : Except ShapeFault String := do
  return (← layout m).print

end Output
end AmbientDecl
