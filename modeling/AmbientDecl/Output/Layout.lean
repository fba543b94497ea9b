/- # The layout of the declaration file

What stands in the file and where, before it is written as lines.  A namespace is a block that
holds members, the blocks of the namespaces in it and those of classes, in this order.  A class is
a block of members.  Every block and member says which class it is of.

Written as lines, a block stands deeper than the one it is in, and a block that is in no other is
declared.
-/

import AmbientDecl.Model.Basic
import AmbientDecl.Output.DocComment

namespace AmbientDecl
namespace Output

/-- One more level of indentation. -/
def deeper (indentation : String) : String := indentation ++ "  "

/-- The word before a block that is in no other. -/
def declareWord (indentation : String) : String :=
  if indentation = "" then "declare " else ""

/-- The lines of a comment, if there is one. -/
def commentLines (indentation : String) : Option String → List String
  | some comment => DocComment.indent indentation comment
  | none => []

/-- The texts for a member of a class. -/
structure MemberText where
  owner : ClassId
  key : String
  comment? : Option String
  declarations : List String

/-- The lines of a member. -/
def MemberText.lines (indentation : String) (member : MemberText) : List String :=
  commentLines indentation member.comment? ++
    member.declarations.map fun text => indentation ++ text ++ ";"

/-- The block of a class. -/
structure ClassBlock where
  id : ClassId
  comment? : Option String
  header : String
  members : List MemberText

/-- The lines of the block of a class. -/
def ClassBlock.lines (indentation : String) (block : ClassBlock) : List String :=
  commentLines indentation block.comment? ++
    (indentation ++ declareWord indentation ++ block.header ++ " \x7b") ::
    block.members.flatMap (MemberText.lines (deeper indentation)) ++ [indentation ++ "\x7d"]

/-- The blocks of the namespaces of one level: the first one with its members, the blocks of the
namespaces and the classes in it, and those after it. -/
inductive NamespaceBlocks where
  | nil
  | block (name : String) (members : List MemberText) (inner : NamespaceBlocks)
      (classes : List ClassBlock) (rest : NamespaceBlocks)

/-- The lines of the blocks of namespaces. -/
def NamespaceBlocks.lines (indentation : String) : NamespaceBlocks → List String
  | nil => []
  | block name members inner classes rest =>
    (indentation ++ declareWord indentation ++ "namespace " ++ name ++ " \x7b") ::
      members.flatMap (MemberText.lines (deeper indentation)) ++
      lines (deeper indentation) inner ++
      classes.flatMap (ClassBlock.lines (deeper indentation)) ++
      (indentation ++ "\x7d") :: lines indentation rest

/-- What stands in the file. -/
structure Layout where
  namespaces : NamespaceBlocks
  classes : List ClassBlock
  exportName : String

/-- The text of the file. -/
def Layout.print (layout : Layout) : String :=
  "\n".intercalate (layout.namespaces.lines "" ++ layout.classes.flatMap (ClassBlock.lines "") ++
    ["export default " ++ layout.exportName ++ ";"]) ++ "\n"

end Output
end AmbientDecl
