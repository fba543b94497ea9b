/- # Generating declarations

A run assembles the classes of a document, resolves them in the order of their registration and
renders the declaration file.
-/

import AmbientDecl.Model.Assembly
import AmbientDecl.Model.Resolution
import AmbientDecl.Output.File

namespace AmbientDecl
namespace Build

/-- The declaration file of a document. -/
def generate (document : Document) : Build String := do
  assemble document
  resolveAll (← get).classIds
  ofReading (Output.render (← get))

end Build
end AmbientDecl
