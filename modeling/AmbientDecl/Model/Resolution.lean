/- # Resolving classes

A class is resolved by linking it to its parent and its mixins, which are resolved before it.

* The target language has no mixins, so every public member of a mixin is copied to the class
  that uses it, unless its key is taken.  A private member under a key that a mixin needs
  becomes public.
* The members of a parent are left to the `extends` clause, but the static factory `create` is
  declared again, so that it returns the class itself.
* A class that is reached again through `extends` while it is being resolved stops the run.  A
  mixin that is being resolved is dropped and reported.

The classes that are being resolved form a stack.  No class enters it twice, so the depth of the
recursion is bounded by the number of classes; `room` counts the classes that may still enter.
-/

import AmbientDecl.Model.Members

namespace AmbientDecl
namespace Build

/-- Sets how far the linking of a class has come. -/
def setProgress (id : ClassId) (progress : Progress) : Build Unit :=
  modifyClass id fun c => { c with progress }

/-- Links a class to a parent that is resolved and declares the factory of the parent again. -/
def adopt (id parent : ClassId) : Build Unit := do
  modifyClass id fun c => { c with parent? := some parent }
  let m ← get
  match Entries.get? Member.createKey (m.classAt parent).members with
  | none => pure ()
  | some create =>
    if (Entries.get? Member.createKey (m.classAt id).members).isSome then pure ()
    else putMember id Member.createKey (← copyMember create id)

/-- Links a class to the parent of a name, once the parent is resolved. -/
def linkParent (id : ClassId) (parentName : String) (enter : ClassId → Build Unit) :
    Build Unit := do
  let m ← get
  match ← ofReading (m.find? parentName) with
  | none =>
    warn Diagnostic.unresolvedExtends
      ("Can't find extended class; child=" ++ m.fullName id ++ " parent=" ++ parentName)
      (m.fullName id)
  | some parent =>
    enter parent
    adopt id parent

/-- Links a class to the mixin of a name. -/
def linkMixin (id : ClassId) (mixinName : String) : Build Unit := do
  let m ← get
  let c := m.classAt id
  match ← ofReading (m.find? mixinName) with
  | none =>
    warn Diagnostic.unresolvedMixin
      ("Can't find used class; klass=" ++ c.fullName ++ " mixin=" ++ mixinName) c.fullName
  | some mixin =>
    if (m.classAt mixin).progress = .resolving then
      warn Diagnostic.cyclicMixin
        ("Used class is still being resolved; klass=" ++ c.fullName ++ " mixin=" ++
          m.fullName mixin) c.fullName
    else if c.implemented.contains (.linked mixin) then pure ()
    else modifyClass id fun c => { c with implemented := c.implemented ++ [.linked mixin] }

/-- Brings one member of a mixin into a class. -/
def mergeMember (id : ClassId) (key : String) (member : Member) : Build Unit := do
  if member.isPrivate then pure ()
  else
    let c := (← get).classAt id
    match Entries.get? key c.members with
    | none => putMember id key (← copyMember member id)
    | some existing =>
      if existing.isPrivate then
        putMember id key { existing with isPrivate := false }
        warn Diagnostic.privateOverride
          ("Setting private to false for " ++ c.fullName ++ "#" ++ key ++
            " since it's required for implementation") c.fullName
      else pure ()

/-- Brings the members of a mixin that is resolved into a class. -/
def absorb (id mixin : ClassId) : Build Unit := do
  let m ← get
  (m.classAt mixin).members.forM fun (key, member) => mergeMember id key member
  note (.debug ("Merged mixin " ++ m.fullName mixin ++ " into " ++ m.fullName id))

/-- Brings the members of a mixin, once it is resolved, into a class. -/
def mergeMixin (id mixin : ClassId) (enter : ClassId → Build Unit) : Build Unit := do
  enter mixin
  absorb id mixin

/-- Links a class to all that its record names; `enter` resolves another class. -/
def link (id : ClassId) (enter : ClassId → Build Unit) : Build Unit := do
  let m ← get
  let record := (m.classAt id).record
  modifyClass id fun c => { c with isNamespace := m.tree.contains (Forest.path c.fullName) }
  match record.parentName? with
  | some parentName => linkParent id parentName enter
  | none => pure ()
  (← orFault .unfit record.usedNames?).forM (linkMixin id)
  (((← get).classAt id).implemented.filterMap TypeRef.target?).forM fun mixin =>
    mergeMixin id mixin enter

/-- Resolves a class that is new: it is on the stack while `body` links it.  An error in the
documentation takes it back, and a fault of shape leaves it half done. -/
def resolveNew (id : ClassId) (body : Build Unit) : Build Unit := do
  setProgress id .resolving
  tryCatch body fun error => do
    if error.isFinding then setProgress id .unresolved
    throw error
  setProgress id .resolved

/-- A class was reached again while it is being resolved. -/
def throwCycle (stack : List ClassId) (id : ClassId) : Build Unit := do
  let m ← get
  match stack.dropWhile (· ≠ id) with
  | [] => throw .abandonedClass
  | chain => throw (.cycle (chain.map m.fullName ++ [m.fullName id]))

/-- Acts on a class by its progress; `whenNew` resolves one that is not resolved yet. -/
def reach (stack : List ClassId) (id : ClassId) (whenNew : Build Unit) : Build Unit := do
  match ((← get).classAt id).progress with
  | .resolved => pure ()
  | .resolving => throwCycle stack id
  | .unresolved => whenNew

/-- Resolves a class while the classes of `stack` are being resolved. -/
def resolveWithin : (room : Nat) → (stack : List ClassId) → ClassId → Build Unit
  | 0, stack, id => reach stack id (throw .abandonedClass)
  | room + 1, stack, id =>
    reach stack id (resolveNew id (link id (resolveWithin room (stack ++ [id]))))

/-- Resolves a class. -/
def resolve (id : ClassId) : Build Unit := do
  resolveWithin ((← get).classes.length + 1) [] id

/-- Resolves classes in the given order. -/
def resolveAll (ids : List ClassId) : Build Unit :=
  ids.forM resolve

end Build
end AmbientDecl
