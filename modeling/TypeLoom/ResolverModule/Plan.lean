import TypeLoom.ResolverModule.Reading
import TypeLoom.ResolverModule.Update
import TypeLoom.Text.Blank

/-!
# The difference between a module and what it has to implement
-/

namespace TypeLoom.ResolverModule

structure Plan where
  /-- The type of the resolvers is not imported from its path. -/
  missingImport : Bool
  /-- Required resolvers without a property. -/
  missingStubs : List Stub
  /-- The properties are not in ascending order. -/
  resort : Bool
  /-- The variable is annotated with another type, or with none. -/
  retype : Bool
  /-- There is no variable for the resolvers. -/
  synthesize : Bool
  deriving DecidableEq, Inhabited, Repr

namespace Plan

def isEmpty (p : Plan) : Bool :=
  !p.missingImport && p.missingStubs.isEmpty && !p.resort && !p.retype && !p.synthesize

/-- The stubs whose names are not taken, each name once. -/
def unique (taken : List String) : List Stub → List Stub
  | [] => []
  | s :: ss =>
    if taken.contains s.name then unique taken ss else s :: unique (s.name :: taken) ss

/-- Whether some neighbours are in descending order. -/
def isUnsorted : List String → Bool
  | a :: b :: rest => decide (b < a) || isUnsorted (b :: rest)
  | _ => false

/-- Whether the first import from the update's path does not bind the update's type. -/
def lacksImport (m : Outline) (u : Update) : Bool :=
  match (m.importFrom? u.importPath).bind (·.named) with
  | some named => !named.locals.contains u.type
  | none => true

def compute (m : Outline) (u : Update) : Plan :=
  match m.binding with
  | none =>
    { missingImport := lacksImport m u, missingStubs := unique [] u.stubs, resort := false,
      retype := false, synthesize := true }
  | some b =>
    let names := b.object.properties.map (·.name)
    { missingImport := lacksImport m u
      missingStubs := unique names u.stubs
      resort := isUnsorted names
      retype := match b.annotation with
        | some (_, type) => Text.trimmed type != u.type
        | none => true
      synthesize := false }

end Plan

end TypeLoom.ResolverModule
