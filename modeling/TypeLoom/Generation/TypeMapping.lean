import TypeLoom.Collected.Context
import TypeLoom.Declaration.Dependencies

/-!
# Mapping schema types

A type that is not wrapped as non-null is optional. The result of mapping comes with what the file
has to import for it and with the problems found; a name that cannot be resolved is a problem and
maps to `any`, so that the rest of the file can still be made.
-/

namespace TypeLoom.Generation

open Schema Declaration Collected

/-- A value with the names it needs, each with its import path, and the problems on the way. -/
structure Mapped (α : Type) where
  value : α
  needs : List (String × String)
  problems : List Problem
  deriving Inhabited, Repr

instance : Monad Mapped where
  pure a := ⟨a, [], []⟩
  bind m f :=
    let r := f m.value
    ⟨r.value, m.needs ++ r.needs, m.problems ++ r.problems⟩

namespace Mapped

/-- Needs a name from an import path. -/
def need (path name : String) : Mapped Unit := ⟨(), [(path, name)], []⟩

def report (p : Problem) : Mapped Unit := ⟨(), [], [p]⟩

/-- What has to be imported. -/
def dependencies {α : Type} (m : Mapped α) : Dependencies :=
  m.needs.foldl (fun d (path, name) => d.add path name) .empty

end Mapped

def builtinScalar? : String → Option TypeExpr
  | "Boolean" => some .boolean
  | "ID" => some .string
  | "String" => some .string
  | "Float" => some .number
  | "Int" => some .number
  | _ => none

/-- Needs a name of the shared file. -/
def needShared (paths : OutputPaths) (name : String) : Mapped Unit :=
  .need paths.sharedImportPath name

/-- A type by its name alone. -/
def mapName (c : Context) (paths : OutputPaths) (location : Location) (name : String) :
    Mapped TypeExpr :=
  match builtinScalar? name with
  | some t => pure t
  | none =>
    match c.lookup name with
    | .found file => do
      Mapped.need (paths.typesImportPath file) name
      return .named name
    | .ambiguous declarations => do
      Mapped.report (.ambiguousType name location declarations)
      return .any
    | .notFound => do
      Mapped.report (.unresolvedType name location)
      return .any

mutual

/-- A type as it stands: optional, unless it is wrapped as non-null. -/
def mapType (c : Context) (paths : OutputPaths) (location : Location) :
    TypeRef → Mapped TypeExpr
  | .nonNull t => mapPresent c paths location t
  | .named n => do
    let inner ← mapName c paths location n
    needShared paths TypeExpr.maybeName
    return .maybe inner
  | .list t => do
    let item ← mapType c paths location t
    needShared paths TypeExpr.maybeName
    return .maybe (.array item)

/-- A type under a non-null wrapper. -/
def mapPresent (c : Context) (paths : OutputPaths) (location : Location) :
    TypeRef → Mapped TypeExpr
  | .nonNull t => mapPresent c paths location t
  | .named n => mapName c paths location n
  | .list t => do
    let item ← mapType c paths location t
    return .array item

end

end TypeLoom.Generation
