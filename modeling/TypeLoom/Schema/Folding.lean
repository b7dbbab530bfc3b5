import TypeLoom.Schema.Document
import TypeLoom.Schema.Sdl

/-!
# Folding extensions into their types

The snapshot of a document shows every type with its extensions folded in. The base of an
extension is the first object, interface or input definition of its name, and it takes the
extension only if both are of one kind; an extension without such a base is kept at the end. The
directives that steer the generator are dropped from types with fields and from their fields, and
so are their own definitions.
-/

namespace TypeLoom.Schema

/-- The directive that makes a field a resolver field. -/
def resolveDirective : String := "resolve"

/-- The directive that names the module of a type's resolvers. -/
def resolversDirective : String := "resolvers"

def isGeneratorDirective (name : String) : Bool :=
  name == resolveDirective || name == resolversDirective

namespace Folding

def strip (ds : List Directive) : List Directive := ds.filter (!isGeneratorDirective ·.name)

def stripField (f : Field) : Field := { f with directives := strip f.directives }

def stripInput (v : InputValue) : InputValue := { v with directives := strip v.directives }

/-- A type with fields, without the generator's directives; other types are left alone. -/
def stripType (t : TypeDeclaration) : TypeDeclaration :=
  match t.body with
  | .object interfaces fields =>
    { t with directives := strip t.directives, body := .object interfaces (fields.map stripField) }
  | .interface interfaces fields =>
    { t with
      directives := strip t.directives, body := .interface interfaces (fields.map stripField) }
  | .input fields =>
    { t with directives := strip t.directives, body := .input (fields.map stripInput) }
  | _ => t

/-- The interfaces of a base, then those of an extension that are not listed yet. -/
def mergeInterfaces (base additional : List String) : List String :=
  additional.foldl (fun acc i => if acc.contains i then acc else acc ++ [i]) base

/-- A base with an extension of its kind folded in. -/
def mergeBody : TypeBody → TypeBody → Option TypeBody
  | .object is fs, .object js gs => some (.object (mergeInterfaces is js) (fs ++ gs))
  | .interface is fs, .interface js gs => some (.interface (mergeInterfaces is js) (fs ++ gs))
  | .input fs, .input gs => some (.input (fs ++ gs))
  | _, _ => none

def mergeType (base ext : TypeDeclaration) : Option TypeDeclaration :=
  (mergeBody base.body ext.body).map fun body =>
    { base with directives := base.directives ++ ext.directives, body }

/-- Whether a definition is the kind of base that an extension of `name` looks for. -/
def isBaseOf (name : String) : Definition → Bool
  | .type t => t.body.fieldedKind?.isSome && t.name == name
  | _ => false

/-- Folds an extension into its base, if the first definition it may extend is of its kind. -/
def absorb (ext : TypeDeclaration) : List Definition → Option (List Definition)
  | [] => none
  | d :: ds =>
    if isBaseOf ext.name d then
      match d with
      | .type t => (mergeType t ext).map fun merged => .type merged :: ds
      | _ => none
    else (absorb ext ds).map (d :: ·)

/-- The definitions that are no extensions, stripped, without those of generator directives. -/
def bases (ds : List Definition) : List Definition :=
  ds.filterMap fun
    | .directive d => if isGeneratorDirective d.name then none else some (.directive d)
    | .type t => some (.type (stripType t))
    | .schema b => some (.schema b)
    | .extension _ => none

def extensions (ds : List Definition) : List TypeDeclaration :=
  ds.filterMap fun
    | .extension t => some (stripType t)
    | _ => none

/-- Folds one extension, or leaves it over. -/
def foldStep (state : List Definition × List TypeDeclaration) (ext : TypeDeclaration) :
    List Definition × List TypeDeclaration :=
  match absorb ext state.1 with
  | some folded => (folded, state.2)
  | none => (state.1, state.2 ++ [ext])

end Folding

open Folding in
/-- The definitions of a list with their extensions folded in. -/
def fold (ds : List Definition) : List Definition :=
  let (folded, left) := (extensions ds).foldl foldStep (bases ds, [])
  folded ++ left.map .extension

/-- The snapshot of a document in the schema language. -/
def Document.snapshot (d : Document) : String :=
  Sdl.definitions (fold (d.definitions.map (·.definition)))

end TypeLoom.Schema
