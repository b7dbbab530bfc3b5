import TypeLoom.Schema.Definition

/-!
# What can be wrong with a schema

The causes that are collected while a schema is read, collected, checked and mapped, and their
wording. A run reports all of them together.
-/

namespace TypeLoom.Schema

/-- What can be wrong with the arguments of one of the generator's directives. -/
inductive ArgumentProblem where
  | missing (argument : String)
  | notAString (argument : String)
  | unknown (argument expected : String)
  deriving DecidableEq, Inhabited, Repr

def ArgumentProblem.message : ArgumentProblem → String
  | .missing a => "Missing required " ++ a ++ " argument"
  | .notAString a => a ++ " argument must be a string value"
  | .unknown a expected => "Unknown argument: " ++ a ++ ", did you mean " ++ expected ++ "?"

inductive Problem where
  | conflictingResolverModule (module : Path) (identifiers : List String)
  | directiveArgument (directive : String) (location : Location) (problem : ArgumentProblem)
  | duplicateField (type field : String) (locations : List Location)
  | duplicateResolverName (type resolver : String) (locations : List Location)
  | duplicateOperation (operation : Operation) (first second : Location)
  | duplicateType (type : String) (locations : List Location)
  | ambiguousType (type : String) (location : Location) (declarations : List Location)
  | extensionOfUndefinedType (type : String) (location : Location)
  | unreadable (file : Path) (position : Position)
  | unresolvedType (type : String) (location : Location)
  deriving DecidableEq, Inhabited, Repr

namespace Problem

def message : Problem → String
  | .conflictingResolverModule m ids =>
    "Resolver module " ++ m.display ++
      " would need to implement more than one aggregate resolvers type: " ++ ", ".intercalate ids
  | .directiveArgument d l p =>
    "Invalid @" ++ d ++ " directive at " ++ l.text ++ ": " ++ p.message
  | .duplicateField t f ls =>
    "Fields on Object types must only be declared once, multiple declarations of field " ++ f ++
      " on type " ++ t ++ " was found (" ++ Location.listText ls ++ ")"
  | .duplicateResolverName t r ls =>
    "Resolver names must be unique within a type, multiple fields of type " ++ t ++
      " resolve as " ++ r ++ " (" ++ Location.listText ls ++ ")"
  | .duplicateOperation o l k =>
    "The " ++ o.name ++ " root operation type was declared more than once (" ++ l.text ++ ", " ++
      k.text ++ ")"
  | .duplicateType t ls =>
    "Types must only be declared once, multiple declarations of type " ++ t ++ " was found (" ++
      Location.listText ls ++
      "). If you need to extend existing types use the following syntax instead: extend type " ++
      t ++ " \x7b...\x7d"
  | .ambiguousType t l ds =>
    "Multiple declaration of type: " ++ t ++ " was found (" ++ Location.listText ds ++
      "), referenced at " ++ l.text
  | .extensionOfUndefinedType t l =>
    "Attempted to extend type " ++ t ++ " at " ++ l.text ++ ", but no such type is declared"
  | .unreadable f p =>
    "Failed to parse " ++ f.display ++ ": schema parse error: Parse error at " ++ p.text
  | .unresolvedType t l =>
    "Could not find any type declaration of: " ++ t ++ " (referenced at " ++ l.text ++ ")"

end Problem

end TypeLoom.Schema
