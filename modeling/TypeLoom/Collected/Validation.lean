import TypeLoom.Collected.Collection

/-!
# Checking what has been collected

Types must be defined once, fields declared once, and no two different fields of a type may have
one resolver name. Extensions must extend a type that is defined as what they extend it as. Every
group of offending declarations gives one problem that lists all of them in order.
-/

namespace TypeLoom.Collected

open Schema

namespace Context

/-- One problem for each type name with several definitions. -/
def duplicateTypes (c : Context) : List Problem :=
  let locations (g : Grouping String SourcedType) : List (String × List Location) :=
    g.map fun (name, ts) => (name, ts.map (·.location))
  let all := locations c.objects ++ locations c.interfaces ++ locations c.inputs
  let byName := all.foldl (fun g (name, ls) => Grouping.addAll name ls g) Grouping.empty
  byName.filterMap fun (name, ls) =>
    if 1 < ls.length then some (.duplicateType name (Location.sorted ls)) else none

/-- All classified fields by type, plain fields before resolver fields. -/
def fieldsByType (c : Context) : Grouping String CollectedField :=
  let resolvers := c.resolvers.map fun (type, fs) => (type, fs.map (·.field))
  (c.plain ++ resolvers).foldl (fun g (type, fs) => Grouping.addAll type fs g) Grouping.empty

/-- One problem for each field name with several declarations in a type. -/
def duplicateFields (c : Context) : List Problem :=
  c.fieldsByType.flatMap fun (type, fs) =>
    (Grouping.ofList (·.name) fs).filterMap fun (name, same) =>
      if 1 < same.length then
        some (.duplicateField type name (Location.sorted (same.map (·.location))))
      else none

/-- Whether all items of a list agree. -/
def allAgree (names : List String) : Bool := names.all (names.head? == some ·)

/-- One problem for each resolver name that different fields of a type share. -/
def duplicateResolvers (c : Context) : List Problem :=
  c.resolvers.flatMap fun (type, fs) =>
    (Grouping.ofList (·.resolver) fs).filterMap fun (name, same) =>
      if allAgree (same.map (·.field.name)) then none
      else some (.duplicateResolverName type name (Location.sorted (same.map (·.field.location))))

/-- Adds the problems of repeated types, fields and resolver names. -/
def validate (c : Context) : Context :=
  c.addProblems (c.duplicateTypes ++ c.duplicateFields ++ c.duplicateResolvers)

/-- Whether a type is defined as a given kind. -/
def isDefinedAs (c : Context) (name : String) : Option FieldedKind → Bool
  | some .object => c.objects.hasKey name
  | some .interface => c.interfaces.hasKey name
  | some .input => c.inputs.hasKey name
  | none => false

/-- One problem for each extension of a type that is not defined as its kind. -/
def undefinedExtensions (c : Context) : List Problem :=
  c.extensions.values.filterMap fun t =>
    if c.isDefinedAs t.declaration.name t.declaration.body.fieldedKind? then none
    else some (.extensionOfUndefinedType t.declaration.name t.location)

end Context

/-- A check of the collected schema. -/
structure Rule where
  name : String
  check : Context → List Problem

/-- The rule that extensions need something to extend. -/
def extensionRule : Rule := ⟨"ExtensionOfUndefinedType", Context.undefinedExtensions⟩

end TypeLoom.Collected
