import TypeLoom.Path
import TypeLoom.Schema.Definition
import TypeLoom.Text.Case

/-!
# Names of generated declarations

The declarations for a type's resolver fields are grouped under a name made from the file that
declares the fields and the type. A file that is named after the type adds nothing to that name, so
several files may extend one type without their names clashing with the type's own file.
-/

namespace TypeLoom.Generation

open Schema (Operation)

def isWordChar (c : Char) : Bool := c.isAlphanum || c == '_'

/-- A file's name without its extension, as a piece of an identifier: the words between other
characters, each with its first letter in upper case. A name that is one word stays as it is. Bytes
that are no text end a word as the marks do that they are shown as. -/
def fileWord (file : Path) : String :=
  let stem := file.stem?.getD ""
  if stem.toList.all isWordChar then stem
  else
    let words := (Text.splitAt (!isWordChar ·) stem.toList).filter (!·.isEmpty)
    String.join (words.map fun w => Text.upperFirst (String.ofList w))

/-- The name under which the resolver fields of `parent` declared in `file` are grouped. -/
def groupName (file : Path) (parent : String) : String :=
  let word := fileWord file
  if word == parent then parent else word ++ parent

/-- The name of the type of one resolver. -/
def resolverName (file : Path) (parent field : String) : Operation → String
  | .mutation => Text.upperFirst field ++ "Mutation"
  | .subscription => Text.upperFirst field ++ "Subscription"
  | .query => groupName file parent ++ Text.upperFirst field ++ "Resolver"

/-- The name of the type of a resolver's arguments. -/
def argumentsName (resolver : String) : String := resolver ++ "Args"

/-- The name of the interface of all resolvers of a group. -/
def resolversName (group : String) : String := group ++ "Resolvers"

end TypeLoom.Generation
