/-!
# TypeScript declarations as data

Types, exported declarations, imports and the modules made of them. Nothing here is text yet: a
module is rendered once it is complete, so what it declares and imports can be read off it.
-/

namespace TypeLoom

namespace Declaration

inductive TypeExpr where
  | any
  | boolean
  | null
  | number
  | string
  | undefined
  | array (item : TypeExpr)
  | function (parameters : List (String × TypeExpr)) (result : TypeExpr)
  | reference (name : String) (arguments : List TypeExpr)
  | union (members : List TypeExpr)
  deriving Inhabited, Repr

namespace TypeExpr

/-- A reference without type arguments. -/
def named (name : String) : TypeExpr := .reference name []

/-- The name of the wrapper for optional values. -/
def maybeName : String := "Maybe"

/-- An optional value. -/
def maybe (inner : TypeExpr) : TypeExpr := .reference maybeName [inner]

def referenceName? : TypeExpr → Option String
  | .reference n _ => some n
  | _ => none

end TypeExpr

/-- A member of an interface. -/
structure Member where
  doc : Option String
  name : String
  type : TypeExpr
  deriving Inhabited, Repr

end Declaration

open Declaration in
/-- An exported declaration. -/
inductive Declaration where
  | interface (doc : Option String) (name : String) (bases : List String) (members : List Member)
  | alias (doc : Option String) (name : String) (parameters : List String) (type : TypeExpr)
  deriving Inhabited, Repr

namespace Declaration

def name : Declaration → String
  | .interface _ n _ _ => n
  | .alias _ n _ _ => n

/-- An imported name and the name it gets here, if that is another one. -/
structure Specifier where
  name : String
  rename : Option String
  deriving DecidableEq, Inhabited, Repr

/-- The name a specifier binds. -/
def Specifier.bound (s : Specifier) : String := s.rename.getD s.name

structure Import where
  default : Option String
  named : List Specifier
  source : String
  deriving DecidableEq, Inhabited, Repr

/-- The contents of one generated file. -/
structure Contents where
  imports : List Import
  declarations : List Declaration
  deriving Inhabited, Repr

end Declaration

end TypeLoom
