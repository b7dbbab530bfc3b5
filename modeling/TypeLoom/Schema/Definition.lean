import TypeLoom.Decimal.Binary64
import TypeLoom.Location

/-!
# Schema definitions

The definitions of the GraphQL schema language, each with the position of its keyword. Type
definitions and type extensions have one shape; an extension has no description.
-/

namespace TypeLoom.Schema

inductive Value where
  | variable (name : String)
  | int (value : Int)
  | float (value : Decimal.Binary64)
  | string (text : String)
  | boolean (value : Bool)
  | null
  | enum (name : String)
  | list (items : List Value)
  /-- Entries by ascending key, each key once. -/
  | object (entries : List (String × Value))
  deriving Inhabited, Repr

inductive TypeRef where
  | named (name : String)
  | list (item : TypeRef)
  | nonNull (inner : TypeRef)
  deriving DecidableEq, Inhabited, Repr

/-- The name inside all wrappers. -/
def TypeRef.innermost : TypeRef → String
  | .named n => n
  | .list t => t.innermost
  | .nonNull t => t.innermost

structure Directive where
  position : Position
  name : String
  arguments : List (String × Value)
  deriving Inhabited, Repr

/-- An argument, or a field of an input type. -/
structure InputValue where
  position : Position
  description : Option String
  name : String
  type : TypeRef
  default : Option Value
  directives : List Directive
  deriving Inhabited, Repr

structure Field where
  position : Position
  description : Option String
  name : String
  arguments : List InputValue
  type : TypeRef
  directives : List Directive
  deriving Inhabited, Repr

structure EnumValue where
  position : Position
  description : Option String
  name : String
  directives : List Directive
  deriving Inhabited, Repr

inductive TypeBody where
  | scalar
  | object (interfaces : List String) (fields : List Field)
  | interface (interfaces : List String) (fields : List Field)
  | union (members : List String)
  | enum (values : List EnumValue)
  | input (fields : List InputValue)
  deriving Inhabited, Repr

/-- The kinds of types that have fields. -/
inductive FieldedKind where
  | object
  | interface
  | input
  deriving DecidableEq, Inhabited, Repr

def TypeBody.fieldedKind? : TypeBody → Option FieldedKind
  | .object .. => some .object
  | .interface .. => some .interface
  | .input .. => some .input
  | _ => none

structure TypeDeclaration where
  position : Position
  description : Option String
  name : String
  directives : List Directive
  body : TypeBody
  deriving Inhabited, Repr

structure DirectiveDefinition where
  position : Position
  description : Option String
  name : String
  arguments : List InputValue
  repeatable : Bool
  locations : List String
  deriving Inhabited, Repr

inductive Operation where
  | query
  | mutation
  | subscription
  deriving DecidableEq, Inhabited, Repr

namespace Operation

def name : Operation → String
  | .query => "query"
  | .mutation => "mutation"
  | .subscription => "subscription"

def all : List Operation := [.query, .mutation, .subscription]

/-- The root type of an operation in a document without a `schema` block. -/
def conventionalRoot : Operation → String
  | .query => "Query"
  | .mutation => "Mutation"
  | .subscription => "Subscription"

end Operation

structure SchemaBlock where
  position : Position
  directives : List Directive
  query : Option String
  mutation : Option String
  subscription : Option String
  deriving Inhabited, Repr

def SchemaBlock.root? (b : SchemaBlock) : Operation → Option String
  | .query => b.query
  | .mutation => b.mutation
  | .subscription => b.subscription

inductive Definition where
  | schema (block : SchemaBlock)
  | directive (definition : DirectiveDefinition)
  | type (declaration : TypeDeclaration)
  | extension (declaration : TypeDeclaration)
  deriving Inhabited, Repr

def Definition.position : Definition → Position
  | .schema b => b.position
  | .directive d => d.position
  | .type t => t.position
  | .extension t => t.position

end TypeLoom.Schema
