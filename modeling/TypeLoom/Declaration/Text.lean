import TypeLoom.Declaration.Basic
import TypeLoom.Text.Blank

/-!
# Declarations as text

Renders types, declarations and whole files. An array's item is put in parentheses when it is a
function or a union. A description becomes a block comment of as many lines as it has; the text
that would close the comment is broken by a backslash, and a blank description gives no comment.
Keys that are no identifiers are quoted.
-/

namespace TypeLoom.Declaration

/-- Item texts with a separator between them. -/
def separated (separator : String) (items : List String) : String := separator.intercalate items

/-- Whether a type has to stand in parentheses before `[]`. -/
def TypeExpr.isLoose : TypeExpr → Bool
  | .function .. => true
  | .union _ => true
  | _ => false

mutual

def TypeExpr.text : TypeExpr → String
  | .any => "any"
  | .boolean => "boolean"
  | .null => "null"
  | .number => "number"
  | .string => "string"
  | .undefined => "undefined"
  | .array item =>
    if item.isLoose then "(" ++ item.text ++ ")[]" else item.text ++ "[]"
  | .function parameters result =>
    "(" ++ separated ", " (parameterTexts parameters) ++ ") => " ++ result.text
  | .reference name arguments =>
    match arguments with
    | [] => name
    | a :: as => name ++ "<" ++ separated ", " (a.text :: typeTexts as) ++ ">"
  | .union members => separated " | " (typeTexts members)

def typeTexts : List TypeExpr → List String
  | [] => []
  | t :: ts => t.text :: typeTexts ts

def parameterTexts : List (String × TypeExpr) → List String
  | [] => []
  | (n, t) :: ps => (n ++ ": " ++ t.text) :: parameterTexts ps

end

def escapeQuoted (c : Char) : List Char :=
  if c == '\\' then ['\\', '\\'] else if c == '\'' then ['\\', '\''] else [c]

/-- A string literal. -/
def quoted (s : String) : String := "'" ++ String.ofList (s.toList.flatMap escapeQuoted) ++ "'"

def isIdentifierStart (c : Char) : Bool := c.isAlpha || c == '_' || c == '$'

def isIdentifierChar (c : Char) : Bool := c.isAlphanum || c == '_' || c == '$'

/-- Identifiers of ASCII letters, digits, `_` and `$`. -/
def isIdentifier (cs : List Char) : Bool :=
  match cs with
  | [] => false
  | c :: cs => isIdentifierStart c && cs.all isIdentifierChar

/-- A key of an object or interface, quoted unless it is an identifier. -/
def key (name : String) : String := if isIdentifier name.toList then name else quoted name

/-- One line of a description inside a block comment. -/
def docLine (line : List Char) : List Char :=
  match Text.replacePair '*' '/' ['*', '\\', '/'] (Text.trimEnd line) with
  | [] => [' ', '*']
  | cs => [' ', '*', ' '] ++ cs

/-- The lines of the block comment for a description; none for a blank one. -/
def docLines (doc : Option String) : List (List Char) :=
  match Text.trim (doc.getD "").toList with
  | [] => []
  | cs => ['/', '*', '*'] :: (Text.lines cs).map docLine ++ [[' ', '*', '/']]

def docText (indent : String) (doc : Option String) : String :=
  String.join ((docLines doc).map fun line => indent ++ String.ofList line ++ "\n")

/-- The indentation of members. -/
def memberIndent : String := "    "

def Member.text (m : Member) : String :=
  docText memberIndent m.doc ++ memberIndent ++ key m.name ++ ": " ++ m.type.text ++ ";\n"

/-- A list after an opening text, or nothing when there are no items. -/
def listed (opening : String) (items : List String) (closing : String) : String :=
  if items.isEmpty then "" else opening ++ separated ", " items ++ closing

def text : Declaration → String
  | .interface doc name bases members =>
    docText "" doc ++ "export interface " ++ name ++ listed " extends " bases "" ++
      if members.isEmpty then " \x7b\x7d\n"
      else " \x7b\n" ++ String.join (members.map Member.text) ++ "\x7d\n"
  | .alias doc name parameters type =>
    docText "" doc ++ "export type " ++ name ++ listed "<" parameters ">" ++ " = " ++ type.text ++
      ";\n"

def Specifier.text (s : Specifier) : String :=
  match s.rename with
  | some r => s.name ++ " as " ++ r
  | none => s.name

def Import.clauses (i : Import) : List String :=
  i.default.toList ++
    if i.named.isEmpty then []
    else ["\x7b " ++ separated ", " (i.named.map Specifier.text) ++ " \x7d"]

def Import.text (i : Import) : String :=
  "import " ++ separated ", " i.clauses ++ " from " ++ quoted i.source ++ ";\n"

/-- The notice at the top of every generated file. -/
def header : String :=
  "// THIS FILE IS AUTO-GENERATED.\n" ++
    "// ANY MODIFICATION WILL BE DISCARDED UPON NEXT COMPILATION.\n"

/-- The text of a file. -/
def Contents.text (m : Contents) : String :=
  header ++ (if m.imports.isEmpty then "" else "\n" ++ String.join (m.imports.map Import.text)) ++
    String.join (m.declarations.map fun d => "\n" ++ d.text)

end TypeLoom.Declaration
