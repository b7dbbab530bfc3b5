import TypeLoom.Declaration.Text
import TypeLoom.ResolverModule.Edit
import TypeLoom.ResolverModule.Plan

/-!
# Bringing a resolver module up to date

Only the variable of the resolvers and the import of its type are touched. Where properties are
missing or out of order, the object literal is written anew from its entries, sorted by name;
entries with one name keep their order. A module that is up to date is returned as it is, and one
that is blank is written from scratch.
-/

namespace TypeLoom.ResolverModule

open Declaration (quoted key)

def indentUnit : String := "    "

/-- The name of a stub's parameter for its parent. -/
def parentParameter (parent : String) : String :=
  let name := Text.lowerFirst parent
  if name == "" || name == "context" || name == "args" then "parent" else name

/-- A property for a stub, which throws until someone fills it in. -/
def stubText (indent : String) (s : Stub) : String :=
  key s.name ++ ": (_context, _" ++ parentParameter s.parent ++ ", _args) => \x7b\n" ++ indent ++
    indentUnit ++ "throw new Error('Not implemented yet!');\n" ++ indent ++ "\x7d"

/-- An entry of an object literal that is to be written. -/
structure Entry where
  name : String
  text : String
  lineComment : Option String
  deriving DecidableEq, Inhabited, Repr

/-- Entries by name; entries with one name keep their order. -/
def sortEntries (es : List Entry) : List Entry := es.mergeSort fun a b => decide (a.name ≤ b.name)

def entryText (indent : String) (e : Entry) : String :=
  indent ++ e.text ++ "," ++ (e.lineComment.elim "" fun c => " " ++ c) ++ "\n"

/-- An object literal with one entry per line. A line comment goes after the comma. -/
def objectText (indent closingIndent : String) (es : List Entry) (trailing : Option String) :
    String :=
  "\x7b\n" ++ String.join (es.map (entryText indent)) ++
    (trailing.elim "" fun c => indent ++ c ++ "\n") ++ closingIndent ++ "\x7d"

def stubEntry (indent : String) (s : Stub) : Entry := ⟨s.name, stubText indent s, none⟩

def importText (u : Update) : String :=
  "import \x7b " ++ u.type ++ " \x7d from " ++ quoted u.importPath ++ ";\n"

/-- The declaration of the variable with given stubs. -/
def declarationText (u : Update) (stubs : List Stub) : String :=
  "export const resolvers: " ++ u.type ++ " = " ++
    objectText indentUnit "" (sortEntries (stubs.map (stubEntry indentUnit))) none ++ ";\n"

/-- A module from scratch. -/
def freshModule (u : Update) : String :=
  importText u ++ "\n" ++ declarationText u (Plan.unique [] u.stubs)

def sliceText (source : List Char) (s : Span) : String := String.ofList (s.slice source)

/-- The entries of a literal as they stand. -/
def existingEntries (source : List Char) (o : ObjectLiteral) : List Entry :=
  o.properties.map fun p =>
    ⟨p.name, sliceText source p.span, p.lineComment.map (sliceText source)⟩

/-- A literal with missing stubs added. -/
def rebuilt (source : List Char) (b : Binding) (missing : List Stub) : String :=
  let indent := b.object.indent.getD (b.indent ++ indentUnit)
  let entries := existingEntries source b.object ++ missing.map (stubEntry indent)
  objectText indent b.indent (sortEntries entries) (b.object.trailing.map (sliceText source))

/-- The edit that annotates the variable. -/
def retypeEdit (b : Binding) (type : String) : Edit :=
  match b.annotation with
  | some (span, _) => ⟨span, type.toList⟩
  | none => .insertAt b.nameStop (": " ++ type).toList

/-- The edit that adds an import statement of its own: after the last import, or at the start. -/
def importStatementEdit (m : Outline) (u : Update) : Edit :=
  let statement := importText u
  match m.imports.getLast? with
  | some last => .insertAt last.span.stop ('\n' :: Text.trimEnd statement.toList)
  | none => .insertAt 0 (if m.hasStatements then statement ++ "\n" else statement).toList

/-- The edit that imports the type: in the first statement from its path if that can take a name,
otherwise in a statement of its own. -/
def importEdit (m : Outline) (u : Update) : Edit :=
  match m.importFrom? u.importPath with
  | some i =>
    match i.named, i.defaultStop with
    | some named, _ =>
      match named.lastStop with
      | some stop => .insertAt stop (", " ++ u.type).toList
      | none => ⟨named.span, ("\x7b " ++ u.type ++ " \x7d").toList⟩
    | none, some stop => .insertAt stop (", \x7b " ++ u.type ++ " \x7d").toList
    | none, none => importStatementEdit m u
  | none => importStatementEdit m u

/-- The edits of the variable, or the one that appends it. -/
def bindingEdits (source : List Char) (m : Outline) (u : Update) (p : Plan) : List Edit :=
  match m.binding with
  | some b =>
    (if p.retype then [retypeEdit b u.type] else []) ++
      if p.resort || !p.missingStubs.isEmpty then
        [⟨b.object.span, (rebuilt source b p.missingStubs).toList⟩]
      else []
  | none =>
    let separator := if source.getLast? == some '\n' then "\n" else "\n\n"
    [.insertAt source.length (separator ++ declarationText u p.missingStubs).toList]

/-- All edits of a plan. -/
def edits (source : List Char) (m : Outline) (u : Update) (p : Plan) : List Edit :=
  (if p.missingImport then [importEdit m u] else []) ++ bindingEdits source m u p

/-- The text of a module brought up to date; `none` stands for a module that does not exist. -/
def merge [Parser] (existing : Option String) (u : Update) : Except MergeProblem String :=
  let text := existing.getD ""
  if Text.allBlank text then .ok (freshModule u)
  else do
    let m ← read text.toList
    let p := Plan.compute m u
    if p.isEmpty then return text
    else return String.ofList (Edit.applyAll text.toList (edits text.toList m u p))

end TypeLoom.ResolverModule
