import TypeLoom.Generation.Naming

/-!
# Where generated files go

The places of generated files and how they import each other. Files below the schema root keep
their relative place; a file outside it is placed by its name alone.
-/

namespace TypeLoom.Generation

structure OutputPaths where
  schemaRoot : Path
  typesOutput : Path
  typesImport : String
  resolversOutput : Option Path
  resolversImport : Option String
  deriving DecidableEq, Inhabited, Repr

/-- An import path: the names of a relative path, as they are shown, after a leading text. -/
def joinImport (lead : String) (relative : Path) : String :=
  let rest := "/".intercalate (relative.names.map Path.shown)
  if lead.isEmpty then rest
  else if lead.toList.getLast? == some '/' then lead ++ rest
  else lead ++ "/" ++ rest

/-- Drops a text from the start of another as often as it stands there. -/
def dropRepeated (lead : List Char) : Nat → List Char → List Char
  | 0, cs => cs
  | fuel + 1, cs =>
    if lead.isPrefixOf cs then dropRepeated lead fuel (cs.drop lead.length) else cs

def dropEnding (ending cs : List Char) : List Char :=
  if ending.isSuffixOf cs then cs.take (cs.length - ending.length) else cs

/-- The place a module path asks for, relative to the output directory, without `.ts`: what stands
after the configured import path if the module path continues it, less leading `./` and `/`. -/
def moduleStem (importPath : String) (lead : Option String) : String :=
  let cs := importPath.toList
  let inside := lead.bind fun l =>
    let base := (l.toList.reverse.dropWhile (· == '/')).reverse
    let rest := cs.drop base.length
    if base.isPrefixOf cs && rest.head? == some '/' then some rest else none
  let cs := dropRepeated ['.', '/'] importPath.length (inside.getD cs)
  String.ofList (dropEnding ".ts".toList (cs.dropWhile (· == '/')))

namespace OutputPaths

/-- The place of a source file below the schema root. -/
def relative (p : OutputPaths) (file : Path) : Path :=
  match file.stripBase? p.schemaRoot with
  | some rest => if rest.raw.isEmpty then ⟨file.fileName?.getD ""⟩ else rest
  | none => ⟨file.fileName?.getD ""⟩

/-- The declaration file of a source file. -/
def typesModule (p : OutputPaths) (file : Path) : Path :=
  ⟨(p.typesOutput.join (p.relative file)).raw ++ ".ts"⟩

/-- How the declaration file of a source file is imported. -/
def typesImportPath (p : OutputPaths) (file : Path) : String :=
  joinImport p.typesImport (p.relative file)

/-- The file with the declarations that all others share. -/
def sharedModule (p : OutputPaths) : Path := p.typesOutput.join ⟨"index.ts"⟩

def sharedImportPath (p : OutputPaths) : String := joinImport p.typesImport ⟨"index"⟩

/-- The file with the folded schema. -/
def snapshot (p : OutputPaths) : Path := p.typesOutput.join ⟨"schema.graphql"⟩

/-- The module that implements the resolver fields of `parent` declared in `file`, when a directory
for such modules is configured. `importPath` is what the type's directive asks for. -/
def resolverModule? (p : OutputPaths) (file : Path) (parent : String)
    (importPath : Option String) : Option Path :=
  p.resolversOutput.map fun output =>
    match importPath with
    | some i => output.join ⟨moduleStem i p.resolversImport ++ ".ts"⟩
    | none =>
      let dir := output.join (((p.relative file).parent?).getD ⟨""⟩)
      let word := fileWord file
      let dir := if word == parent then dir else dir.join ⟨word⟩
      dir.join ⟨parent ++ ".ts"⟩

end OutputPaths

end TypeLoom.Generation
