import TypeLoom.Generation.OutputPaths

/-!
# Settings of a run

What the configuration of the plugins leaves behind. The type of the request context is given as a
path and a name, in short `path#name`; without a name it is the default export.
-/

namespace TypeLoom.Generation

structure ContextImport where
  path : String
  name : String
  deriving DecidableEq, Inhabited, Repr

namespace ContextImport

/-- The name that stands for a module's default export. -/
def defaultName : String := "default"

/-- Reads `path#name`, cut at the first `#` and trimmed. Neither part may be blank. -/
def parse? (s : String) : Option ContextImport :=
  let cs := s.toList
  let before := Text.trim (cs.takeWhile (· != '#'))
  let name := if cs.contains '#' then Text.trim ((cs.dropWhile (· != '#')).drop 1)
    else defaultName.toList
  if before.isEmpty || name.isEmpty then none
  else some ⟨String.ofList before, String.ofList name⟩

end ContextImport

structure Settings where
  contextImport : Option ContextImport
  dryRun : Bool
  resolversImport : Option String
  resolversOutput : Option Path
  schemaInput : Option Path
  typesImport : Option String
  typesOutput : Option Path
  deriving DecidableEq, Inhabited, Repr

namespace Settings

def empty : Settings := ⟨none, false, none, none, none, none, none⟩

/-- The output paths, once the schema and the directory for declarations are known. If the schema
input is a file, its directory is the schema root. -/
def outputPaths? (s : Settings) (inputIsFile : Bool) : Option OutputPaths := do
  let input ← s.schemaInput
  let output ← s.typesOutput
  return {
    schemaRoot := if inputIsFile then input.parent?.getD ⟨""⟩ else input
    typesOutput := output
    typesImport := s.typesImport.getD "./"
    resolversOutput := s.resolversOutput
    resolversImport := s.resolversImport }

end Settings

end TypeLoom.Generation
