import TypeLoom.Declaration.Text
import TypeLoom.Proofs.Reading.Placement
import TypeLoom.Proofs.Reading.Sketches

/-!
# Modules of one form

A draft is a module with one import statement and one variable, both of one line but for the
elements of the literal. `Parser.Follows` says what is relied on of a parser for such a text: there
is no error in it, and its tree has the nodes that the text has parts. What `read` finds in it then
follows: `read_draft`.
-/

namespace TypeLoom.ResolverModule

open Declaration (isIdentifier isIdentifierChar)
open Reading (unquote)

/-- The rest of a string in single quotes, up to its end: neither the end of a line nor a null
character is in it, and quotes and backslashes have a backslash before them. -/
def closesLiteral : List Char → Bool
  | ['\''] => true
  | '\\' :: c :: cs => (c == '\'' || c == '\\') && closesLiteral cs
  | c :: cs => c != '\'' && c != '\\' && c != '\n' && c != '\r' && c != '\x00' && closesLiteral cs
  | [] => false

/-- A string in single quotes. -/
def isLiteral : List Char → Bool
  | c :: cs => c == '\'' && closesLiteral cs
  | [] => false

/-- An element of a draft's literal, by its key as it is written and the name of its parameter for
the parent. -/
structure DraftEntry where
  key : String
  parameter : String
  deriving DecidableEq, Inhabited, Repr

/-- A module by what is free in its text. The path is written with its quotes. -/
structure Draft where
  type : String
  path : String
  entries : List DraftEntry
  deriving DecidableEq, Inhabited, Repr

def DraftEntry.text (e : DraftEntry) : String :=
  "    " ++ e.key ++ ": (_context, _" ++ e.parameter ++ ", _args) => \x7b\n" ++
    "        throw new Error('Not implemented yet!');\n    \x7d,\n"

def Draft.text (d : Draft) : String :=
  "import \x7b " ++ d.type ++ " \x7d from " ++ d.path ++ ";\n\n" ++
    "export const resolvers: " ++ d.type ++ " = \x7b\n" ++
    String.join (d.entries.map DraftEntry.text) ++ "\x7d;\n"

/-- What stands in a draft are identifiers and strings. The type is none of the built-in ones. -/
structure Draft.WellFormed (d : Draft) : Prop where
  type : isIdentifier d.type.toList = true
  suffix : "Resolvers".toList <:+ d.type.toList
  path : isLiteral d.path.toList = true
  keys : ∀ e ∈ d.entries, isIdentifier e.key.toList = true ∨ isLiteral e.key.toList = true
  parameters : ∀ e ∈ d.entries, e.parameter.toList.all isIdentifierChar = true

/-- A key that is no identifier is a string. -/
def keyKind (key : String) : String :=
  if isIdentifier key.toList then "property_identifier" else "string"

def DraftEntry.sketch (e : DraftEntry) : Sketch :=
  .branch "pair" none [.leaf (keyKind e.key) (some "key") e.key,
    .closed "arrow_function" (some "value")]

def Draft.importSketch (d : Draft) : Sketch :=
  .branch "import_statement" none [
    .branch "import_clause" none [
      .branch "named_imports" none [
        .branch "import_specifier" none [.leaf "identifier" (some "name") d.type]]],
    .leaf "string" (some "source") d.path]

def Draft.variableSketch (d : Draft) : Sketch :=
  .branch "variable_declarator" none [
    .leaf "identifier" (some "name") bindingName,
    .branch "type_annotation" (some "type") [.leaf "type_identifier" none d.type],
    .branch "object" (some "value") (d.entries.map DraftEntry.sketch)]

def Draft.sketch (d : Draft) : Sketch :=
  .branch "program" none [
    d.importSketch,
    .branch "export_statement" none [
      .branch "lexical_declaration" (some "declaration") [.word "kind" "const", d.variableSketch]]]

/-- A parser finds no error in the text of a draft, and gives a tree of its parts. -/
def Parser.Follows [Parser] (d : Draft) : Prop :=
  d.WellFormed → (Parser.root d.text.toList).hasError = false ∧
    d.sketch.fits d.text.toList (Parser.root d.text.toList) = true

/-- The name that a key stands for. -/
def spelledKey (key : String) : String := if isIdentifier key.toList then key else unquote key

/-- An outline holds what stands in a draft. -/
structure Outline.Reads (m : Outline) (d : Draft) : Prop where
  imports : ∃ named span, m.imports = [⟨none, some named, unquote d.path, span⟩] ∧
    named.locals = [d.type]
  binding : ∃ b, m.binding = some b ∧ (∃ span, b.annotation = some (span, d.type)) ∧
    b.object.properties.map (·.name) = d.entries.map fun e => spelledKey e.key

theorem unquote_of_isIdentifier {s : String} (h : isIdentifier s.toList = true) :
    unquote s = s := by
  unfold unquote
  split
  · next c d cs hs =>
    rw [hs] at h
    have hstart : Declaration.isIdentifierStart c = true := (Bool.and_eq_true_iff.mp h).1
    have hquote : (c == '\'' || c == '"' || c == '\x60') = false := by
      rw [← Bool.not_eq_true]
      intro hc
      simp only [Bool.or_eq_true, beq_iff_eq] at hc
      rcases hc with (rfl | rfl) | rfl <;> exact absurd hstart (by decide)
    rw [hquote]
    rfl
  · rfl

section

open Sketch

variable {source : List Char} {d : Draft} {n : Node}

/-- An import statement that fits is read as it is written. -/
theorem import?_of_fits (hd : isIdentifier d.type.toList = true)
    (h : d.importSketch.fits source n = true) :
    ∃ named, Reading.import? source n = some ⟨none, some named, unquote d.path, n.span⟩ ∧
      named.locals = [d.type] := by
  obtain ⟨path, hpath, hpathFits⟩ := exists_child_of_fits (f := "source") h rfl
  obtain ⟨clause, hclause, hclauseFits⟩ := ((namedChildren_of_fits h).find?
    (p := fun s => s.signature.2.1 == "import_clause") (q := fun c => c.kind == "import_clause")
    fun s n hs => by rw [kind_of_fits hs]).eq_singleton
  obtain ⟨braces, hbraces, hbracesFits⟩ := (namedChildren_of_fits hclauseFits).eq_singleton
  obtain ⟨specifier, hspecifier, hspecifierFits⟩ :=
    (namedChildren_of_fits hbracesFits).eq_singleton
  obtain ⟨name, hname, hnameFits⟩ := exists_child_of_fits (f := "name") hspecifierFits rfl
  have halias : specifier.child? "alias" = none := child?_eq_none_of_fits hspecifierFits rfl
  have hlocals : (Reading.namedImports source braces).locals = [d.type] := by
    have hkind : specifier.kind = "import_specifier" := kind_of_fits hspecifierFits
    simp only [Reading.namedImports, hspecifier, hkind, List.filter_cons, beq_self_eq_true,
      if_true, List.filter_nil, List.filterMap_cons, Reading.localName?, halias, hname,
      Option.none_or, Option.map_some, text_of_fits hnameFits, unquote_of_isIdentifier hd,
      List.filterMap_nil]
  have hkind : braces.kind = "named_imports" := kind_of_fits hbracesFits
  refine ⟨Reading.namedImports source braces, ?_, hlocals⟩
  have hadded : Reading.addClausePart source ⟨none, none, unquote d.path, n.span⟩ braces =
      ⟨none, some (Reading.namedImports source braces), unquote d.path, n.span⟩ := by
    rw [Reading.addClausePart, hkind, if_neg (by decide), if_pos rfl]
  simp only [Reading.import?, hpath, Option.map_some, Option.toList_eq_singleton_iff.mp hclause,
    hbraces, List.foldl_cons, List.foldl_nil, text_of_fits hpathFits, hadded]

/-- A pair that fits has the name that its key stands for. -/
theorem name_of_fits {e : DraftEntry} (h : e.sketch.fits source n = true) :
    n.kind = "pair" ∧ n.name source = spelledKey e.key := by
  have hkind : n.kind = "pair" := kind_of_fits h
  obtain ⟨key, hkey, hfits⟩ := exists_child_of_fits (f := "key") h rfl
  refine ⟨hkind, ?_⟩
  have hkeyKind : key.kind = keyKind e.key := kind_of_fits hfits
  simp only [Node.name, Node.key?, hkind, hkey, Option.elim_some, Node.spelled, hkeyKind,
    text_of_fits hfits, keyKind, spelledKey]
  cases isIdentifier e.key.toList with
  | true => rfl
  | false => rfl

/-- The elements of a literal that fits have the names that its keys stand for. -/
theorem names_of_fits {field : Option String} {entries : List DraftEntry}
    (h : (branch "object" field (entries.map DraftEntry.sketch)).fits source n = true) :
    (Reading.objectLiteral source n).properties.map (·.name) =
      entries.map fun e => spelledKey e.key := by
  have hmarks := congrArg (List.map Prod.fst) (objectLiteral_marks source n)
  rw [List.map_map, List.map_map] at hmarks
  have hall := namedChildren_of_fits h
  have hnamed : (entries.map DraftEntry.sketch).filter named = entries.map DraftEntry.sketch :=
    List.filter_eq_self.mpr fun s hs => by
      obtain ⟨e, -, rfl⟩ := List.mem_map.mp hs
      rfl
  rw [hnamed] at hall
  refine Eq.trans hmarks ?_
  rw [Node.elements]
  clear h hmarks hnamed
  generalize n.namedChildren = cs at hall
  induction entries generalizing cs with
  | nil =>
    rw [hall.eq_nil]
    rfl
  | cons e entries ih =>
    obtain ⟨c, rest, rfl, hfits, hrest⟩ := hall.eq_cons
    obtain ⟨hkind, hname⟩ := name_of_fits hfits
    rw [List.filter_cons_of_pos (by simp [hkind])]
    exact congrArg₂ List.cons hname (ih rest hrest)

/-- The variable of a declaration that fits is read as it is written. -/
theorem binding?_of_fits (start : Nat) (h : (branch "lexical_declaration" (some "declaration")
      [.word "kind" "const", d.variableSketch]).fits source n = true) :
    ∃ b, Reading.binding? source start n = .ok (some b) ∧
      (∃ span, b.annotation = some (span, d.type)) ∧
      b.object.properties.map (·.name) = d.entries.map fun e => spelledKey e.key := by
  obtain ⟨v, hv, hvFits⟩ := (namedChildren_of_fits h).eq_singleton
  obtain ⟨name, hname, hnameFits⟩ := exists_child_of_fits (f := "name") hvFits rfl
  obtain ⟨type, htype, htypeFits⟩ := exists_child_of_fits (f := "type") hvFits rfl
  obtain ⟨value, hvalue, hvalueFits⟩ := exists_child_of_fits (f := "value") hvFits rfl
  obtain ⟨t, ht, htFits⟩ := (namedChildren_of_fits htypeFits).eq_singleton
  have hkind : n.kind = "lexical_declaration" := kind_of_fits h
  have hvKind : v.kind = "variable_declarator" := kind_of_fits hvFits
  have hobject : value.kind = "object" := kind_of_fits hvalueFits
  have hdeclares : Reading.declaresBinding source v = true := by
    simp [Reading.declaresBinding, hvKind, hname, text_of_fits hnameFits]
  have hfound : n.namedChildren.find? (Reading.declaresBinding source) = some v := by
    rw [hv, List.find?_cons_of_pos hdeclares]
  have hannotation : Reading.annotation? source v = some (t.span, d.type) := by
    simp [Reading.annotation?, htype, ht, text_of_fits htFits]
  refine ⟨⟨(Reading.lineIndent source start).getD "", name.span.stop,
    Reading.objectLiteral source value, Reading.annotation? source v⟩, ?_, ⟨t.span, hannotation⟩,
    names_of_fits hvalueFits⟩
  simp [Reading.binding?, Reading.declaresVariables, hkind, hfound, hname, hvalue, hobject]

end

/-- A parser that follows a draft lets it be read, and what is found is what stands in it. -/
theorem read_draft [Parser] {d : Draft} (hd : d.WellFormed) (hfollows : Parser.Follows d) :
    ∃ m, read d.text.toList = .ok m ∧ m.Reads d := by
  obtain ⟨herror, hroot⟩ := hfollows hd
  obtain ⟨first, rest, hchildren, hfirst, hrest⟩ := (Sketch.namedChildren_of_fits hroot).eq_cons
  obtain ⟨second, rfl, hsecond⟩ := hrest.eq_singleton
  obtain ⟨named, himport, hlocals⟩ := import?_of_fits hd.type hfirst
  obtain ⟨declaration, hdeclaration, hfits⟩ :=
    Sketch.exists_child_of_fits (f := "declaration") hsecond rfl
  have hkind : first.kind = "import_statement" := Sketch.kind_of_fits hfirst
  have hkind' : second.kind = "export_statement" := Sketch.kind_of_fits hsecond
  obtain ⟨b, hb, hannotation, hnames⟩ := binding?_of_fits second.span.start hfits
  refine ⟨⟨true, [⟨none, some named, unquote d.path, first.span⟩], some b⟩, ?_,
    ⟨named, first.span, rfl, hlocals⟩, b, rfl, hannotation, hnames⟩
  have hadded : Reading.addStatement d.text.toList ⟨false, [], none⟩ first =
      .ok ⟨true, [⟨none, some named, unquote d.path, first.span⟩], none⟩ := by
    simp [Reading.addStatement, hkind, himport]
  have hadded' : Reading.addStatement d.text.toList
      ⟨true, [⟨none, some named, unquote d.path, first.span⟩], none⟩ second =
      .ok ⟨true, [⟨none, some named, unquote d.path, first.span⟩], some b⟩ := by
    simp [Reading.addStatement, Reading.declaration?, hkind', hdeclaration, hb, Except.map]
  refine read_eq_ok_iff.mpr ⟨herror, ?_⟩
  rw [hchildren, List.foldlM_cons, hadded]
  show (List.foldlM _ _ [second] : Except _ _) = _
  rw [List.foldlM_cons, hadded']
  rfl

end TypeLoom.ResolverModule
