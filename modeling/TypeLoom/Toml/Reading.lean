import TypeLoom.Toml.Scalar

/-!
# Reading configuration text

A document is a list of lines: headers of tables, headers of items of table arrays, and
assignments. This module reads the lines; what the lines mean together is a matter of the document.
Values nest at most as deep as the text is long, which bounds the readers.
-/

namespace TypeLoom.Toml

/-- A table while it is being built. A table is implicit when no header of its own has been seen,
and dotted when it was made by a dotted key. -/
inductive Node where
  | value (v : Value)
  | table (implicit dotted : Bool) (entries : List (String × Node))
  | tables (items : List (List (String × Node)))
  deriving Inhabited

abbrev Entries := List (String × Node)

namespace Entries

def set (k : String) (n : Node) (es : Entries) : Entries :=
  es.map fun e => if e.1 == k then (k, n) else e

/-- Replaces the entries of the table at a path. Tables on the way that do not exist are made. Of
an array of tables the last item is meant. A path of dotted keys may neither pass a table with a
header nor end in a table that was not made by dotted keys. -/
def modifyAt (dotted : Bool) : List String → (Entries → Option Entries) → Entries → Option Entries
  | [], f, es => f es
  | k :: ks, f, es =>
    match es.lookup k with
    | none => do
      let inner ← modifyAt dotted ks f []
      return es ++ [(k, .table true dotted inner)]
    | some (.value _) => none
    | some (.tables items) => do
      if dotted && ks.isEmpty then none
      else
        let last ← items.getLast?
        let inner ← modifyAt dotted ks f last
        return es.set k (.tables (items.dropLast ++ [inner]))
    | some (.table implicit d entries) => do
      if dotted && (!implicit || (ks.isEmpty && !d)) then none
      else
        let inner ← modifyAt dotted ks f entries
        return es.set k (.table implicit d inner)

/-- Adds a key that must be new. -/
def addNew (k : String) (n : Node) (es : Entries) : Option Entries :=
  if es.any (·.1 == k) then none else some (es ++ [(k, n)])

/-- Assigns a value to a dotted key. -/
def assign (path : List String) (v : Value) (es : Entries) : Option Entries := do
  let k ← path.getLast?
  modifyAt true path.dropLast (addNew k (.value v)) es

end Entries

mutual

/-- The finished value of a node. -/
def Node.finish : Node → Value
  | .value v => v
  | .table _ _ es => .table (finishEntries es)
  | .tables items => .array (finishTables items)

def finishEntries : List (String × Node) → List (String × Value)
  | [] => []
  | (k, n) :: es => (k, n.finish) :: finishEntries es

def finishTables : List (List (String × Node)) → List Value
  | [] => []
  | es :: items => .table (finishEntries es) :: finishTables items

end

namespace Reading

abbrev Reader := StateT (List Char) Option

def peek : Reader (Option Char) := do return (← get).head?

def advance (n : Nat) : Reader Unit := modify (·.drop n)

def expect (c : Char) : Reader Unit := do
  if (← peek) == some c then advance 1 else failure

def startsWith (s : String) : Reader Bool := do return s.toList.isPrefixOf (← get)

def isBlank (c : Char) : Bool := c == ' ' || c == '\t'

def blanks : Reader Unit := modify (·.dropWhile isBlank)

/-- Control characters other than a tab. -/
def isControl (c : Char) : Bool := (c.toNat < 0x20 && c != '\t') || c.toNat == 0x7F

/-- Drops a line end, if there is one. -/
def dropLineEnd? : List Char → Option (List Char)
  | '\n' :: cs => some cs
  | '\r' :: '\n' :: cs => some cs
  | _ => none

def comment : Reader Unit := do
  if (← peek) == some '#' then
    modify (·.dropWhile (!isControl ·))

/-- The end of a line: blanks, perhaps a comment, and a line end or the end of the text. -/
def lineEnd : Reader Unit := do
  blanks
  comment
  match ← get with
  | [] => return
  | cs => match dropLineEnd? cs with
    | some rest => set rest
    | none => failure

/-- Blanks, comments and line ends, as long as fuel lasts. -/
def gapWithin : Nat → Reader Unit
  | 0 => return
  | fuel + 1 => do
    blanks
    comment
    match dropLineEnd? (← get) with
    | some rest => set rest; gapWithin fuel
    | none => return

def gap : Reader Unit := do gapWithin (← get).length

def hexCode? (cs : List Char) : Option Char :=
  if cs.all Scalar.isHexDigit then
    let n := Scalar.numberOf 16 cs
    if n < 0xD800 || (0xDFFF < n && n < 0x110000) then some (Char.ofNat n) else none
  else none

/-- An escape after its backslash: its character and what follows. -/
def escape? : List Char → Option (Char × List Char)
  | 'b' :: cs => some (Char.ofNat 0x08, cs)
  | 't' :: cs => some ('\t', cs)
  | 'n' :: cs => some ('\n', cs)
  | 'f' :: cs => some (Char.ofNat 0x0C, cs)
  | 'r' :: cs => some ('\r', cs)
  | '"' :: cs => some ('"', cs)
  | '\\' :: cs => some ('\\', cs)
  | 'u' :: cs => if 4 ≤ cs.length then (hexCode? (cs.take 4)).map (·, cs.drop 4) else none
  | 'U' :: cs => if 8 ≤ cs.length then (hexCode? (cs.take 8)).map (·, cs.drop 8) else none
  | _ => none

/-- A string on one line after its opening quote. -/
def simpleString (quote : Char) (escapes : Bool) : Nat → List Char → Option (List Char × List Char)
  | 0, _ => none
  | _, [] => none
  | fuel + 1, c :: cs =>
    if c == quote then some ([], cs)
    else if c == '\\' && escapes then do
      let (x, rest) ← escape? cs
      let (text, rest) ← simpleString quote escapes fuel rest
      return (x :: text, rest)
    else if isControl c then none
    else (simpleString quote escapes fuel cs).map fun (text, rest) => (c :: text, rest)

/-- Drops blanks and line ends after a backslash at the end of a line. -/
def dropFolded : List Char → List Char
  | [] => []
  | c :: cs => if c == ' ' || c == '\t' || c == '\n' || c == '\r' then dropFolded cs else c :: cs

/-- Whether only blanks come before the next line end. -/
def foldsLine (cs : List Char) : Bool := (dropLineEnd? (cs.dropWhile isBlank)).isSome

/-- A string over several lines after its opening quotes. Up to two quotes may stand right before
the closing ones. -/
def longString (quote : Char) (escapes : Bool) : Nat → List Char → Option (List Char × List Char)
  | 0, _ => none
  | _, [] => none
  | fuel + 1, c :: cs =>
    let quotes := min 5 ((c :: cs).takeWhile (· == quote)).length
    if 3 ≤ quotes then some (List.replicate (quotes - 3) quote, (c :: cs).drop quotes)
    else if c == '\\' && escapes then
      if foldsLine cs then longString quote escapes fuel (dropFolded cs)
      else do
        let (x, rest) ← escape? cs
        let (text, rest) ← longString quote escapes fuel rest
        return (x :: text, rest)
    else match dropLineEnd? (c :: cs) with
      | some rest => (longString quote escapes fuel rest).map fun (t, r) => ('\n' :: t, r)
      | none =>
        if isControl c then none
        else (longString quote escapes fuel cs).map fun (text, rest) => (c :: text, rest)

/-- Drops a line end right after the opening quotes. -/
def dropFirstLineEnd (cs : List Char) : List Char := (dropLineEnd? cs).getD cs

/-- Runs a reader of a list on what is left. -/
def reading {α : Type} (f : List Char → Option (α × List Char)) : Reader α := do
  match f (← get) with
  | some (x, rest) => set rest; return x
  | none => failure

def quotedOnLine (quote : Char) : Reader String := do
  advance 1
  let text ← reading fun cs => simpleString quote (quote == '"') (cs.length + 1) cs
  return String.ofList text

def quoted (quote : Char) : Reader String := do
  if ← startsWith (String.ofList [quote, quote, quote]) then
    advance 3
    modify dropFirstLineEnd
    let text ← reading fun cs => longString quote (quote == '"') (cs.length + 1) cs
    return String.ofList text
  else quotedOnLine quote

def isBareChar (c : Char) : Bool := c.isAlphanum || c == '_' || c == '-'

def simpleKey : Reader String := do
  match ← peek with
  | some '"' => quotedOnLine '"'
  | some '\'' => quotedOnLine '\''
  | _ =>
    let word := (← get).takeWhile isBareChar
    if word.isEmpty then failure
    else
      advance word.length
      return String.ofList word

def keyWithin : Nat → Reader (List String)
  | 0 => failure
  | fuel + 1 => do
    let k ← simpleKey
    blanks
    if (← peek) == some '.' then
      advance 1
      blanks
      return k :: (← keyWithin fuel)
    else return [k]

/-- A key, cut at its dots. -/
def key : Reader (List String) := do keyWithin (← get).length

def word : Reader Value := do
  let (w, rest) := Scalar.cutWord (← get)
  set rest
  match Scalar.value? w with
  | some v => return v
  | none => failure

mutual

def valueWithin : Nat → Reader Value
  | 0 => failure
  | fuel + 1 => do
    match ← peek with
    | some '"' => return .string (← quoted '"')
    | some '\'' => return .string (← quoted '\'')
    | some '[' =>
      advance 1
      gap
      return .array (← itemsWithin fuel)
    | some '\x7b' =>
      advance 1
      blanks
      if (← peek) == some '\x7d' then
        advance 1
        return .table []
      else return .table (finishEntries (← inlineWithin fuel []))
    | _ => word

/-- The items of an array up to its closing bracket. -/
def itemsWithin : Nat → Reader (List Value)
  | 0 => failure
  | fuel + 1 => do
    if (← peek) == some ']' then
      advance 1
      return []
    else
      let v ← valueWithin fuel
      gap
      if (← peek) == some ',' then
        advance 1
        gap
        return v :: (← itemsWithin fuel)
      else
        expect ']'
        return [v]

/-- The entries of an inline table up to its closing brace. -/
def inlineWithin : Nat → Entries → Reader Entries
  | 0, _ => failure
  | fuel + 1, es => do
    blanks
    let path ← key
    expect '='
    blanks
    let v ← valueWithin fuel
    blanks
    match es.assign path v with
    | none => failure
    | some es =>
      if (← peek) == some ',' then
        advance 1
        inlineWithin fuel es
      else
        expect '\x7d'
        return es

end

def value : Reader Value := do valueWithin (2 * (← get).length + 2)

/-- A line of a document that says something. -/
inductive Line where
  | header (path : List String)
  | item (path : List String)
  | assignment (path : List String) (value : Value)
  deriving Inhabited

def line : Reader Line := do
  if ← startsWith "[[" then
    advance 2
    blanks
    let path ← key
    expect ']'
    expect ']'
    return .item path
  else if ← startsWith "[" then
    advance 1
    blanks
    let path ← key
    expect ']'
    return .header path
  else
    let path ← key
    expect '='
    blanks
    return .assignment path (← value)

def linesWithin : Nat → Reader (List Line)
  | 0 => failure
  | fuel + 1 => do
    gap
    if (← get).isEmpty then return []
    else
      let l ← line
      lineEnd
      return l :: (← linesWithin fuel)

/-- The lines of a text, after a byte order mark if there is one. -/
def lines? (cs : List Char) : Option (List Line) :=
  let cs := if cs.head? == some '\uFEFF' then cs.drop 1 else cs
  ((linesWithin (cs.length + 1)).run cs).map (·.1)

end Reading

end TypeLoom.Toml
