import TypeLoom.Declaration.Text
import TypeLoom.Proofs.Token.Spelling

/-!
# Types as they are read

`TypeExpr.read?` reads the text of a type by the precedence of TypeScript: `[]` binds tighter than
`|`, which binds tighter than the arrow of a function. So what follows an arrow is a whole type with
all its alternatives, and a function type is an alternative only if it stands alone or in
parentheses. Each level of the grammar takes one unit of fuel and one of four levels takes a token,
so four times the number of tokens is fuel enough.
-/

namespace TypeLoom.Declaration

open TypeScript (Lexeme Token)

namespace TypeExpr

/-- The words that are types by themselves. -/
def keywords : List (String × TypeExpr) :=
  [("any", .any), ("boolean", .boolean), ("null", .null), ("number", .number), ("string", .string),
    ("undefined", .undefined)]

/-- The word for a type that has one. -/
def keyword? : TypeExpr → Option String
  | .any => some "any"
  | .boolean => some "boolean"
  | .null => some "null"
  | .number => some "number"
  | .string => some "string"
  | .undefined => some "undefined"
  | _ => none

def isFunction : TypeExpr → Bool
  | .function .. => true
  | _ => false

/-- Alternatives as one type: a single one stands for itself. -/
def ofAlternatives : List TypeExpr → TypeExpr
  | [t] => t
  | ts => .union ts

/-! ### Types up to the shape of their unions -/

mutual

/-- The alternatives of a type, those of unions in it among them; what is no union has itself. -/
def alternatives : TypeExpr → List TypeExpr
  | .array item => [.array (ofAlternatives item.alternatives)]
  | .function parameters result =>
    [.function (flattenedParameters parameters) (ofAlternatives result.alternatives)]
  | .reference name arguments => [.reference name (flattenedTypes arguments)]
  | .union members => allAlternatives members
  | t => [t]

def allAlternatives : List TypeExpr → List TypeExpr
  | [] => []
  | t :: ts => t.alternatives ++ allAlternatives ts

def flattenedTypes : List TypeExpr → List TypeExpr
  | [] => []
  | t :: ts => ofAlternatives t.alternatives :: flattenedTypes ts

def flattenedParameters : List (String × TypeExpr) → List (String × TypeExpr)
  | [] => []
  | (n, t) :: ps => (n, ofAlternatives t.alternatives) :: flattenedParameters ps

end

/-- A type with unions of unions made one, and without unions of one type, at any depth. -/
def flattened (t : TypeExpr) : TypeExpr := ofAlternatives t.alternatives

mutual

/-- Whether a function among the alternatives of a type is the only one, at any depth. -/
def functionsAlone : TypeExpr → Bool
  | .array item => item.functionsAlone
  | .function parameters result => parametersAlone parameters && result.functionsAlone
  | .reference _ arguments => allAlone arguments
  | .union members =>
    ((allAlternatives members).length == 1 || (allAlternatives members).all (!·.isFunction)) &&
      allAlone members
  | _ => true

def allAlone : List TypeExpr → Bool
  | [] => true
  | t :: ts => t.functionsAlone && allAlone ts

def parametersAlone : List (String × TypeExpr) → Bool
  | [] => true
  | (_, t) :: ps => t.functionsAlone && parametersAlone ps

end

/-- Whether a text is an identifier: a word that is not reserved. -/
def isName (s : String) : Bool :=
  match s.toList with
  | [] => false
  | c :: cs => Token.isNameStart c && cs.all Token.isNameChar && !Token.reservedWords.contains s

/-- Types that refer by identifiers that are no types by themselves, with identifiers as parameters
and no unions of nothing. -/
inductive Written : TypeExpr → Prop where
  | keyword {t : TypeExpr} {w : String} (hw : t.keyword? = some w) : Written t
  | array {item : TypeExpr} (hi : Written item) : Written (.array item)
  | function {parameters : List (String × TypeExpr)} {result : TypeExpr}
      (hn : ∀ p ∈ parameters, isName p.1 = true) (hp : ∀ p ∈ parameters, Written p.2)
      (hr : Written result) : Written (.function parameters result)
  | reference {name : String} {arguments : List TypeExpr} (hn : isName name = true)
      (hk : keywords.lookup name = none) (ha : ∀ a ∈ arguments, Written a) :
      Written (.reference name arguments)
  | union {m : TypeExpr} {ms : List TypeExpr} (hm : Written m) (hms : ∀ u ∈ ms, Written u) :
      Written (.union (m :: ms))

end TypeExpr

namespace TypeReading

open TypeExpr (keywords isName ofAlternatives)

/-- A punctuator as a token. -/
def mark (text : String) : Lexeme := ⟨.punctuator, text⟩

/-- A word as a token. -/
def word (text : String) : Lexeme := ⟨.word, text⟩

/-- What is left after a token, if it comes next. -/
def after? (l : Lexeme) : List Lexeme → Option (List Lexeme)
  | [] => none
  | k :: ls => if k = l then some ls else none

/-- A type and the pairs of brackets after it. -/
def arrays (t : TypeExpr) : List Lexeme → TypeExpr × List Lexeme
  | k :: l :: ls => if k = mark "[" ∧ l = mark "]" then arrays (.array t) ls else (t, k :: l :: ls)
  | ls => (t, ls)

/-- Whether the rest of a parenthesis is that of a function: it is closed or holds a parameter. -/
def startsParameters : List Lexeme → Bool
  | l :: ls => l == mark ")" || (l.kind == .word && ls.head? == some (mark ":"))
  | [] => false

/-- Whether a function type starts here. -/
def startsFunction : List Lexeme → Bool
  | l :: ls => l == mark "(" && startsParameters ls
  | [] => false

mutual

/-- A type: a function, or one alternative or more. -/
def typeWithin : Nat → List Lexeme → Option (TypeExpr × List Lexeme)
  | 0, _ => none
  | n + 1, ls =>
    if startsFunction ls then do
      let (parameters, ls) ← parametersWithin n (ls.drop 1)
      let ls ← after? (mark "=>") ls
      let (result, ls) ← typeWithin n ls
      return (.function parameters result, ls)
    else do
      let (t, ls) ← operandWithin n ls
      let (ts, ls) ← moreWithin n ls
      return (ofAlternatives (t :: ts), ls)

/-- Further alternatives, each after a bar. -/
def moreWithin : Nat → List Lexeme → Option (List TypeExpr × List Lexeme)
  | 0, _ => none
  | n + 1, ls =>
    match after? (mark "|") ls with
    | none => some ([], ls)
    | some ls => do
      let (t, ls) ← operandWithin n ls
      let (ts, ls) ← moreWithin n ls
      return (t :: ts, ls)

/-- An alternative: a primary type and the brackets after it. -/
def operandWithin : Nat → List Lexeme → Option (TypeExpr × List Lexeme)
  | 0, _ => none
  | n + 1, ls => do
    let (t, ls) ← primaryWithin n ls
    return arrays t ls

/-- A type in parentheses, a keyword, or a name with or without type arguments. -/
def primaryWithin : Nat → List Lexeme → Option (TypeExpr × List Lexeme)
  | 0, _ => none
  | _, [] => none
  | n + 1, l :: ls =>
    if l = mark "(" then do
      let (t, ls) ← typeWithin n ls
      let ls ← after? (mark ")") ls
      return (t, ls)
    else if l.kind = .word then
      match keywords.lookup l.text with
      | some t => some (t, ls)
      | none =>
        if isName l.text then
          match after? (mark "<") ls with
          | none => some (.reference l.text [], ls)
          | some ls => do
            let (ts, ls) ← typesWithin n ls
            let ls ← after? (mark ">") ls
            return (.reference l.text ts, ls)
        else none
    else none

/-- Types with commas between them. -/
def typesWithin : Nat → List Lexeme → Option (List TypeExpr × List Lexeme)
  | 0, _ => none
  | n + 1, ls => do
    let (t, ls) ← typeWithin n ls
    match after? (mark ",") ls with
    | none => return ([t], ls)
    | some ls => do
      let (ts, ls) ← typesWithin n ls
      return (t :: ts, ls)

/-- Parameters with their types, up to the closing parenthesis. -/
def parametersWithin : Nat → List Lexeme → Option (List (String × TypeExpr) × List Lexeme)
  | 0, _ => none
  | _, [] => none
  | n + 1, l :: ls =>
    if l = mark ")" then some ([], ls)
    else if isName l.text then do
      let ls ← after? (mark ":") ls
      let (t, ls) ← typeWithin n ls
      match after? (mark ",") ls with
      | none => do
        let ls ← after? (mark ")") ls
        return ([(l.text, t)], ls)
      | some ls => do
        let (parameters, ls) ← parametersWithin n ls
        return ((l.text, t) :: parameters, ls)
    else none

end

/-- The fuel that is enough for some tokens. -/
def fuel (ls : List Lexeme) : Nat := 4 * ls.length + 4

end TypeReading

open TypeReading in
/-- The type that a text stands for, if it is that of a type and of nothing else. -/
def TypeExpr.read? (text : String) : Option TypeExpr :=
  match Token.scan text.toList with
  | .error _ => none
  | .ok ts =>
    let ls := (ts.filter (!·.isComment)).map Token.lexeme
    match typeWithin (fuel ls) ls with
    | some (t, []) => some t
    | _ => none

end TypeLoom.Declaration
