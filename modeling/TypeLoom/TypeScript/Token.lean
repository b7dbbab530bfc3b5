import TypeLoom.ResolverModule.Node

/-!
# Tokens of TypeScript

`Token.scan` cuts the text of a TypeScript module into tokens, comments included. Offsets count
characters and rows count line feeds, both from zero. A token knows whether a line ended before it
and whether it touches the token before it; comments do not count as tokens for either. Angle
brackets are always tokens of their own, so that type arguments can be told from shifts later on.

A slash starts a regular expression where an operand may stand, which the token before it tells.
Where a template has a hole, the text up to the hole and from it on are tokens.
-/

namespace TypeLoom.TypeScript

open ResolverModule (Span)

inductive TokenKind where
  | word
  | privateName
  | number
  | string
  | template
  | templateHead
  | templateMiddle
  | templateTail
  | regex
  | punctuator
  | comment
  | hashbang
  deriving DecidableEq, Inhabited, Repr

structure Token where
  kind : TokenKind
  text : String
  span : Span
  row : Nat
  endRow : Nat
  newlineBefore : Bool
  tight : Bool
  deriving DecidableEq, Inhabited, Repr

namespace Token

/-- Blanks between tokens. -/
def isSpace (c : Char) : Bool :=
  let n := c.toNat
  (0x09 ≤ n && n ≤ 0x0D) || n == 0x20 || n == 0xA0 || n == 0x1680 || (0x2000 ≤ n && n ≤ 0x200B) ||
    n == 0x2028 || n == 0x2029 || n == 0x202F || n == 0x205F || n == 0x2060 || n == 0x3000 ||
    n == 0xFEFF

/-- Characters that end a line for the purpose of ending a statement. -/
def isLineEnd (c : Char) : Bool := c == '\n' || c.toNat == 0x2028 || c.toNat == 0x2029

/-- Characters that end a line comment. -/
def endsLineComment (c : Char) : Bool := isLineEnd c || c == '\r'

/-- Characters of a name: all but controls, blanks and those with a meaning of their own. -/
def isNameChar (c : Char) : Bool :=
  !(c.toNat < 0x20 || isSpace c ||
    ":;\x60\"'@#.,|^&<=>+-*/\\%?!~()[]\x7b\x7d".toList.contains c)

def isNameStart (c : Char) : Bool := isNameChar c && !c.isDigit

def isHex (c : Char) : Bool := c.isDigit || ('a' ≤ c && c ≤ 'f') || ('A' ≤ c && c ≤ 'F')

/-- The length of an escape after its backslash. -/
def escapeLength : List Char → Option Nat
  | 'x' :: a :: b :: _ => if isHex a && isHex b then some 3 else none
  | 'u' :: '\x7b' :: cs =>
    let digits := cs.takeWhile isHex
    if !digits.isEmpty && (cs.drop digits.length).head? == some '\x7d' then some (digits.length + 3)
    else none
  | 'u' :: a :: b :: c :: d :: _ => if [a, b, c, d].all isHex then some 5 else none
  | 'x' :: _ => none
  | 'u' :: _ => none
  | '\r' :: '\n' :: _ => some 2
  | _ :: _ => some 1
  | [] => none

/-- The length of a string after its opening quote. -/
def stringLength (quote : Char) : Nat → List Char → Option Nat
  | 0, _ => none
  | _, [] => none
  | fuel + 1, c :: cs =>
    if c == quote then some 1
    else if c == '\\' then do
      let n ← escapeLength cs
      let rest ← stringLength quote fuel (cs.drop n)
      return n + 1 + rest
    else if c == '\n' || c == '\r' then none
    else (stringLength quote fuel cs).map (· + 1)

/-- The length of a piece of a template up to its closing quote or its next hole, and whether it
ends at a hole. -/
def templateLength : List Char → Option (Nat × Bool)
  | [] => none
  | '\x60' :: _ => some (1, false)
  | '$' :: '\x7b' :: _ => some (2, true)
  | '\\' :: _ :: cs => (templateLength cs).map fun (n, hole) => (n + 2, hole)
  | _ :: cs => (templateLength cs).map fun (n, hole) => (n + 1, hole)

/-- The length of a regular expression after its opening slash, without its flags. -/
def regexLength (inClass : Bool) : List Char → Option Nat
  | [] => none
  | '\\' :: c :: cs => if isLineEnd c then none else (regexLength inClass cs).map (· + 2)
  | c :: cs =>
    if isLineEnd c then none
    else if c == '/' && !inClass then some 1
    else (regexLength (c == '[' || (inClass && c != ']')) cs).map (· + 1)

def isDigitOrGap (c : Char) : Bool := c.isDigit || c == '_'

def digitsLength (cs : List Char) : Nat := (cs.takeWhile isDigitOrGap).length

/-- The length of a fraction with its point, zero if there is none. -/
def fractionLength (cs : List Char) : Nat :=
  if cs.head? == some '.' then 1 + digitsLength (cs.drop 1) else 0

/-- The length of an exponent, zero if there is none. -/
def exponentLength : List Char → Nat
  | e :: c :: cs =>
    if e == 'e' || e == 'E' then
      if c.isDigit then digitsLength (c :: cs) + 1
      else if (c == '+' || c == '-') && 0 < digitsLength cs then digitsLength cs + 2
      else 0
    else 0
  | _ => 0

/-- The length of the mark of a big integer, zero if there is none. -/
def bigMarkLength (cs : List Char) : Nat := if cs.head? == some 'n' then 1 else 0

def isRadixMark (c : Char) : Bool := "xXoObB".toList.contains c

def numberLength (cs : List Char) : Nat :=
  match cs with
  | '0' :: c :: rest =>
    if isRadixMark c then 2 + (rest.takeWhile fun d => d.isAlphanum || d == '_').length
    else decimal cs
  | cs => decimal cs
where
  decimal (cs : List Char) : Nat :=
    let whole := digitsLength cs
    let rest := cs.drop whole
    let fraction := fractionLength rest
    let rest := rest.drop fraction
    let exponent := exponentLength rest
    whole + (fraction + (exponent + bigMarkLength (rest.drop exponent)))

/-- The length of a comment between `/*` and `*/`, with its end, after its start. -/
def blockCommentLength : List Char → Option Nat
  | '*' :: '/' :: _ => some 2
  | _ :: cs => (blockCommentLength cs).map (· + 1)
  | [] => none

/-- Punctuators, longer ones before those they start with. -/
def punctuators : List (List Char) :=
  ["...", "===", "!==", "**=", "&&=", "||=", "??=", "=>", "==", "!=", "<=", "**", "++", "--", "+=",
    "-=", "*=", "/=", "%=", "&=", "|=", "^=", "&&", "||", "??", "?.", "\x7b", "\x7d", "(", ")", "[",
    "]", ";", ",", "<", ">", "+", "-", "*", "/", "%", "&", "|", "^", "!", "~", "?", ":", "=", ".",
    "@"].map String.toList

def punctuatorLength (cs : List Char) : Option Nat :=
  match cs with
  | '?' :: '.' :: d :: _ => if d.isDigit then some 1 else some 2
  | cs => (punctuators.find? (·.isPrefixOf cs)).map (·.length)

/-- Kind and length of the token at the start of a text. `operand` tells whether an operand may
stand here, `hole` whether a closing brace ends the hole of a template. -/
def cut (operand hole : Bool) (cs : List Char) : Option (TokenKind × Nat) :=
  match cs with
  | '/' :: '/' :: rest => some (.comment, 2 + (rest.takeWhile (!endsLineComment ·)).length)
  | '/' :: '*' :: rest => (blockCommentLength rest).map fun n => (.comment, n + 2)
  | '/' :: rest =>
    if operand then
      (regexLength false rest).map fun n =>
        (.regex, n + 1 + ((rest.drop n).takeWhile Char.isAlpha).length)
    else (punctuatorLength cs).map fun n => (.punctuator, n)
  | '\x60' :: rest =>
    (templateLength rest).map fun (n, open_) =>
      (if open_ then .templateHead else .template, n + 1)
  | '\x7d' :: rest =>
    if hole then
      (templateLength rest).map fun (n, open_) =>
        (if open_ then .templateMiddle else .templateTail, n + 1)
    else some (.punctuator, 1)
  | '#' :: rest =>
    match rest.takeWhile isNameChar with
    | [] => none
    | name => some (.privateName, name.length + 1)
  | '.' :: d :: _ =>
    if d.isDigit then some (.number, numberLength cs)
    else (punctuatorLength cs).map fun n => (.punctuator, n)
  | c :: rest =>
    if c == '\'' || c == '"' then
      (stringLength c (rest.length + 1) rest).map fun n => (.string, n + 1)
    else if c.isDigit then some (.number, numberLength cs)
    else if isNameStart c then some (.word, (cs.takeWhile isNameChar).length)
    else (punctuatorLength cs).map fun n => (.punctuator, n)
  | [] => none

/-- Words after which an operand follows. -/
def wordsBeforeOperand : List String :=
  ["return", "typeof", "case", "in", "of", "instanceof", "new", "delete", "void", "throw", "do",
    "else", "await", "yield", "default"]

/-- Whether an operand may follow a token. -/
def operandAfter (kind : TokenKind) (text : String) : Bool :=
  match kind with
  | .word => wordsBeforeOperand.contains text
  | .templateHead | .templateMiddle => true
  | .punctuator => !([")", "]", "\x7d", "++", "--"].contains text)
  | .hashbang => true
  | _ => false

/-- The braces that are open after a token, innermost first; `true` stands for the hole of a
template. -/
def bracesAfter (braces : List Bool) (kind : TokenKind) (text : String) : List Bool :=
  match kind with
  | .templateHead => true :: braces
  | .templateTail => braces.drop 1
  | .punctuator =>
    if text == "\x7b" then false :: braces
    else if text == "\x7d" then braces.drop 1
    else braces
  | _ => braces

/-- Where a scan stands. -/
structure Place where
  offset : Nat
  row : Nat
  newline : Bool
  previousStop : Option Nat
  operand : Bool
  braces : List Bool

def countRows (cs : List Char) : Nat := cs.count '\n'

/-- The place after a blank. -/
def Place.afterSpace (p : Place) (c : Char) : Place :=
  { p with offset := p.offset + 1, newline := p.newline || isLineEnd c,
           row := if c == '\n' then p.row + 1 else p.row }

/-- Whether a closing brace ends the hole of a template. -/
def Place.inHole (p : Place) : Bool := p.braces.head? == some true

/-- Passes over blanks. -/
def skipSpace (p : Place) : List Char → Place × List Char
  | [] => (p, [])
  | c :: cs => if isSpace c then skipSpace (p.afterSpace c) cs else (p, c :: cs)

/-- The token of a kind and length at a place, and the place after it. -/
def take (p : Place) (kind : TokenKind) (n : Nat) (cs : List Char) : Token × Place :=
  let chars := cs.take n
  let text := String.ofList chars
  let stop := p.offset + chars.length
  let endRow := p.row + countRows chars
  let token : Token :=
    { kind, text, span := ⟨p.offset, stop⟩, row := p.row, endRow, newlineBefore := p.newline,
      tight := p.previousStop == some p.offset }
  if kind == .comment then
    (token, { p with offset := stop, row := endRow, newline := p.newline || chars.any isLineEnd })
  else
    (token, { offset := stop, row := endRow, newline := false, previousStop := some stop,
              operand := operandAfter kind text, braces := bracesAfter p.braces kind text })

/-- Cuts tokens to the end of a text; fails at the offset where none can be cut. Every token has a
character, so the length of the text is fuel enough. -/
def scanFrom : Nat → Place → List Char → Except Nat (List Token)
  | 0, p, _ => .error p.offset
  | fuel + 1, p, cs =>
    match skipSpace p cs with
    | (_, []) => .ok []
    | (p, cs) =>
      match cut p.operand p.inHole cs with
      | none => .error p.offset
      | some (kind, n) =>
        let (token, next) := take p kind n cs
        (scanFrom fuel next (cs.drop n)).map (token :: ·)

/-- The start of a text, which is the start of a line. -/
def startPlace : Place :=
  { offset := 0, row := 0, newline := true, previousStop := none, operand := true, braces := [] }

/-- The tokens of a text. A first line that starts with `#!` is one token. -/
def scanText (cs : List Char) : Except Nat (List Token) :=
  match cs with
  | '#' :: '!' :: rest =>
    let n := 2 + (rest.takeWhile (· != '\n')).length
    let (token, next) := take startPlace .hashbang n cs
    (scanFrom (cs.length + 1) next (cs.drop n)).map (token :: ·)
  | cs => scanFrom (cs.length + 1) startPlace cs

/-- The tokens of a module, in which no null character can stand. -/
def scan (cs : List Char) : Except Nat (List Token) :=
  if cs.contains '\x00' then .error (cs.idxOf '\x00') else scanText cs

def isComment (t : Token) : Bool := t.kind == .comment

/-- Whether a token is a word or punctuator with a given text. -/
def spells (text : String) (t : Token) : Bool :=
  (t.kind == .word || t.kind == .punctuator) && t.text == text

/-- Words that cannot name anything. -/
def reservedWords : List String :=
  ["break", "case", "catch", "class", "const", "continue", "debugger", "default", "delete", "do",
    "else", "enum", "export", "extends", "false", "finally", "for", "function", "if", "import",
    "in", "instanceof", "new", "null", "return", "super", "switch", "this", "throw", "true", "try",
    "typeof", "var", "void", "while", "with"]

def isIdentifier (t : Token) : Bool := t.kind == .word && !reservedWords.contains t.text

end Token

end TypeLoom.TypeScript
