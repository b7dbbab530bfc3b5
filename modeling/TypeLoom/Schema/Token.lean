import TypeLoom.Decimal.Binary64
import TypeLoom.Decimal.Signed64
import TypeLoom.Location
import TypeLoom.Schema.Quoted

/-!
# Tokens of the schema language

`Token.scan` cuts a text into tokens. It never fails: where no token can be read it ends with a
malformed one, and otherwise with an end token, so a reader that meets a problem always has a
position for it. Tabs advance the column by eight, byte order marks and carriage returns not at
all, and a comment ends a line at a carriage return as well as at a line feed. At most fifty
brackets may be open at a time.
-/

namespace TypeLoom.Schema

inductive Lexeme where
  | punctuator (text : String)
  | name (text : String)
  | int (value : Int)
  | float (value : Decimal.Binary64)
  | string (value : String)
  | malformed
  | endOfText
  deriving DecidableEq, Inhabited, Repr

structure Token where
  lexeme : Lexeme
  position : Position
  deriving DecidableEq, Inhabited, Repr

namespace Token

def isNameStart (c : Char) : Bool := c == '_' || c.isAlpha

def isNameChar (c : Char) : Bool := isNameStart c || c.isDigit

/-- Skips white space, commas and comments; `inComment` tells whether a comment is open. -/
def skip (inComment : Bool) (p : Position) : List Char → Position × List Char
  | [] => (p, [])
  | c :: cs =>
    if inComment then
      if c == '\r' || c == '\n' then skip false p.nextLine cs else skip true p cs
    else if c == '\uFEFF' || c == '\r' then skip false p cs
    else if c == '\t' then skip false (p.advance 8) cs
    else if c == '\n' then skip false p.nextLine cs
    else if c == ' ' || c == ',' then skip false (p.advance 1) cs
    else if c == '#' then skip true p cs
    else (p, c :: cs)

def endsNumber (c : Char) : Bool := " \n\r\t,#!$:=@|&()[]\x7b\x7d".toList.contains c

def allDigits (cs : List Char) : Bool := cs.all Char.isDigit

def isIntText (cs : List Char) : Bool :=
  match cs with
  | ['0'] | ['-', '0'] => true
  | [] | ['-'] => false
  | '0' :: _ => false
  | '-' :: '0' :: _ => false
  | _ :: ds => allDigits ds

/-- A sign, or a digit from one to eight, then digits. -/
def isExponentText : List Char → Bool
  | [] => false
  | c :: cs => (c == '-' || c == '+' || ('0' < c && c < '9')) && allDigits cs

/-- The text before and after the last character of a class. -/
def cutLast? (p : Char → Bool) (cs : List Char) : Option (List Char × List Char) :=
  let after := (cs.reverse.takeWhile (!p ·)).reverse
  if after.length == cs.length then none
  else some (cs.take (cs.length - after.length - 1), after)

def naturalOf (cs : List Char) : Nat := cs.foldl (fun n c => 10 * n + (c.toNat - '0'.toNat)) 0

def integerOf : List Char → Int
  | '-' :: cs => -(naturalOf cs : Int)
  | '+' :: cs => naturalOf cs
  | cs => naturalOf cs

/-- The number written as sign and digits, a fraction and an exponent. -/
def floatOf (whole fraction exponent : List Char) : Decimal.Binary64 :=
  let negative := whole.head? == some '-'
  let digits := (if negative then whole.drop 1 else whole) ++ fraction
  Decimal.ofDecimal negative (naturalOf digits) (integerOf exponent - fraction.length)

def isExponentMark (c : Char) : Bool := c == 'e' || c == 'E'

/-- An exponent needs at least one digit to be a number. -/
def hasDigit (cs : List Char) : Bool := cs.any Char.isDigit

def float? (cs : List Char) : Option Decimal.Binary64 :=
  match cutLast? isExponentMark cs with
  | some (mantissa, exponent) =>
    if isExponentText exponent && hasDigit exponent then
      match cutLast? (· == '.') mantissa with
      | some (whole, fraction) =>
        if isIntText whole && hasDigit fraction && allDigits fraction then
          some (floatOf whole fraction exponent)
        else none
      | none => if isIntText mantissa then some (floatOf mantissa [] exponent) else none
    else none
  | none =>
    match cutLast? (· == '.') cs with
    | some (whole, fraction) =>
      if isIntText whole && hasDigit fraction && allDigits fraction then
        some (floatOf whole fraction ['0'])
      else none
    | none => none

def int? (cs : List Char) : Option Int :=
  if isIntText cs then Decimal.signed64? (integerOf cs) else none

def numberLexeme (cs : List Char) : Lexeme :=
  if cs.any fun c => c == '.' || isExponentMark c then
    match float? cs with
    | some x => .float x
    | none => .malformed
  else match int? cs with
    | some n => .int n
    | none => .malformed

/-- Cuts a simple string after its opening quote: its raw contents and what follows the closing
quote. -/
def cutQuoted (escaped : Bool) : List Char → Option (List Char × List Char)
  | [] => none
  | c :: cs =>
    if c == '"' && !escaped then some ([], cs)
    else if c == '\n' then none
    else (cutQuoted (!escaped && c == '\\') cs).map fun (raw, rest) => (c :: raw, rest)

/-- Cuts a triple-quoted string after its opening quotes. -/
def cutTriple (escaped : Bool) : List Char → Option (List Char × List Char)
  | '"' :: '"' :: '"' :: cs =>
    if escaped then (cutTriple false cs).map fun (raw, rest) => ('"' :: '"' :: '"' :: raw, rest)
    else some ([], cs)
  | c :: cs => (cutTriple (c == '\\') cs).map fun (raw, rest) => (c :: raw, rest)
  | [] => none

/-- One token's lexeme, the text it was cut from and the text after it. -/
structure Cut where
  lexeme : Lexeme
  consumed : List Char
  rest : List Char

def isPunctuator (c : Char) : Bool := "()[]\x7b\x7d!$:=@|&".toList.contains c

/-- Cuts the first token; `none` when no token starts here. -/
def cut : List Char → Option Cut
  | '.' :: '.' :: '.' :: cs => some ⟨.punctuator "...", ['.', '.', '.'], cs⟩
  | '"' :: '"' :: '"' :: cs =>
    (cutTriple false cs).map fun (raw, rest) =>
      ⟨.string (String.ofList (Quoted.unindent raw)),
        ['"', '"', '"'] ++ raw ++ ['"', '"', '"'], rest⟩
  | '"' :: cs =>
    (cutQuoted false cs).bind fun (raw, rest) =>
      (Quoted.unescape raw).map fun value =>
        ⟨.string (String.ofList value), '"' :: raw ++ ['"'], rest⟩
  | c :: cs =>
    if isPunctuator c then some ⟨.punctuator c.toString, [c], cs⟩
    else if isNameStart c then
      let text := c :: cs.takeWhile isNameChar
      some ⟨.name (String.ofList text), text, cs.dropWhile isNameChar⟩
    else if c == '-' || c.isDigit then
      let text := c :: cs.takeWhile (!endsNumber ·)
      some ⟨numberLexeme text, text, cs.dropWhile (!endsNumber ·)⟩
    else none
  | [] => none

def isOpener (l : Lexeme) : Bool :=
  l == .punctuator "(" || l == .punctuator "[" || l == .punctuator "\x7b"

def isCloser (l : Lexeme) : Bool :=
  l == .punctuator ")" || l == .punctuator "]" || l == .punctuator "\x7d"

/-- How many brackets may be open at a time. -/
def maxDepth : Nat := 50

/-- `room` is the number of brackets that may still be opened. Every step consumes a character, so
the length of the text is fuel enough. -/
def scanFrom : Nat → Nat → Position → List Char → List Token
  | 0, _, p, _ => [⟨.malformed, p⟩]
  | fuel + 1, room, p, cs =>
    match skip false p cs with
    | (p, []) => [⟨.endOfText, p⟩]
    | (p, cs) =>
      match cut cs with
      | none => [⟨.malformed, p⟩]
      | some ⟨lexeme, consumed, rest⟩ =>
        if isOpener lexeme && room == 0 then [⟨.malformed, p⟩]
        else
          let room := if isOpener lexeme then room - 1
            else if isCloser lexeme then room + 1 else room
          ⟨lexeme, p⟩ :: scanFrom fuel room (p.after consumed) rest

/-- The tokens of a text. -/
def scan (cs : List Char) : List Token := scanFrom (cs.length + 1) maxDepth ⟨1, 1⟩ cs

end Token

end TypeLoom.Schema
