import TypeLoom.Text.Blank

/-!
# The contents of quoted strings

`unescape` reads the text between simple quotes, `unindent` the text between triple quotes. The
escape `\b` stands for U+0010. A four-digit code may start with a plus sign; surrogate codes are
refused.
-/

namespace TypeLoom.Schema.Quoted

def hexDigit? (c : Char) : Option Nat :=
  if '0' ≤ c && c ≤ '9' then some (c.toNat - '0'.toNat)
  else if 'a' ≤ c && c ≤ 'f' then some (c.toNat - 'a'.toNat + 10)
  else if 'A' ≤ c && c ≤ 'F' then some (c.toNat - 'A'.toNat + 10)
  else none

def hexNumber? (cs : List Char) : Option Nat :=
  cs.foldlM (fun n c => (hexDigit? c).map (16 * n + ·)) 0

/-- The character with a four-digit code. -/
def codePoint? (a b c d : Char) : Option Char := do
  let digits := if a == '+' then [b, c, d] else [a, b, c, d]
  let n ← hexNumber? digits
  if 0xD800 ≤ n && n ≤ 0xDFFF then none else some (Char.ofNat n)

def escaped? : Char → Option Char
  | '"' => some '"'
  | '\\' => some '\\'
  | '/' => some '/'
  | 'b' => some (Char.ofNat 0x10)
  | 'f' => some (Char.ofNat 0x0C)
  | 'n' => some '\n'
  | 'r' => some '\r'
  | 't' => some '\t'
  | _ => none

def unescape : List Char → Option (List Char)
  | [] => some []
  | '\\' :: 'u' :: a :: b :: c :: d :: cs => do
    let x ← codePoint? a b c d
    let rest ← unescape cs
    return x :: rest
  | '\\' :: e :: cs => do
    let x ← escaped? e
    let rest ← unescape cs
    return x :: rest
  | '\\' :: [] => none
  | c :: cs => (unescape cs).map (c :: ·)

/-- The text with `\"""` read as three quotes. -/
def unescapeTriple : List Char → List Char
  | '\\' :: '"' :: '"' :: '"' :: cs => '"' :: '"' :: '"' :: unescapeTriple cs
  | c :: cs => c :: unescapeTriple cs
  | [] => []

/-- The length in bytes of the blank start of a line that is not blank. -/
def indentation? (line : List Char) : Option Nat :=
  if line.all Text.isBlank then none
  else some ((line.takeWhile Text.isBlank).foldl (fun n c => n + c.utf8Size) 0)

/-- Drops the first `n` bytes; nothing is left of a line that is shorter. -/
def dropBytes : Nat → List Char → List Char
  | 0, cs => cs
  | _ + 1, [] => []
  | n + 1, c :: cs => dropBytes (n + 1 - c.utf8Size) cs

/-- Drops blank lines at both ends. -/
def dropBlankLines (lines : List (List Char)) : List (List Char) :=
  let blank (l : List Char) := l.all Text.isBlank
  ((lines.dropWhile blank).reverse.dropWhile blank).reverse

/-- The value of a triple-quoted text: the common indentation of all lines but the first is
removed, and blank lines at both ends are dropped. -/
def unindent (cs : List Char) : List Char :=
  match Text.lines cs with
  | [] => []
  | first :: rest =>
    let common := (rest.filterMap indentation?).min?.getD 0
    let kept := dropBlankLines (first :: rest.map (dropBytes common))
    ['\n'].intercalate (kept.map unescapeTriple)

end TypeLoom.Schema.Quoted
