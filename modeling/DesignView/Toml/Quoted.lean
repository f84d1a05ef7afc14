import DesignView.Toml.Scalar

/-!
Quoted strings of TOML. Each reader starts after the opening quotes and returns the content and
what follows the closing quotes. Strings in double quotes have escapes, strings in single quotes
have none; three quotes let a string run over several lines. There a line break right after the
quotes is left out, and any other is kept as it is written, with its carriage return if it has one.
-/

namespace DesignView.Toml

def isPlain (c : Char) : Bool := c = '\t' ∨ (' ' ≤ c ∧ c ≠ '\x7f')

def isBlank (c : Char) : Bool := c = ' ' ∨ c = '\t'

def ofHex? (ds : List Char) : Option Char :=
  let n := ofDigits 16 ds
  if ds.all (isDigitOf 16) ∧ n.isValidChar then some (Char.ofNat n) else none

def escape? : Char → Option Char
  | 'b' => some '\x08'
  | 't' => some '\t'
  | 'n' => some '\n'
  | 'f' => some '\x0c'
  | 'r' => some '\r'
  | 'e' => some '\x1b'
  | '"' => some '"'
  | '\\' => some '\\'
  | _ => none

def consRead (c? : Option Char) (read? : Option (List Char × List Char)) :
    Option (List Char × List Char) := do
  let c ← c?
  let (content, rest) ← read?
  return (c :: content, rest)

def basic : List Char → Option (List Char × List Char)
  | [] => none
  | '"' :: rest => some ([], rest)
  | '\\' :: 'x' :: a :: b :: rest => consRead (ofHex? [a, b]) (basic rest)
  | '\\' :: 'u' :: a :: b :: c :: d :: rest => consRead (ofHex? [a, b, c, d]) (basic rest)
  | '\\' :: 'U' :: a :: b :: c :: d :: e :: f :: g :: h :: rest =>
    consRead (ofHex? [a, b, c, d, e, f, g, h]) (basic rest)
  | '\\' :: c :: rest => consRead (escape? c) (basic rest)
  | c :: rest => if isPlain c then consRead (some c) (basic rest) else none

def literal : List Char → Option (List Char × List Char)
  | [] => none
  | '\'' :: rest => some ([], rest)
  | c :: rest => if isPlain c then consRead (some c) (literal rest) else none

def endsLine : List Char → Bool
  | '\n' :: _ => true
  | '\r' :: '\n' :: _ => true
  | c :: rest => isBlank c && endsLine rest
  | [] => false

/-- Reads a double-quoted string of several lines. While `trimming`, blanks and line breaks are left
out; a backslash at the end of a line starts that. -/
def basicLines (trimming : Bool) : List Char → Option (List Char × List Char)
  | [] => none
  | '"' :: '"' :: '"' :: '"' :: '"' :: rest => some (['"', '"'], rest)
  | '"' :: '"' :: '"' :: '"' :: rest => some (['"'], rest)
  | '"' :: '"' :: '"' :: rest => some ([], rest)
  | '\\' :: 'x' :: a :: b :: rest => consRead (ofHex? [a, b]) (basicLines false rest)
  | '\\' :: 'u' :: a :: b :: c :: d :: rest =>
    consRead (ofHex? [a, b, c, d]) (basicLines false rest)
  | '\\' :: 'U' :: a :: b :: c :: d :: e :: f :: g :: h :: rest =>
    consRead (ofHex? [a, b, c, d, e, f, g, h]) (basicLines false rest)
  | '\\' :: c :: rest =>
    if endsLine (c :: rest) then basicLines true (c :: rest)
    else consRead (escape? c) (basicLines false rest)
  | '\r' :: '\n' :: rest =>
    if trimming then basicLines true rest
    else consRead (some '\r') (consRead (some '\n') (basicLines false rest))
  | '\n' :: rest =>
    if trimming then basicLines true rest else consRead (some '\n') (basicLines false rest)
  | c :: rest =>
    if trimming && isBlank c then basicLines true rest
    else if isPlain c then consRead (some c) (basicLines false rest)
    else none

def literalLines : List Char → Option (List Char × List Char)
  | [] => none
  | '\'' :: '\'' :: '\'' :: '\'' :: '\'' :: rest => some (['\'', '\''], rest)
  | '\'' :: '\'' :: '\'' :: '\'' :: rest => some (['\''], rest)
  | '\'' :: '\'' :: '\'' :: rest => some ([], rest)
  | '\r' :: '\n' :: rest => consRead (some '\r') (consRead (some '\n') (literalLines rest))
  | '\n' :: rest => consRead (some '\n') (literalLines rest)
  | c :: rest => if isPlain c then consRead (some c) (literalLines rest) else none

def dropBreak : List Char → List Char
  | '\n' :: rest => rest
  | '\r' :: '\n' :: rest => rest
  | cs => cs

def quoted : List Char → Option (List Char × List Char)
  | '"' :: '"' :: '"' :: rest => basicLines false (dropBreak rest)
  | '\'' :: '\'' :: '\'' :: rest => literalLines (dropBreak rest)
  | '"' :: rest => basic rest
  | '\'' :: rest => literal rest
  | _ => none

end DesignView.Toml
