/-!
Unquoted values of TOML: truth values, numbers, dates and times. Numbers are checked to be in range:
integers are 128 bits wide, and a float must not round to infinity.
-/

namespace DesignView.Toml

/-- The digits of a run of digits in which single underscores may stand between two digits. -/
def digits? (isDigit : Char → Bool) : List Char → Option (List Char)
  | [] => none
  | [c] => if isDigit c then some [c] else none
  | c :: '_' :: rest => if isDigit c then (digits? isDigit rest).map (c :: ·) else none
  | c :: rest => if isDigit c then (digits? isDigit rest).map (c :: ·) else none

def digitValue (c : Char) : Nat :=
  if c.isDigit then c.toNat - '0'.toNat
  else if 'a' ≤ c ∧ c ≤ 'f' then c.toNat - 'a'.toNat + 10
  else if 'A' ≤ c ∧ c ≤ 'F' then c.toNat - 'A'.toNat + 10
  else 16

def isDigitOf (base : Nat) (c : Char) : Bool := digitValue c < base

def ofDigits (base : Nat) (ds : List Char) : Nat := ds.foldl (fun n c => base * n + digitValue c) 0

def splitSign : List Char → Bool × List Char
  | '-' :: cs => (true, cs)
  | '+' :: cs => (false, cs)
  | cs => (false, cs)

def decimalDigits? (cs : List Char) : Option (List Char) := do
  let ds ← digits? Char.isDigit cs
  match ds with
  | '0' :: _ :: _ => none
  | _ => some ds

def isInteger (cs : List Char) : Bool :=
  match cs with
  | '0' :: 'x' :: ds => inBase 16 ds
  | '0' :: 'o' :: ds => inBase 8 ds
  | '0' :: 'b' :: ds => inBase 2 ds
  | _ =>
    let (negative, body) := splitSign cs
    match decimalDigits? body with
    | none => false
    | some ds => ofDigits 10 ds ≤ if negative then Nat.pow 2 127 else Nat.pow 2 128 - 1
where
  inBase (base : Nat) (ds : List Char) : Bool :=
    (digits? (isDigitOf base) ds).any fun ds => ofDigits base ds < Nat.pow 2 128

/-- Whether `digits * 10 ^ (exponent - scale)` rounds to a finite double. -/
def isFinite (digits : Nat) (negativeExponent : Bool) (exponent scale : Nat) : Bool :=
  let limit := Nat.pow 2 1024 - Nat.pow 2 970
  let length := (Nat.toDigits 10 digits).length
  if digits = 0 then true
  else if negativeExponent then
    if exponent + scale ≥ length then true else digits < limit * Nat.pow 10 (exponent + scale)
  else if exponent + length > scale + 400 then false
  else if exponent ≤ scale then digits < limit * Nat.pow 10 (scale - exponent)
  else digits * Nat.pow 10 (exponent - scale) < limit

def splitAt? (p : Char → Bool) (cs : List Char) : List Char × Option (List Char) :=
  match cs.dropWhile fun c => !p c with
  | [] => (cs, none)
  | _ :: rest => (cs.takeWhile fun c => !p c, some rest)

def isFloat (cs : List Char) : Bool :=
  let body := (splitSign cs).2
  if body = ['i', 'n', 'f'] ∨ body = ['n', 'a', 'n'] then true
  else
    let (mantissa, exponent?) := splitAt? (fun c => c = 'e' ∨ c = 'E') body
    let (whole, fraction?) := splitAt? (· = '.') mantissa
    if exponent?.isNone && fraction?.isNone then false
    else
      match decimalDigits? whole, parts fraction?, exponentOf exponent? with
      | some ds, some fs, some (negative, e) =>
        isFinite (ofDigits 10 (ds ++ fs)) negative e fs.length
      | _, _, _ => false
where
  parts : Option (List Char) → Option (List Char)
    | none => some []
    | some fraction => digits? Char.isDigit fraction
  exponentOf : Option (List Char) → Option (Bool × Nat)
    | none => some (false, 0)
    | some cs =>
      let (negative, ds) := splitSign cs
      (digits? Char.isDigit ds).map fun ds => (negative, ofDigits 10 ds)

def fixedDigits : Nat → List Char → Option (Nat × List Char)
  | 0, cs => some (0, cs)
  | count + 1, c :: cs =>
    if c.isDigit then
      (fixedDigits count cs).map fun (n, rest) => (digitValue c * 10 ^ count + n, rest)
    else none
  | _ + 1, [] => none

def expect (c : Char) : List Char → Option (List Char)
  | x :: cs => if x = c then some cs else none
  | [] => none

def daysIn (year month : Nat) : Nat :=
  if month = 2 then
    if year % 4 = 0 ∧ (year % 100 ≠ 0 ∨ year % 400 = 0) then 29 else 28
  else if month = 4 ∨ month = 6 ∨ month = 9 ∨ month = 11 then 30
  else 31

def date? (cs : List Char) : Option (List Char) := do
  let (year, cs) ← fixedDigits 4 cs
  let (month, cs) ← fixedDigits 2 (← expect '-' cs)
  let (day, cs) ← fixedDigits 2 (← expect '-' cs)
  if 1 ≤ month ∧ month ≤ 12 ∧ 1 ≤ day ∧ day ≤ daysIn year month then some cs else none

def fraction? (cs : List Char) : Option (List Char) :=
  match cs with
  | '.' :: rest =>
    if (rest.takeWhile Char.isDigit).isEmpty then none else some (rest.dropWhile Char.isDigit)
  | _ => some cs

def time? (cs : List Char) : Option (List Char) := do
  let (hour, cs) ← fixedDigits 2 cs
  let (minute, cs) ← fixedDigits 2 (← expect ':' cs)
  if hour > 23 ∨ minute > 59 then none
  match cs with
  | ':' :: rest =>
    let (second, cs) ← fixedDigits 2 rest
    if second > 60 then none else fraction? cs
  | _ => some cs

def isOffset (cs : List Char) : Bool :=
  match cs with
  | [] | ['Z'] | ['z'] => true
  | sign :: rest =>
    (sign = '+' ∨ sign = '-') &&
      (do
        let (hour, cs) ← fixedDigits 2 rest
        let (minute, cs) ← fixedDigits 2 (← expect ':' cs)
        some (cs.isEmpty && hour ≤ 23 && minute ≤ 59)).getD false

def isTimeSeparator (c : Char) : Bool := c = 'T' ∨ c = 't' ∨ c = ' '

def isMoment (cs : List Char) : Bool :=
  match date? cs with
  | some [] => true
  | some (c :: rest) => isTimeSeparator c && (time? rest).any isOffset
  | none => time? cs = some []

end DesignView.Toml
