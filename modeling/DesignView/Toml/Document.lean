import DesignView.Container.OrderedMap
import DesignView.Toml.Quoted

/-!
TOML documents: lines that set a key, start a table, or start an entry of an array of tables. A
key is set once, a table is started once, and what was written out as a value cannot be added to. A
table that dotted keys have set something in, or below, is not started any more.
-/

namespace DesignView.Toml

inductive Value where
  | text (s : String)
  | boolean (b : Bool)
  | number
  | moment
  | array
  | inlineTable

/-- What a key stands for. A table is implicit as long as it was only passed through by longer keys,
and dotted once one of those stood before an equals sign. -/
inductive Node where
  | value (v : Value)
  | table (implicit dotted : Bool) (entries : OrderedMap String Node)
  | tables (items : List (OrderedMap String Node))

structure Draft where
  implicit : Bool
  dotted : Bool
  entries : OrderedMap String Node

namespace Draft

def empty : Draft := ⟨false, false, {}⟩

def put (t : Draft) (key : String) (node : Node) : Draft :=
  { t with entries := t.entries.insert key node }

def node (t : Draft) : Node := .table t.implicit t.dotted t.entries

/-- Applies `f` to the table that `path` leads to, and makes the tables on the way that are
missing. An array of tables leads on through its last item. A path before an equals sign passes only
through tables that were not started by a line of their own, and marks them. -/
def alter (dotted : Bool) (f : Draft → Option Draft) : List String → Draft → Option Draft
  | [], t => f t
  | key :: rest, t =>
    match t.entries.find? key with
    | none => (alter dotted f rest ⟨true, dotted, {}⟩).map fun child => t.put key child.node
    | some (.value _) => none
    | some (.table implicit wasDotted entries) =>
      if dotted && !implicit then none
      else (alter dotted f rest ⟨implicit, wasDotted || dotted, entries⟩).map fun child =>
        t.put key child.node
    | some (.tables items) =>
      match items.getLast? with
      | none => none
      | some last => (alter dotted f rest ⟨false, false, last⟩).map fun child =>
        t.put key (.tables (items.dropLast ++ [child.entries]))

/-- Sets a key that is not set yet. A key of one part is set in any table, the last part of a longer
key only in a table that is still implicit: an item of an array of tables has its own line. -/
def assign (t : Draft) (path : List String) (v : Value) : Option Draft :=
  match path.getLast? with
  | none => none
  | some key =>
    let above := path.dropLast
    t.alter true (fun t =>
      if !above.isEmpty && !t.implicit then none
      else if t.entries.contains key then none
      else some (t.put key (.value v))) above

def startTable (t : Draft) (path : List String) : Option Draft :=
  match path.getLast? with
  | none => none
  | some key =>
    t.alter false (fun t =>
      match t.entries.find? key with
      | none => some (t.put key (.table false false {}))
      | some (.table true false entries) => some (t.put key (.table false false entries))
      | _ => none) path.dropLast

def startItem (t : Draft) (path : List String) : Option Draft :=
  match path.getLast? with
  | none => none
  | some key =>
    t.alter false (fun t =>
      match t.entries.find? key with
      | none => some (t.put key (.tables [{}]))
      | some (.tables items) => some (t.put key (.tables (items ++ [{}])))
      | _ => none) path.dropLast

end Draft

def skipBlanks (cs : List Char) : List Char := cs.dropWhile isBlank

def skipFiller (inComment : Bool) : List Char → Option (List Char)
  | [] => some []
  | '\n' :: rest => skipFiller false rest
  | '\r' :: '\n' :: rest => skipFiller false rest
  | c :: rest =>
    if inComment then if isPlain c then skipFiller true rest else none
    else if c = '#' then skipFiller true rest
    else if isBlank c then skipFiller false rest
    else some (c :: rest)

def endLine (inComment : Bool) : List Char → Option (List Char)
  | [] => some []
  | '\n' :: rest => some rest
  | '\r' :: '\n' :: rest => some rest
  | c :: rest =>
    if inComment then if isPlain c then endLine true rest else none
    else if c = '#' then endLine true rest
    else if isBlank c then endLine false rest
    else none

def isKeyChar (c : Char) : Bool := c.isAlphanum ∨ c = '_' ∨ c = '-'

def keyPart (cs : List Char) : Option (String × List Char) :=
  match cs with
  | '"' :: rest => (basic rest).map fun (s, rest) => (String.ofList s, rest)
  | '\'' :: rest => (literal rest).map fun (s, rest) => (String.ofList s, rest)
  | _ =>
    let bare := cs.takeWhile isKeyChar
    if bare.isEmpty then none else some (String.ofList bare, cs.dropWhile isKeyChar)

def maxParts : Nat := 80

def keyPath : Nat → List Char → Option (List String × List Char)
  | 0, _ => none
  | parts + 1, cs => do
    let (part, rest) ← keyPart cs
    match skipBlanks rest with
    | '.' :: rest =>
      let (path, rest) ← keyPath parts (skipBlanks rest)
      return (part :: path, rest)
    | rest => return ([part], rest)

def endsScalar (c : Char) : Bool :=
  c = ' ' ∨ c = '\t' ∨ c = '\n' ∨ c = '\r' ∨ c = ',' ∨ c = ']' ∨ c = '}' ∨ c = '#'

def scalarOf? (cs : List Char) : Option Value :=
  if cs = "true".toList then some (.boolean true)
  else if cs = "false".toList then some (.boolean false)
  else if isInteger cs ∨ isFloat cs then some .number
  else if isMoment cs then some .moment
  else none

def scalar (cs : List Char) : Option (Value × List Char) :=
  let (word, rest) := cs.span fun c => !endsScalar c
  match rest with
  | ' ' :: after =>
    if date? word = some [] ∧ after.head?.any Char.isDigit then
      let (time, rest) := after.span fun c => !endsScalar c
      (scalarOf? (word ++ ' ' :: time)).map fun v => (v, rest)
    else (scalarOf? word).map fun v => (v, rest)
  | _ => (scalarOf? word).map fun v => (v, rest)

def arrayItems (value : List Char → Option (Value × List Char)) :
    Nat → List Char → Option (List Char)
  | 0, _ => none
  | items + 1, cs => do
    match ← skipFiller false cs with
    | ']' :: rest => return rest
    | cs =>
      let (_, rest) ← value cs
      match ← skipFiller false rest with
      | ',' :: rest => arrayItems value items rest
      | ']' :: rest => return rest
      | _ => none

/-- Reads a key, an equals sign and a value. `skip` drops what may stand on either side of the
equals sign; the parts of a key stand on one line in any case. -/
def pair (skip : List Char → Option (List Char))
    (value : List Char → Option (Value × List Char)) (cs : List Char) :
    Option (List String × Value × List Char) := do
  let (path, rest) ← keyPath maxParts cs
  let rest ← expect '=' (← skip rest)
  let (v, rest) ← value (← skip rest)
  return (path, v, rest)

/-- Reads the pairs of an inline table up to its brace, at most `pairs` of them. Line breaks and
comments may stand wherever blanks may, but for inside a key. -/
def inlinePairs (value : List Char → Option (Value × List Char)) (t : Draft) :
    Nat → List Char → Option (List Char)
  | 0, _ => none
  | pairs + 1, cs => do
    match ← skipFiller false cs with
    | '\x7d' :: rest => return rest
    | cs =>
      let (path, v, rest) ← pair (skipFiller false) value cs
      let t ← t.assign path v
      match ← skipFiller false rest with
      | ',' :: rest => inlinePairs value t pairs rest
      | '\x7d' :: rest => return rest
      | _ => none

def value : Nat → List Char → Option (Value × List Char)
  | depth, cs =>
    match cs with
    | '"' :: _ | '\'' :: _ => (quoted cs).map fun (s, rest) => (.text (String.ofList s), rest)
    | '[' :: rest =>
      match depth with
      | 0 => none
      | depth + 1 =>
        (arrayItems (value depth) (rest.length + 1) rest).map fun rest => (.array, rest)
    | '\x7b' :: rest =>
      match depth with
      | 0 => none
      | depth + 1 =>
        (inlinePairs (value depth) .empty (rest.length + 1) rest).map fun rest =>
          (.inlineTable, rest)
    | _ => scalar cs

def maxDepth : Nat := 80

structure Reading where
  root : Draft := .empty
  current : List String := []

def header (closing : List Char) (cs : List Char) : Option (List String × List Char) := do
  let (path, rest) ← keyPath maxParts (skipBlanks cs)
  let rest ← closing.foldlM (fun cs c => expect c cs) rest
  return (path, ← endLine false rest)

def line (r : Reading) (cs : List Char) : Option (Reading × List Char) :=
  match cs with
  | '[' :: '[' :: rest => do
    let (path, rest) ← header [']', ']'] rest
    return ({ root := ← r.root.startItem path, current := path }, rest)
  | '[' :: rest => do
    let (path, rest) ← header [']'] rest
    return ({ root := ← r.root.startTable path, current := path }, rest)
  | _ => do
    let (path, v, rest) ← pair (some ∘ skipBlanks) (value maxDepth) cs
    let root ← r.root.alter false (fun t => t.assign path v) r.current
    return ({ r with root }, ← endLine false rest)

def lines : Nat → Reading → List Char → Option Reading
  | 0, _, _ => none
  | count + 1, r, cs => do
    match ← skipFiller false cs with
    | [] => return r
    | cs =>
      let (r, rest) ← line r cs
      lines count r rest

def read? (s : String) : Option (OrderedMap String Node) :=
  let cs :=
    match s.toList with
    | '\ufeff' :: cs => cs
    | cs => cs
  (lines (cs.length + 1) {} cs).map fun r => r.root.entries

end DesignView.Toml
