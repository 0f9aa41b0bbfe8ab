import FlowCompiler.Machine.Word
import FlowCompiler.Text.Quoted

/-!
# Configuration files

A reader for configuration files of tables and key-value lines, and the writer for the values that a
configuration holds.  The reader only tells whether a text is well formed: a malformed text has no
reading.
-/

namespace FlowCompiler

/-- A value of a configuration file.  `header` tells how a table came about. -/
inductive Toml where
  | text (s : String)
  | int (n : Int)
  | bool (b : Bool)
  /-- A value of a kind that no setting has: a fraction or a date. -/
  | scalar
  | array (xs : List Toml)
  /-- A table; it is `closed` when a later line may not add to it. -/
  | table (closed : Bool) (entries : List (String × Toml))
deriving Inhabited

namespace Toml

abbrev Parser (α : Type) := List Char → Option (α × List Char)

def skipBlanks (cs : List Char) : List Char := cs.dropWhile fun c => c = ' ' || c = '\t'

/-- Whether a character may stand in a comment or a text. -/
def isPlain (c : Char) : Bool := c = '\t' || (c.toNat ≥ 32 && c.toNat ≠ 127)

/-- Skips a comment up to the end of its line. -/
def skipComment : List Char → Option (List Char)
  | '#' :: r =>
    let body := r.takeWhile (· ≠ '\n')
    let body := if body.getLast? = some '\r' then body.dropLast else body
    if body.all isPlain then some (r.dropWhile (· ≠ '\n')) else none
  | cs => some cs

/-- Skips blanks, line ends and comments inside an array. -/
def skipSpace : (fuel : Nat) → List Char → Option (List Char)
  | 0, cs => some cs
  | n + 1, cs =>
    match skipBlanks cs with
    | '\n' :: r => skipSpace n r
    | '\r' :: '\n' :: r => skipSpace n r
    | '#' :: r => (skipComment ('#' :: r)).bind (skipSpace n)
    | cs => some cs

def isBare (c : Char) : Bool := c.isAlphanum || c = '_' || c = '-'

def hexValue? (cs : List Char) : Option Nat :=
  if cs.all fun c => Numeral.digitValue c < 16 then
    some (cs.foldl (fun acc c => acc * 16 + Numeral.digitValue c) 0) else none

/-- The character of an escape after its backslash. -/
def escape : Parser Char
  | 'b' :: r => some (Char.ofNat 8, r)
  | 't' :: r => some ('\t', r)
  | 'n' :: r => some ('\n', r)
  | 'f' :: r => some (Char.ofNat 12, r)
  | 'r' :: r => some ('\r', r)
  | 'e' :: r => some (Char.ofNat 27, r)
  | '"' :: r => some ('"', r)
  | '\\' :: r => some ('\\', r)
  | 'u' :: r => if r.length < 4 then none else (hexValue? (r.take 4)).map fun n => (Char.ofNat n, r.drop 4)
  | 'U' :: r => if r.length < 8 then none else (hexValue? (r.take 8)).map fun n => (Char.ofNat n, r.drop 8)
  | _ => none

/-- A text between double quotes on one line. -/
def basicText : (fuel : Nat) → (acc : List Char) → Parser String
  | 0, _, _ => none
  | n + 1, acc, cs =>
    match cs with
    | '"' :: r => some (String.ofList acc.reverse, r)
    | '\\' :: r => (escape r).bind fun (c, r) => basicText n (c :: acc) r
    | c :: r => if isPlain c then basicText n (c :: acc) r else none
    | [] => none

/-- A text between triple double quotes. -/
def longText : (fuel : Nat) → (acc : List Char) → Parser String
  | 0, _, _ => none
  | n + 1, acc, cs =>
    match cs with
    | '"' :: '"' :: '"' :: '"' :: '"' :: r => some (String.ofList ('"' :: '"' :: acc).reverse, r)
    | '"' :: '"' :: '"' :: '"' :: r => some (String.ofList ('"' :: acc).reverse, r)
    | '"' :: '"' :: '"' :: r => some (String.ofList acc.reverse, r)
    | '\\' :: r =>
      match skipBlanks r with
      | '\n' :: s => longText n acc (s.dropWhile fun c => c = ' ' || c = '\t' || c = '\n' || c = '\r')
      | _ => (escape r).bind fun (c, r) => longText n (c :: acc) r
    | c :: r => if isPlain c || c = '\n' || c = '\r' then longText n (c :: acc) r else none
    | [] => none

/-- A text between triple single quotes. -/
def longLiteral : (fuel : Nat) → (acc : List Char) → Parser String
  | 0, _, _ => none
  | n + 1, acc, cs =>
    match cs with
    | '\'' :: '\'' :: '\'' :: r => some (String.ofList acc.reverse, r)
    | c :: r => if isPlain c || c = '\n' || c = '\r' then longLiteral n (c :: acc) r else none
    | [] => none

def dropLineEnd : List Char → List Char
  | '\n' :: r => r
  | '\r' :: '\n' :: r => r
  | cs => cs

def literalText : Parser String := fun cs =>
  let body := cs.takeWhile fun c => c ≠ '\'' && isPlain c
  match cs.drop body.length with
  | '\'' :: r => some (String.ofList body, r)
  | _ => none

/-- A text in any of the four ways of quoting. -/
def quoted : Parser String
  | '"' :: '"' :: '"' :: r => longText (r.length + 1) [] (dropLineEnd r)
  | '\'' :: '\'' :: '\'' :: r => longLiteral (r.length + 1) [] (dropLineEnd r)
  | '"' :: r => basicText (r.length + 1) [] r
  | '\'' :: r => literalText r
  | _ => none

/-- One part of a key. -/
def keyPart : Parser String := fun cs =>
  match cs with
  | '"' :: r => basicText (r.length + 1) [] r
  | '\'' :: r => literalText r
  | _ =>
    let name := cs.takeWhile isBare
    if name.isEmpty then none else some (String.ofList name, cs.drop name.length)

/-- A key of parts joined by dots. -/
def key : (fuel : Nat) → Parser (List String)
  | 0, _ => none
  | n + 1, cs => do
    let (k, r) ← keyPart cs
    match skipBlanks r with
    | '.' :: r => do
      let (ks, r) ← key n (skipBlanks r)
      some (k :: ks, r)
    | r => some ([k], r)

/-- Digits of a base with single underscores between them. -/
def wellGrouped (base : Nat) : List Char → Bool
  | [] => false
  | [c] => Numeral.digitValue c < base
  | c :: '_' :: r => Numeral.digitValue c < base && wellGrouped base r
  | c :: r => Numeral.digitValue c < base && wellGrouped base r

def digitsValue (base : Nat) (cs : List Char) : Nat :=
  (cs.filter (· ≠ '_')).foldl (fun acc c => acc * base + Numeral.digitValue c) 0

def ofWord (n : Int) : Option Toml :=
  if -9223372036854775808 ≤ n && n ≤ 9223372036854775807 then some (int n) else none

/-- A fraction or an exponent form. -/
def isFraction (cs : List Char) : Bool :=
  let body := match cs with
    | '+' :: r => r
    | '-' :: r => r
    | cs => cs
  let whole := body.takeWhile fun (c : Char) => c.isDigit || c = '_'
  let rest := body.drop whole.length
  let (frac, rest) := match rest with
    | '.' :: r => let f := r.takeWhile fun (c : Char) => c.isDigit || c = '_'; (some f, r.drop f.length)
    | r => (none, r)
  let expOk := match rest with
    | [] => frac.isSome
    | c :: r => (c = 'e' || c = 'E') && wellGrouped 10 (match r with
      | '+' :: r => r
      | '-' :: r => r
      | r => r)
  body = "inf".toList || body = "nan".toList
    || (wellGrouped 10 whole && (whole.length = 1 || whole.head? ≠ some '0')
      && frac.all (wellGrouped 10) && expOk)

/-- A date or a time of day. -/
def isDate (cs : List Char) : Bool :=
  let shape := cs.map fun c => if c.isDigit then '0' else c
  shape.take 10 = "0000-00-00".toList || shape.take 8 = "00:00:00".toList

/-- A number, a truth value or a date from its characters. -/
def atom (cs : List Char) : Option Toml :=
  match cs with
  | ['t', 'r', 'u', 'e'] => some (bool true)
  | ['f', 'a', 'l', 's', 'e'] => some (bool false)
  | '0' :: 'x' :: r => if wellGrouped 16 r then ofWord (digitsValue 16 r) else none
  | '0' :: 'o' :: r => if wellGrouped 8 r then ofWord (digitsValue 8 r) else none
  | '0' :: 'b' :: r => if wellGrouped 2 r then ofWord (digitsValue 2 r) else none
  | _ =>
    let (neg, body) := match cs with
      | '-' :: r => (true, r)
      | '+' :: r => (false, r)
      | cs => (false, cs)
    if wellGrouped 10 body && (body.length = 1 || body.head? ≠ some '0') then
      ofWord (if neg then -(digitsValue 10 body : Int) else digitsValue 10 body)
    else if isFraction cs || isDate cs then some scalar else none

def isAtomChar (c : Char) : Bool := c.isAlphanum || c = '_' || c = '-' || c = '+' || c = '.' || c = ':'

/-- Adds a value under a path of keys to the entries of a table.  Tables on the way are made as
needed; a key that has a value, and a table that is closed, refuse. -/
def insertPath (v : Toml) : List String → List (String × Toml) → Option (List (String × Toml))
  | [], _ => none
  | [k], es => if (es.lookup k).isSome then none else some (es ++ [(k, v)])
  | k :: ks, es =>
    match es.lookup k with
    | none => (insertPath v ks []).map fun sub => es ++ [(k, table false sub)]
    | some (table false sub) =>
      (insertPath v ks sub).map fun sub => es.map fun e => if e.1 = k then (k, table false sub) else e
    | some _ => none

mutual

/-- A value of any kind. -/
def value : (fuel : Nat) → Parser Toml
  | 0, _ => none
  | n + 1, cs =>
    match cs with
    | '"' :: _ => (quoted cs).map fun (s, r) => (text s, r)
    | '\'' :: _ => (quoted cs).map fun (s, r) => (text s, r)
    | '[' :: r => arrayItems n [] r
    | '\x7b' :: r => inlineItems n [] true r
    | _ =>
      let tok := cs.takeWhile isAtomChar
      (atom tok).map fun t => (t, cs.drop tok.length)

/-- The items of an array after its bracket or a comma. -/
def arrayItems : (fuel : Nat) → (acc : List Toml) → Parser Toml
  | 0, _, _ => none
  | n + 1, acc, cs => do
    let cs ← skipSpace cs.length cs
    match cs with
    | ']' :: r => some (array acc.reverse, r)
    | cs => do
      let (v, r) ← value n cs
      let r ← skipSpace r.length r
      match r with
      | ',' :: r => arrayItems n (v :: acc) r
      | ']' :: r => some (array (v :: acc).reverse, r)
      | _ => none

/-- The entries of a table written on one line. -/
def inlineItems : (fuel : Nat) → (acc : List (String × Toml)) → (first : Bool) → Parser Toml
  | 0, _, _, _ => none
  | n + 1, acc, first, cs => do
    match skipBlanks cs with
    | '\x7d' :: r => if first then some (table true acc, r) else none
    | cs => do
      let (k, r) ← key (cs.length + 1) cs
      match skipBlanks r with
      | '=' :: r => do
        let (v, r) ← value n (skipBlanks r)
        let acc ← insertPath v k acc
        match skipBlanks r with
        | ',' :: r => inlineItems n acc false r
        | '\x7d' :: r => some (table true acc, r)
        | _ => none
      | _ => none

end

/-- The rest of a line after an expression: blanks, perhaps a comment, and the line's end. -/
def lineEnd (cs : List Char) : Option (List Char) := do
  match ← skipComment (skipBlanks cs) with
  | [] => some []
  | '\n' :: r => some r
  | '\r' :: '\n' :: r => some r
  | _ => none

/-- The state of reading: the root's entries, the current table, and the tables named by headers. -/
structure Reading where
  entries : List (String × Toml) := []
  current : List String := []
  headers : List (List String) := []

/-- Makes the tables on a path, without adding entries. -/
def openTable : List String → List (String × Toml) → Option (List (String × Toml))
  | [], es => some es
  | k :: ks, es =>
    match es.lookup k with
    | none => (openTable ks []).map fun sub => es ++ [(k, table false sub)]
    | some (table false sub) =>
      (openTable ks sub).map fun sub => es.map fun e => if e.1 = k then (k, table false sub) else e
    | some _ => none

/-- A header line after its bracket. -/
def headerLine (r : Reading) (cs : List Char) : Option (Reading × List Char) := do
  let cs := skipBlanks cs
  let (k, rest) ← key (cs.length + 1) cs
  match skipBlanks rest with
  | ']' :: rest =>
    if r.headers.contains k then none
    else do
      let entries ← openTable k r.entries
      some ({ entries, current := k, headers := k :: r.headers }, ← lineEnd rest)
  | _ => none

/-- A header of an array of tables; no setting is one, so the table is only noted. -/
def arrayHeaderLine (r : Reading) (cs : List Char) : Option (Reading × List Char) := do
  let cs := skipBlanks cs
  let (k, rest) ← key (cs.length + 1) cs
  match skipBlanks rest with
  | ']' :: ']' :: rest =>
    let mark := k ++ ["", toString rest.length]
    let entries := if (openTable k r.entries).isSome && (insertPath (array []) k r.entries).isSome then
      (insertPath (array []) k r.entries).getD r.entries else r.entries
    let entries ← openTable [" ", String.intercalate "." mark] entries
    some ({ r with entries, current := [" ", String.intercalate "." mark] }, ← lineEnd rest)
  | _ => none

def assignLine (r : Reading) (cs : List Char) : Option (Reading × List Char) := do
  let (k, rest) ← key (cs.length + 1) cs
  match skipBlanks rest with
  | '=' :: rest => do
    let rest := skipBlanks rest
    let (v, rest) ← value (rest.length + 2) rest
    let entries ← insertPath v (r.current ++ k) r.entries
    some ({ r with entries }, ← lineEnd rest)
  | _ => none

def lines : (fuel : Nat) → Reading → List Char → Option Reading
  | 0, _, _ => none
  | n + 1, r, cs => do
    let cs ← skipSpace cs.length cs
    match cs with
    | [] => some r
    | '[' :: '[' :: rest => do
      let (r, rest) ← arrayHeaderLine r rest
      lines n r rest
    | '[' :: rest => do
      let (r, rest) ← headerLine r rest
      lines n r rest
    | cs => do
      let (r, rest) ← assignLine r cs
      lines n r rest

/-- Reads a whole file. -/
def parse (s : String) : Option (List (String × Toml)) :=
  (lines (s.length + 2) {} s.toList).map Reading.entries

/-! ## Writing -/

/-- Whether a text cannot stand between single quotes. -/
def needsQuoting (s : String) : Bool := s.any fun c => c = '\'' || !isPlain c

def upperHex (n : Nat) : String := (Quoted.hexFixed 2 n).toUpper

def writeChar (c : Char) : String :=
  match c.toNat with
  | 92 => "\\\\"
  | 34 => "\\\""
  | 8 => "\\b"
  | 12 => "\\f"
  | 10 => "\\n"
  | 13 => "\\r"
  | 9 => "\\t"
  | n => if n < 32 || n = 127 then "\\u00" ++ upperHex n else String.singleton c

def writeText (s : String) : String :=
  if needsQuoting s then "\"" ++ s.foldl (fun acc c => acc ++ writeChar c) "" ++ "\"" else "'" ++ s ++ "'"

def writeList (xs : List String) : String := "[" ++ String.intercalate ", " xs ++ "]"

end Toml
end FlowCompiler
