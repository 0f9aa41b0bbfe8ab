import FlowCompiler.Document

/-!
# Quoted text

A quoted text stands between double quotes; quotes and backslashes are escaped, control characters
have their usual letters or two hexadecimal digits, and other characters that do not print are
written by their code point.
-/

namespace FlowCompiler
namespace Quoted

def hexDigit (n : Nat) : Char := if n < 10 then Char.ofNat (48 + n) else Char.ofNat (87 + n)

/-- A number in exactly `width` hexadecimal digits. -/
def hexFixed : (width : Nat) → Nat → String
  | 0, _ => ""
  | w + 1, n => hexFixed w (n / 16) ++ String.singleton (hexDigit (n % 16))

/-- Ranges of code points that do not print: controls, formats, separators other than the blank,
surrogates and private use. -/
def unprintable : List (Nat × Nat) :=
  [ (0, 31), (127, 160), (0xAD, 0xAD), (0x600, 0x605), (0x61C, 0x61C), (0x6DD, 0x6DD), (0x70F, 0x70F),
    (0x1680, 0x1680), (0x180E, 0x180E), (0x2000, 0x200F), (0x2028, 0x202F), (0x205F, 0x206F),
    (0x3000, 0x3000), (0xD800, 0xF8FF), (0xFEFF, 0xFEFF), (0xFFF0, 0xFFFB), (0xFFFE, 0xFFFF),
    (0x1D173, 0x1D17A), (0xE0000, 0xE00FF), (0xE01F0, 0x10FFFF) ]

def isPrintable (n : Nat) : Bool := !(unprintable.any fun (lo, hi) => lo ≤ n && n ≤ hi)

/-- A code point inside quotes. -/
def escape (quote : Char) (n : Nat) : String :=
  if n = quote.toNat || n = 92 then "\\" ++ String.singleton (Char.ofNat n)
  else if n = 7 then "\\a" else if n = 8 then "\\b" else if n = 12 then "\\f"
  else if n = 10 then "\\n" else if n = 13 then "\\r" else if n = 9 then "\\t"
  else if n = 11 then "\\v"
  else if isPrintable n then String.singleton (Char.ofNat n)
  else if n < 32 || n = 127 then "\\x" ++ hexFixed 2 n
  else if n < 0x10000 then "\\u" ++ hexFixed 4 n
  else "\\U" ++ hexFixed 8 n

def quote (s : String) : String := s.foldl (fun acc c => acc ++ escape '"' c.toNat) "\"" ++ "\""

end Quoted

/-- Joins texts with a separator. -/
def joinWith (sep : String) (xs : List String) : String := String.intercalate sep xs

end FlowCompiler

/-! ## Indented documents

A document as text: every entry of a list or a record has its own line and is two blanks deeper than what
it belongs to.  Inside texts, the characters that have a meaning in markup are written by their code
points. -/

namespace FlowCompiler
namespace Indented

/-- A character of a text. -/
def escape (c : Char) : String :=
  if c = '"' then "\\\"" else if c = '\\' then "\\\\" else if c = '\n' then "\\n" else if c = '\r' then "\\r"
  else if c = '\t' then "\\t"
  else if c.toNat < 32 || c = '<' || c = '>' || c = '&' || c.toNat = 0x2028 || c.toNat = 0x2029 then
    "\\u" ++ Quoted.hexFixed 4 c.toNat
  else String.singleton c

def quote (s : String) : String := "\"" ++ s.foldl (fun acc c => acc ++ escape c) "" ++ "\""

/-- The start of a line. -/
def lineStart (depth : Nat) : String := "\n" ++ String.join (List.replicate depth "  ")

/-- Entries between brackets; without entries the brackets stand together. -/
def bracketed (left right : String) (depth : Nat) (entries : List String) : String :=
  if entries.isEmpty then left ++ right
  else left ++ joinWith "," (entries.map fun e => lineStart (depth + 1) ++ e) ++ lineStart depth ++ right

mutual

/-- A document whose first line starts at a given depth. -/
def render (depth : Nat) : Document → String
  | .null => "null"
  | .bool b => if b then "true" else "false"
  | .int n => toString n
  | .text s => quote s
  | .list xs => bracketed "[" "]" depth (renderItems (depth + 1) xs)
  | .record fs => bracketed "\x7b" "\x7d" depth (renderFields (depth + 1) fs)

def renderItems (depth : Nat) : List Document → List String
  | [] => []
  | x :: rest => render depth x :: renderItems depth rest

def renderFields (depth : Nat) : List (String × Document) → List String
  | [] => []
  | (name, x) :: rest => (quote name ++ ": " ++ render depth x) :: renderFields depth rest

end

end Indented

/-- A document as indented text. -/
def Document.indented (d : Document) : String := Indented.render 0 d

end FlowCompiler
