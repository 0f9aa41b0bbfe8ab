/-!
# Structured documents

Programs, traces and scripts of steps are described by documents: trees of lists and records over
texts, integers and truth values.  A field that is missing, and a field of another shape than the
reader expects, read as the empty value of the expected shape, so a document only mentions what
differs from the default.
-/

namespace FlowCompiler

inductive Document where
  | null
  | bool (b : Bool)
  | int (n : Int)
  | text (s : String)
  | list (xs : List Document)
  | record (fields : List (String × Document))
deriving Inhabited

namespace Document

def isNull : Document → Bool
  | null => true
  | _ => false

/-- The entry of a record under a name. -/
def get? (d : Document) (name : String) : Option Document :=
  match d with
  | record fs => fs.lookup name
  | _ => none

/-- The entry of a record under a name, null when there is none. -/
def get (d : Document) (name : String) : Document := (d.get? name).getD null

/-- The entry under a name unless it is missing or null. -/
def find? (d : Document) (name : String) : Option Document := (d.get? name).filter (!·.isNull)

def has (d : Document) (name : String) : Bool := (d.find? name).isSome

def items : Document → List Document
  | list xs => xs
  | _ => []

def fields : Document → List (String × Document)
  | record fs => fs
  | _ => []

/-- An element of a list, null beyond its end. -/
def nth (d : Document) (i : Nat) : Document := (d.items[i]?).getD null

def toText : Document → String
  | text s => s
  | _ => ""

def text? : Document → Option String
  | text s => some s
  | _ => none

/-- An integer, written as a number or as its decimal text. -/
def int? : Document → Option Int
  | int n => some n
  | text s => s.toInt?
  | bool b => some (if b then 1 else 0)
  | _ => none

def toInt (d : Document) : Int := d.int?.getD 0
def toNat (d : Document) : Nat := d.toInt.toNat
def toWord (d : Document) : Int64 := Int64.ofInt d.toInt
def toUnsigned (d : Document) : UInt64 := UInt64.ofInt d.toInt

def isTrue : Document → Bool
  | bool b => b
  | _ => false

def texts (d : Document) : List String := d.items.map toText

/-- Whether a document counts as given: null, false, zero and what is empty do not. -/
def given : Document → Bool
  | null => false
  | bool b => b
  | int n => n ≠ 0
  | text s => s ≠ ""
  | list xs => !xs.isEmpty
  | record _ => true

/-! ## Writing -/

def nat (n : Nat) : Document := int n
/-- A word or an integer that may be large is written as its decimal text. -/
def decimal (n : Int) : Document := text (toString n)
def ofTexts (xs : List String) : Document := list (xs.map text)
def ofOption (o : Option Document) : Document := o.getD null
def ofOptText (o : Option String) : Document := (o.map text).getD null

end Document
end FlowCompiler
