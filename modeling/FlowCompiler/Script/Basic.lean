import FlowCompiler.Machine.Double
import FlowCompiler.Text.Quoted

/-!
# Scripts

A script is a document that asks the compiler for something and is answered by a document: either
`ok` with the result, or the kind and the text of a failure.  A script of steps is answered step by
step; a step that fails is answered by its failure and the next steps still run.
-/

namespace FlowCompiler.Script

open Document

/-- The kinds of failure in the order in which they are looked for among the causes. -/
def kinds : List (String × (Failure → Bool)) :=
  [ ("UnionError", fun | .annot _ (some _) => true | _ => false),
    ("AnnotatorError", fun | .annot _ _ => true | _ => false),
    ("HarmlesslyBlocked", fun | .blocked _ => true | _ => false),
    ("MissingLLTypeError", fun | .typer _ (some _) => true | _ => false),
    ("TyperError", fun | .typer _ _ => true | _ => false),
    ("BackendError", fun | .backend _ _ => true | _ => false),
    ("InvalidLoop", fun | .invalidLoop _ => true | _ => false),
    ("NoVariableToSpill", fun | .noSpill _ => true | _ => false),
    ("BogusImmutableField", fun | .immutableField _ => true | _ => false),
    ("RawMemoryError", fun | .rawMemory _ _ _ => true | _ => false),
    ("ParseStringOverflowError", fun | .literalTooLarge _ => true | _ => false),
    ("ParseStringError", fun | .badLiteral _ => true | _ => false),
    ("Overflow", fun | .arith .wordOverflow => true | .arith .tooLarge => true | _ => false),
    ("ZeroDivision", fun | .arith .zeroDivision => true | _ => false),
    ("InvalidValue", fun | .arith .invalidValue => true | _ => false),
    ("InvalidEndianness", fun | .arith .byteOrder => true | _ => false),
    ("InvalidSignedness", fun | .arith .negativeToUnsigned => true | _ => false) ]

def kindOf (f : Failure) : String :=
  let causes := f.causes
  ((kinds.find? fun k => causes.any k.2).map Prod.fst).getD "Error"

/-- A failure as an answer. -/
def failed (f : Failure) : Document := record [("error", text (kindOf f)), ("message", text f.message)]

def succeeded (d : Document) : Document := record [("ok", d)]

def answer : Except Failure Document → Document
  | .ok d => succeeded d
  | .error f => failed f

/-- A request that makes no sense. -/
def badRequest : Document := record [("error", text "BadRequest")]

/-- Answers the steps of a script one after another from a state. -/
def runSteps {σ : Type} (step : Document → EStateM Failure σ Document) (start : σ) (steps : List Document) :
    List Document × σ :=
  let (out, s) := steps.foldl (fun (acc, s) d =>
    match (step d).run s with
    | .ok r s => (r :: acc, s)
    | .error f s => (failed f :: acc, s)) (([] : List Document), start)
  (out.reverse, s)

/-- Lifts a result into a stateful step. -/
def liftExcept {σ α : Type} : Except Failure α → EStateM Failure σ α
  | .ok a => pure a
  | .error f => throw f

/-! ## Numbers and bytes -/

/-- A double as sixteen hexadecimal digits, any NaN as a word. -/
def ofDouble (d : Double) : Document :=
  if d.isNaN then text "nan" else text (Quoted.hexFixed 16 d.bits.toNat)

def hexValue (s : String) : Nat :=
  s.foldl (fun acc c => acc * 16 + (if c.isDigit then c.toNat - 48 else if c ≥ 'a' then c.toNat - 87 else c.toNat - 55)) 0

def toDouble (d : Document) : Double :=
  let s := d.toText
  if s = "nan" then ⟨0x7FF8000000000001⟩ else ⟨UInt64.ofNat (hexValue s)⟩

def hexBytes (bs : List UInt8) : Document := text (String.join (bs.map fun b => Quoted.hexFixed 2 b.toNat))

def bytesOfHex (s : String) : List UInt8 :=
  let rec go : List Char → List UInt8
    | a :: b :: r => UInt8.ofNat (hexValue (String.ofList [a, b])) :: go r
    | _ => []
  go s.toList

def utf8 (s : String) : List UInt8 := s.toUTF8.toList

end FlowCompiler.Script
