/-!
# Causes of failure

Every stage of the compiler reports failure as a value of one type, so that a caller can ask for the
cause, for its code and for the place in a flow graph where it arose.  The wording of every cause is
given by `Failure.message` and by nothing else.
-/

namespace FlowCompiler

/-- A place in a flow graph: the graph's name, the block and the operation inside it.  A negative
block or operation is unknown, and a place without a graph name is unknown as a whole. -/
structure Position where
  graph : String := ""
  block : Int := -1
  op : Int := -1
deriving DecidableEq, Repr, Inhabited

namespace Position

/-- The place about which nothing is known. -/
def unknown : Position := {}

def isKnown (p : Position) : Bool := p.graph != ""

/-- The text of a place, each part only when it is known. -/
def text (p : Position) : String :=
  if p.isKnown then
    p.graph ++ (if p.block ≥ 0 then s!" block@{p.block}" else "")
      ++ (if p.op ≥ 0 then s!" op={p.op}" else "")
  else "?"

end Position

/-! ## Codes -/

namespace Code

def unsupported : String := "A0001"
def noHash : String := "A0002"
def noDelattr : String := "A0003"
def noFormat : String := "A0004"
def dynamicAttrName : String := "A0005"
def classMethodCall : String := "A0006"
def noAttribute : String := "A0007"
def badSpecialization : String := "A0008"
def signatureMismatch : String := "A0100"
def variableKeywords : String := "A0101"
def enforceAndSignature : String := "A0102"
def declaredTypeViolated : String := "A0103"
def noUnion : String := "A0200"
def blockedBlocks : String := "A0201"
def constantAccess : String := "A0202"
def tooLate : String := "A0203"
def changeNotAllowed : String := "A0204"
def noRepresentation : String := "T0001"
def inconsistentType : String := "T0002"
def missingOperation : String := "T0003"
def finalizerNotLight : String := "T0004"
def containerInvariant : String := "T0005"
def invalidLoop : String := "J0001"
def noSpill : String := "J0002"
def immutableField : String := "J0003"
def backendFailed : String := "J0004"
def rawAllocation : String := "R0001"
def rawRelease : String := "R0002"
def rawDoubleFree : String := "R0003"

/-- The default description of every code. -/
def descriptions : List (String × String) :=
  [ (unsupported, "operation not supported in the restricted dialect"),
    (noHash, "hash() is not supported"),
    (noDelattr, "delattr() on a non-generic object"),
    (noFormat, "string formatting is not supported"),
    (dynamicAttrName, "getattr() with a non-constant attribute name"),
    (classMethodCall, "calling a classmethod is not supported"),
    (noAttribute, "no such attribute"),
    (badSpecialization, "invalid specialization directive"),
    (signatureMismatch, "signature mismatch"),
    (variableKeywords, "variable keyword arguments on heterogeneous __init__"),
    (enforceAndSignature, "enforceargs and signature cannot both be used"),
    (declaredTypeViolated, "argument violates the declared signature"),
    (noUnion, "cannot compute a union"),
    (blockedBlocks, "annotation is blocked"),
    (constantAccess, "prebuilt constant access failed"),
    (tooLate, "too late to change the list or dict definition"),
    (changeNotAllowed, "list change not allowed"),
    (noRepresentation, "no representation for annotation"),
    (inconsistentType, "inconsistent low-level type"),
    (missingOperation, "missing low-level operation"),
    (finalizerNotLight, "finalizer is not light"),
    (containerInvariant, "container invariant violated"),
    (invalidLoop, "invalid loop"),
    (noSpill, "no variable to spill"),
    (immutableField, "setfield on an immutable field"),
    (backendFailed, "backend compilation failed"),
    (rawAllocation, "raw allocation failed"),
    (rawRelease, "raw release failed"),
    (rawDoubleFree, "raw buffer released twice") ]

/-- The description of a code, also for a code that is not in the table. -/
def describe (code : String) : String := (descriptions.lookup code).getD "unknown error"

end Code

/-! ## Failures -/

/-- What an annotation failure carries besides its kind. -/
structure Report where
  code : String
  text : String
  pos : Position := {}
  source : List String := []
deriving Inhabited

namespace Report

/-- The report as one line, led by its place when that is known. -/
def line (r : Report) : String :=
  if r.pos.isKnown then s!"{r.pos.text}: [{r.code}] {r.text}" else s!"[{r.code}] {r.text}"

/-- A place is attached once: a known place is kept. -/
def located (r : Report) (pos : Position) : Report :=
  if r.pos.isKnown then r else { r with pos }

end Report

/-- The arithmetic causes that callers distinguish by identity. -/
inductive ArithCause where
  | wordOverflow
  | tooLarge
  | zeroDivision
  | invalidValue
  | byteOrder
  | negativeToUnsigned
deriving DecidableEq, Repr

def ArithCause.message : ArithCause → String
  | .wordOverflow => "integer overflow"
  | .tooLarge => "int too large to convert"
  | .zeroDivision => "integer division or modulo by zero"
  | .invalidValue => "invalid value"
  | .byteOrder => "byteorder must be either 'little' or 'big'"
  | .negativeToUnsigned => "can't convert negative int to unsigned"

/-- Why an operation of the compiler failed. -/
inductive Failure where
  /-- An operation outside the restricted dialect; `sides` are the two texts of a failed union. -/
  | annot (r : Report) (sides : Option (String × String))
  /-- A path that reads an attribute which is allowed and absent. -/
  | blocked (reason : String)
  /-- No representation or an inconsistent type; `missing` names an absent operation and its representation. -/
  | typer (r : Report) (missing : Option (String × String))
  | invalidLoop (reason : String)
  | noSpill (forbidden : Nat)
  | immutableField (descr : String)
  | backend (unit : String) (inner : Failure)
  | rawMemory (code op : String) (inner : Option Failure)
  | literalTooLarge (literal : String)
  | badLiteral (text : String)
  | arith (cause : ArithCause)
  /-- A cause with an explanation before it. -/
  | wrapped (text : String) (inner : Failure)
  /-- Two independent causes, in the order in which they arose. -/
  | both (first second : Failure)
  | plain (text : String)
deriving Inhabited

namespace Failure

def message : Failure → String
  | annot r _ => r.line
  | blocked reason => "harmlessly blocked: " ++ reason
  | typer r _ => r.line
  | invalidLoop reason => s!"[{Code.invalidLoop}] invalid loop: {reason}"
  | noSpill n => s!"[{Code.noSpill}] no variable to spill ({n} forbidden)"
  | immutableField d => s!"[{Code.immutableField}] setfield on immutable field {d}"
  | backend unit inner => s!"[{Code.backendFailed}] backend failed on {unit}: {inner.message}"
  | rawMemory code op (some inner) => s!"[{code}] {op}: {inner.message}"
  | rawMemory code op none => s!"[{code}] {op}"
  | literalTooLarge literal => s!"integer literal too large: {literal}"
  | badLiteral text => text
  | arith cause => cause.message
  | wrapped text inner => s!"{text}: {inner.message}"
  | both a b => s!"{a.message}; {b.message}"
  | plain text => text

/-- The causes inside a failure, outermost first. -/
def causes : Failure → List Failure
  | f@(backend _ inner) => f :: inner.causes
  | f@(rawMemory _ _ (some inner)) => f :: inner.causes
  | f@(wrapped _ inner) => f :: inner.causes
  | f@(both a b) => f :: (a.causes ++ b.causes)
  | f => [f]

/-- A failure of annotation. -/
def annotator (code text : String) : Failure := annot { code, text } none

/-- Two annotations without a common upper bound. -/
def union (left right reason : String) : Failure :=
  let reason := if reason = "" then "no common base" else reason
  annot { code := Code.noUnion, text := s!"cannot union {left} and {right}: {reason}" } (some (left, right))

/-- A failure of the typing stage. -/
def typing (code text : String) : Failure := typer { code, text } none

/-- A representation without a lowering for an operation. -/
def missing (op repr : String) : Failure :=
  typer { code := Code.missingOperation, text := s!"no lowering for {op} on {repr}" } (some (op, repr))

/-- The report of the first annotation failure among the causes. -/
def annotReport? (f : Failure) : Option Report :=
  f.causes.findSome? fun | annot r _ => some r | _ => none

/-- The report of the first typing failure among the causes. -/
def typerReport? (f : Failure) : Option Report :=
  f.causes.findSome? fun | typer r _ => some r | _ => none

def isInvalidLoop (f : Failure) : Bool :=
  f.causes.any fun | invalidLoop _ => true | _ => false

def isBlocked (f : Failure) : Bool :=
  f.causes.any fun | blocked _ => true | _ => false

/-- Where the failure arose: the place of an annotation failure comes before that of a typing one. -/
def position? (f : Failure) : Option Position :=
  let known : Option Report → Option Position := fun r => (r.map Report.pos).filter Position.isKnown
  known f.annotReport? <|> known f.typerReport?

/-- The code of a failure without a report, when this cause has one. -/
def ownCode? : Failure → Option String
  | invalidLoop _ => some Code.invalidLoop
  | noSpill _ => some Code.noSpill
  | immutableField _ => some Code.immutableField
  | backend _ _ => some Code.backendFailed
  | _ => none

/-- The code of a failure; empty when it has none.  Codes of reports come first, then the codes of
the trace compiler in ascending order, then those of raw memory. -/
def code (f : Failure) : String :=
  let report := (f.annotReport?.map Report.code) <|> (f.typerReport?.map Report.code)
  let own (c : String) : Option String := f.causes.findSome? fun g => g.ownCode?.filter (· = c)
  let raw := f.causes.findSome? fun | rawMemory c _ _ => some c | _ => none
  (report <|> own Code.invalidLoop <|> own Code.noSpill <|> own Code.immutableField
    <|> own Code.backendFailed <|> raw).getD ""

/-- Attaches a place to the failure itself; causes inside it keep theirs. -/
def located (f : Failure) (pos : Position) : Failure :=
  match f with
  | annot r sides => annot (r.located pos) sides
  | typer r m => typer (r.located pos) m
  | f => f

/-- Joins an optional earlier cause with a later one. -/
def join : Option Failure → Option Failure → Option Failure
  | some a, some b => some (both a b)
  | some a, none => some a
  | none, b => b

end Failure
end FlowCompiler
