import FlowCompiler.Failure

/-!
# Diagnostics

A diagnostic is what a user reads of a failure or a warning: a headline, the place, the operations of
the block around that place, and notes.  A journal collects the diagnostics of one run.
-/

namespace FlowCompiler

inductive Severity where
  | error
  | warning
  | note
  | other
deriving DecidableEq

def Severity.text : Severity → String
  | .error => "error"
  | .warning => "warning"
  | .note => "note"
  | .other => "unknown"

/-- Terminal colours. -/
inductive Colour where
  | red
  | blue
  | cyan
  | boldRed
  | boldYellow

def Colour.code : Colour → String
  | .red => "\x1b[31m"
  | .blue => "\x1b[34m"
  | .cyan => "\x1b[36m"
  | .boldRed => "\x1b[1;31m"
  | .boldYellow => "\x1b[1;33m"

def Colour.paint (c : Colour) (enabled : Bool) (s : String) : String :=
  if enabled then c.code ++ s ++ "\x1b[0m" else s

def Severity.colour : Severity → Colour
  | .error => .boldRed
  | .warning => .boldYellow
  | _ => .cyan

structure Diagnostic where
  code : String := ""
  severity : Severity := .error
  message : String
  pos : Position := { block := 0, op := 0 }
  source : List String := []
  notes : List String := []

namespace Diagnostic

/-- What a failure tells the user; a report brings its own text and place. -/
def ofFailure (f : Failure) : Diagnostic :=
  match f.annotReport?, f.typerReport? with
  | some r, _ => { code := f.code, message := r.text, pos := r.pos, source := r.source }
  | none, some r => { code := f.code, message := r.text, pos := r.pos }
  | none, none => { code := f.code, message := f.message }

/-- How diagnostics are laid out. -/
structure Layout where
  colours : Bool := false
  showSource : Bool := true
  context : Int := 2

/-- The range of operations shown around one, or all of them when it is not among them. -/
def shownRange (context : Int) (count : Nat) (op : Int) : Int × Int :=
  if 0 ≤ op && op < count then (max 0 (op - context), min count (op + context + 1)) else (0, count)

def blanks (n : Nat) : String := String.ofList (List.replicate n ' ')

/-- One line of the source, with a marker line below when it is the failing one. -/
def sourceLine (l : Layout) (width : Nat) (op : Int) (i : Nat) (text : String) : String :=
  let number := toString i
  let number := blanks (width - number.length) ++ number
  let line := Colour.blue.paint l.colours number ++ Colour.blue.paint l.colours " |" ++ " " ++ text ++ "\n"
  if op = i then
    line ++ blanks (width + 3)
      ++ Colour.red.paint l.colours (String.ofList (List.replicate text.utf8ByteSize '^')) ++ "\n"
  else line

def sourceText (l : Layout) (ops : List String) (op : Int) : String :=
  let (lo, hi) := shownRange l.context ops.length op
  let width := (toString hi).length
  String.join ((ops.zipIdx.filter fun (_, i) => lo ≤ (i : Int) && (i : Int) < hi).map
    fun (t, i) => sourceLine l width op i t)

/-- The text of a diagnostic. -/
def render (l : Layout) (d : Diagnostic) : String :=
  let paint := d.severity.colour.paint l.colours
  let code := if d.code = "" then "?" else d.code
  let head := paint d.severity.text ++ paint s!"[{code}]" ++ ": " ++ d.message ++ "\n"
  let place := if d.pos.isKnown then
    " " ++ Colour.cyan.paint l.colours "-->" ++ " " ++ Colour.cyan.paint l.colours d.pos.text ++ "\n" else ""
  let source := if l.showSource && !d.source.isEmpty then sourceText l d.source d.pos.op else ""
  let notes := d.notes.map fun n => Colour.cyan.paint l.colours " = note:" ++ " " ++ n ++ "\n"
  head ++ place ++ source ++ String.join notes

end Diagnostic

/-- The diagnostics of one run, oldest first. -/
structure Journal where
  errors : List Diagnostic := []
  warnings : List Diagnostic := []
deriving Inhabited

namespace Journal

def reportFailure (j : Journal) (f : Failure) : Journal :=
  { j with errors := j.errors ++ [Diagnostic.ofFailure f] }

def warn (j : Journal) (pos : Position) (text : String) : Journal :=
  { j with warnings := j.warnings ++ [{ severity := .warning, message := text, pos }] }

def hasErrors (j : Journal) : Bool := !j.errors.isEmpty

def summary (j : Journal) : String := s!"{j.errors.length} error(s), {j.warnings.length} warning(s)"

end Journal
end FlowCompiler
