import FlowCompiler.Command.Run
import FlowCompiler.Script.Compile
import FlowCompiler.Script.Lattice
import FlowCompiler.Script.LowLevel
import FlowCompiler.Script.Trace.Pieces
import FlowCompiler.Script.Trace.Session

/-!
# Answering scripts

Every kind of request by name.
-/

/-! ## Scripts on the command -/

namespace FlowCompiler.Script

open Document

/-- The lines of an output; one line end at its end is not a line. -/
def outputLines (s : String) : List String :=
  if s = "" then [] else ((if s.endsWith "\n" then String.ofList s.toList.dropLast else s).splitOn "\n")

/-- How much the analysis had to do is not compared. -/
def withoutSteps (line : String) : String :=
  let key := "\"annotator_steps\": "
  let trimmed := line.toList.dropWhile (· = ' ')
  if key.toList.isPrefixOf trimmed then
    String.ofList (line.toList.takeWhile (· = ' ')) ++ key ++ "0" ++ String.ofList (trimmed.filter (· = ','))
  else line

def commands (d : Document) : Document :=
  let files := (d.get "files").fields.map fun (n, t) => (n, t.toText)
  let env : Command.Environment := { locale := (d.get "lang").toText, language := (d.get "slang").toText }
  let (code, c) := Command.run env files (d.get "args").texts
  let out := (outputLines c.out).map withoutSteps
  let read := (d.get "read").texts.map fun n => (n, ofOptText (c.files.lookup n))
  succeeded (record [("code", nat code), ("out", ofTexts out), ("err", ofTexts (outputLines c.err)), ("files", record read)])

end FlowCompiler.Script

namespace FlowCompiler.Script

open Document

def requests : List (String × (Document → Document)) :=
  [ ("rarith", words), ("bigint", bigIntegers), ("diag", diagnostics), ("config", settings),
    ("eci", buildInfos), ("arena", arenas), ("unionfind", partitions),
    ("lltype", lowLevel), ("llop", lowOps),
    ("checkgraph", checkGraphs), ("lattice", lattices), ("pairmro", pairOrders),
    ("translate", compiles), ("matrix", matrices), ("strhash", stringHashes),
    ("opnum", opcodes), ("effect", effects), ("intbound", bounds), ("exec", executions),
    ("strhelper", stringFunctions), ("trace", recordings),
    ("optimize", optimizations), ("resume", resumptions),
    ("counter", counters), ("gcmap", constPointers), ("regalloc", registerScripts),
    ("jit", sessions), ("cli", commands) ]

/-- Answers one request; requests inside a batch are at most `depth` deep. -/
def answerRequest : (depth : Nat) → Document → Document
  | 0, _ => badRequest
  | n + 1, d =>
    let op := (d.get "op").toText
    if op = "batch" then succeeded (list ((d.get "reqs").items.map (answerRequest n)))
    else match requests.lookup op with
      | some f => f d
      | none => badRequest

/-- Whether a text starts with the address of an object: `0xc` and nine more digits. -/
def startsWithAddress (cs : List Char) : Bool :=
  let digits := (cs.drop 3).take 9
  "0xc".toList.isPrefixOf cs && digits.length = 9 && digits.all fun c => c.isDigit || 'a' ≤ c && c ≤ 'f'

/-- The addresses in a text are no part of an answer; the first `skip` characters are left out. -/
def maskAddresses : (skip : Nat) → List Char → List Char
  | _, [] => []
  | n + 1, _ :: cs => maskAddresses n cs
  | 0, c :: cs => if startsWithAddress (c :: cs) then "0xADDR".toList ++ maskAddresses 11 cs else c :: maskAddresses 0 cs

def maskText (s : String) : String := String.ofList (maskAddresses 0 s.toList)

mutual

def mask : Document → Document
  | text s => text (maskText s)
  | list xs => list (maskItems xs)
  | record fields => record (maskFields fields)
  | d => d

def maskItems : List Document → List Document
  | [] => []
  | x :: xs => mask x :: maskItems xs

def maskFields : List (String × Document) → List (String × Document)
  | [] => []
  | (name, x) :: fields => (maskText name, mask x) :: maskFields fields

end

def respond (depth : Nat) (d : Document) : Document := mask (answerRequest depth d)

end FlowCompiler.Script
