import FlowCompiler.Script.Basic
import FlowCompiler.BuildInfo
import FlowCompiler.Partition
import FlowCompiler.RawMemory
import FlowCompiler.Settings
import FlowCompiler.Diagnostic
import FlowCompiler.BigInteger

/-!
# Scripts on settings, build information, raw memory and partitions
-/

namespace FlowCompiler.Script

open Document

/-! ## Settings -/

def settingsDoc (s : Settings) : Document :=
  let j := s.jit
  record
    [ ("translation", record [("gc", text s.gc), ("no_typeptr", bool s.noTypePtr),
        ("check_str_without_nul", bool s.checkStrWithoutNul), ("list_comprehension", bool s.listComprehension)]),
      ("annotator", record [("max_reflows", int s.maxReflows), ("default_specializer", text s.defaultSpecializer)]),
      ("jit", record [("threshold", int j.threshold), ("trace_eagerness", int j.eagerness), ("decay", int j.decay),
        ("counter_size", int j.counterSize), ("max_const_len", int j.maxConstLen), ("unroll_const", int j.unrollConst),
        ("unroll_var", int j.unrollVar), ("loop_longevity", int j.loopLongevity), ("enable", ofTexts j.enable)]),
      ("regalloc", record [("registers", int s.regs.registers), ("caller_saved", list (s.regs.callerSaved.map int)),
        ("result_reg", int s.regs.resultReg)]),
      ("log", record [("level", text s.logLevel), ("encoding", text s.logEncoding), ("outputs", ofTexts s.logOutputs)]) ]

def settings (d : Document) : Document :=
  if (d.get "missing").isTrue then succeeded (bool true)
  else answer do
    let s ← match d.find? "toml" with
      | some t => Settings.parse t.toText
      | none => .ok {}
    let enabled := (d.get "enabled").texts.map fun n => bool (s.jit.optEnabled n)
    let base := [("config", settingsDoc s), ("enabled", list enabled)]
    if (d.get "save").isTrue then do
      let again ← Settings.parse s.save
      .ok (record (base ++ [("text", text s.save), ("reloaded", settingsDoc again)]))
    else .ok (record base)

/-! ## Build information -/

def toBuildInfo (d : Document) : BuildInfo :=
  let t (k : String) : List String := (d.get k).texts
  { preIncludes := t "pre", includes := t "includes", includeDirs := t "include_dirs", postIncludes := t "post",
    sources := t "sources", libraries := t "libraries", libraryDirs := t "library_dirs",
    linkFlags := t "link_flags", compileFlags := t "compile_flags" }

def buildInfoDoc (b : BuildInfo) : Document :=
  record [("pre", ofTexts b.preIncludes), ("includes", ofTexts b.includes), ("include_dirs", ofTexts b.includeDirs),
    ("post", ofTexts b.postIncludes), ("sources", ofTexts b.sources), ("libraries", ofTexts b.libraries),
    ("library_dirs", ofTexts b.libraryDirs), ("link_flags", ofTexts b.linkFlags),
    ("compile_flags", ofTexts b.compileFlags)]

def buildInfos (d : Document) : Document :=
  let infos := (d.get "infos").items.map toBuildInfo
  let merged := BuildInfo.merge infos
  succeeded (record [("merged", buildInfoDoc merged), ("empty", bool merged.isEmpty),
    ("empties", list (infos.map fun i => bool i.isEmpty)), ("header", text merged.header),
    ("link_args", ofTexts merged.linkArgs)])

/-! ## Raw memory -/

structure ArenaScript where
  arena : Arena := {}
  names : List (String × BufferRef × String) := []

abbrev ArenaM := EStateM Failure ArenaScript

/-- Runs an arena action inside a script. -/
def onArena {α : Type} (act : Arena.M α) : ArenaM α := do
  let s ← get
  match act.run s.arena with
  | .ok a arena => set { s with arena }; pure a
  | .error f arena => set { s with arena }; throw f

def nameBuffer (name tag : String) (r : BufferRef) : ArenaM Document := do
  modify fun s => { s with names := (name, r, tag) :: s.names }
  let bs ← onArena (Arena.bytesOf r)
  pure (record [("len", nat bs.length), ("tag", text tag), ("bytes", hexBytes bs)])

def named (name : String) : ArenaM (BufferRef × String) := do
  match (← get).names.lookup name with
  | some r => pure r
  | none => pure (⟨0, 0⟩, "")

/-- What the action inside a scope does besides looking: fail, free, or both. -/
def scopeEnd (how : String) (bufs : List (BufferRef × String)) : Arena.M Unit := do
  if how = "free" || how = "failfree" then
    match bufs with
    | (r, tag) :: _ => Arena.free r tag
    | [] => pure ()
  if how = "fail" || how = "failfree" then throw (.plain "callback failed")

def arenaStep (d : Document) : ArenaM Document := do
  let arg (i : Nat) : Document := d.nth i
  let name := (arg 1).toText
  let how := (arg 2).toText
  match (arg 0).toText with
  | "malloc" => nameBuffer name (arg 3).toText (← onArena (Arena.malloc (arg 2).toInt (arg 3).toText))
  | "str2charp" => nameBuffer name Arena.textTag (← onArena (Arena.ofBytes (utf8 (arg 2).toText)))
  | "poke" => onArena (Arena.poke (← named name).1 (arg 2).toNat (UInt8.ofNat (arg 3).toNat)); pure (bool true)
  | "charp2str" => return hexBytes (← onArena (Arena.toTextBytes (← named name).1))
  | "charp2strn" => return hexBytes (← onArena (Arena.firstBytes (← named name).1 (arg 2).toNat))
  | "free" => do
    let (r, tag) ← named name
    onArena (Arena.free r tag)
    pure (bool true)
  | "freenil" => pure (bool true)
  | "freeother" => throw (.rawMemory Code.rawDoubleFree ("free " ++ (← named name).2) none)
  | "freeall" => onArena Arena.freeAll; pure (bool true)
  | "scoped" => onArena (Arena.withText (utf8 name) fun r => do
      let seen ← Arena.toTextBytes r
      scopeEnd how [(r, Arena.textTag)]
      pure (hexBytes seen))
  | "scopedbuf" => onArena (Arena.withBuffer (arg 1).toInt fun r => do
      let seen ← Arena.bytesOf r
      scopeEnd how [(r, "scoped")]
      pure (nat seen.length))
  | "scopedarray" => onArena (Arena.withTexts ((arg 1).texts.map utf8) fun rs => do
      let seen ← rs.mapM Arena.toTextBytes
      if rs.isEmpty then pure () else scopeEnd how (rs.map (·, Arena.textTag))
      pure (list (seen.map hexBytes)))
  | "leakcheck" => onArena Arena.checkLeaks; pure (bool true)
  | _ => pure null

def arenaEntry (d : Document) : ArenaM Document := do
  let r ← tryCatch (arenaStep d) (fun f => pure (failed f))
  let a := (← get).arena
  pure (record [("r", r), ("live", int a.liveBytes), ("leaks", ofTexts a.leaks)])

def arenas (d : Document) : Document := succeeded (list (runSteps arenaEntry {} (d.get "steps").items).1)

/-! ## Partitions -/

/-- The information of a class of the script: its members, and the key it was first made for. -/
abbrev Members := String × List String

def absorbMembers (a b : Members) : Members × Option Failure :=
  ((a.1, a.2 ++ b.2),
    if a.1.startsWith "!" || b.1.startsWith "!" then some (.plain "absorb failed") else none)

def partitionStep (d : Document) : EStateM Failure (Partition String Members) Document := do
  let a := (d.nth 1).toText
  let b := (d.nth 2).toText
  let p ← get
  match (d.nth 0).toText with
  | "find" =>
    let (p, r, i) := p.find a (a, [a])
    set p
    pure (list [text r, ofTexts i.2])
  | "lookup" =>
    let (p, i) := p.lookup a
    set p
    pure (ofOption (i.map fun i => ofTexts i.2))
  | "contains" => pure (bool (p.contains a))
  | "union" =>
    let m := p.union a b (a, [a]) (b, [b]) absorbMembers
    set m.partition
    match m.failure with
    | some f => throw f
    | none => pure (list [bool m.changed, text m.rep, ofTexts m.info.2])
  | "len" => pure (nat p.length)
  | "infos" =>
    let rows := p.infos.map fun i => joinWith "," i.2
    pure (ofTexts (rows.mergeSort (fun x y => decide (x ≤ y))))
  | _ => pure null

def partitions (d : Document) : Document := succeeded (list (runSteps partitionStep {} (d.get "steps").items).1)

end FlowCompiler.Script

/-! ## Scripts on diagnostics

Failures described by documents, reported one after another to a journal. -/

namespace FlowCompiler.Script

open Document

def toPosition (d : Document) : Position :=
  { graph := (d.nth 0).toText, block := (d.nth 1).toInt, op := (d.nth 2).toInt }

/-- A place when it is given. -/
def locate (f : Failure) (d : Document) : Failure := if d.isNull then f else f.located (toPosition d)

def withSource (f : Failure) (source : List String) : Failure :=
  match f with
  | .annot r s => .annot { r with source } s
  | f => f

/-- A failure from its description; descriptions are at most `fuel` deep. -/
def toFailure : (fuel : Nat) → Document → Failure
  | 0, _ => .plain ""
  | n + 1, d =>
    let t (k : String) : String := (d.get k).toText
    let inner : Option Failure := (d.find? "inner").map (toFailure n)
    match t "kind" with
    | "annotator" =>
      locate (locate (withSource (.annotator (t "code") (t "msg")) (d.get "source").texts) (d.get "pos")) (d.get "pos2")
    | "union" => locate (.union (t "left") (t "right") (t "msg")) (d.get "pos")
    | "blocked" => .blocked (t "msg")
    | "typer" => locate (.typing (t "code") (t "msg")) (d.get "pos")
    | "missing" => locate (.missing (t "msg") (t "left")) (d.get "pos")
    | "invalidloop" => .invalidLoop (t "msg")
    | "nospill" => .noSpill (d.get "n").toNat
    | "bogus" => .immutableField (t "msg")
    | "backend" => .backend (t "msg") (inner.getD (.plain "<nil>"))
    | "raw" => .rawMemory (t "code") (t "msg") inner
    | "wrap" => .wrapped (t "msg") (inner.getD (.plain ""))
    | _ => .plain (t "msg")

def diagnosticDoc (d : Diagnostic) : Document :=
  record [("code", text d.code), ("level", text d.severity.text), ("message", text d.message),
    ("pos", text d.pos.text), ("source", ofTexts d.source)]

def severityOf (n : Int) : Severity :=
  if n = 0 then .error else if n = 1 then .warning else if n = 2 then .note else .other

def diagStep (l : Diagnostic.Layout) (j : Journal) (d : Document) : Document × Journal :=
  if d.has "warn" then
    let j := j.warn (toPosition (d.get "pos")) (d.get "warn").toText
    let w : Diagnostic := (j.warnings.getLast?).getD { message := "" }
    (record [("text", text (w.render l)), ("diag", diagnosticDoc w), ("summary", text j.summary),
      ("has_errors", bool j.hasErrors)], j)
  else if d.has "note" then
    let level := if d.has "level" then (d.get "level").toInt else 2
    let g : Diagnostic := { code := (d.get "code").toText, severity := severityOf level,
                            message := (d.get "note").toText, notes := (d.get "notes").texts }
    (record [("text", text (g.render l))], j)
  else
    let f := toFailure 64 d
    let j := j.reportFailure f
    let g := Diagnostic.ofFailure f
    let shown := text (g.render l)
    (record [("error", text f.message), ("code", text f.code), ("kind", text (kindOf f)),
      ("pos", text ((f.position?.map Position.text).getD "?")), ("pos_known", bool f.position?.isSome),
      ("invalid_loop", bool f.isInvalidLoop), ("blocked", bool f.isBlocked), ("text", shown), ("format", shown),
      ("diag", diagnosticDoc g), ("summary", text j.summary), ("has_errors", bool j.hasErrors)], j)

def diagnostics (d : Document) : Document :=
  if (d.get "codes").given then succeeded (list ((d.get "codes").texts.map fun c => text (Code.describe c)))
  else
    let context := ((d.find? "context").bind int?).getD 2
    let l : Diagnostic.Layout :=
      { colours := (d.get "colors").isTrue, showSource := !(d.get "nosource").isTrue, context }
    let (out, _) := (d.get "steps").items.foldl (fun (acc, j) s =>
      let (r, j) := diagStep l j s
      (r :: acc, j)) (([] : List Document), ({} : Journal))
    succeeded (list out.reverse)

end FlowCompiler.Script

/-! ## Scripts on numbers

Single calls of the word operations and of the operations on integers of any size. -/

namespace FlowCompiler.Script

open Document

def wordDoc (w : Int64) : Document := decimal w.toInt
def unsignedDoc (u : UInt64) : Document := nat' u.toNat
where nat' (n : Nat) : Document := text (toString n)

/-- A single-precision number rounded from a double, as its bits. -/
def singleBits (d : Double) : UInt32 := d.toFloat.toFloat32.toBits

/-- The word operations by name, on positional arguments. -/
def wordOps : List (String × (List Document → Except Failure Document)) :=
  let a (i : Nat) (xs : List Document) : Document := (xs[i]?).getD null
  let w i xs := (a i xs).toWord
  let u i xs := (a i xs).toUnsigned
  [ ("int_mask", fun xs => .ok (wordDoc (u 0 xs).toInt64)),
    ("r_uint", fun xs => .ok (unsignedDoc (w 0 xs).toUInt64)),
    ("mask_bits", fun xs => .ok (wordDoc (Word.maskBits (w 0 xs) (a 1 xs).toInt (a 2 xs).isTrue))),
    ("ovf_add", fun xs => (Word.addChecked (w 0 xs) (w 1 xs)).map wordDoc),
    ("ovf_sub", fun xs => (Word.subChecked (w 0 xs) (w 1 xs)).map wordDoc),
    ("ovf_mul", fun xs => (Word.mulChecked (w 0 xs) (w 1 xs)).map wordDoc),
    ("ovf_neg", fun xs => (Word.negChecked (w 0 xs)).map wordDoc),
    ("ovf_lshift", fun xs => (Word.shiftLeftChecked (w 0 xs) (u 1 xs).toNat).map wordDoc),
    ("ovf_float_to_int", fun xs => (toDouble (a 0 xs)).toWord.map wordDoc),
    ("int_between", fun xs => .ok (bool (Word.between (w 0 xs) (w 1 xs) (w 2 xs)))),
    ("highest_bit", fun xs => (Word.highestBit (u 0 xs)).map nat),
    ("byteswap16", fun xs => .ok (nat (Word.byteswap (u 0 xs) 2).toNat)),
    ("byteswap32", fun xs => .ok (nat (Word.byteswap (u 0 xs) 4).toNat)),
    ("byteswap64", fun xs => .ok (unsignedDoc (Word.byteswap (u 0 xs) 8))),
    ("longlong2float", fun xs => .ok (ofDouble ⟨(w 0 xs).toUInt64⟩)),
    ("float2longlong", fun xs => .ok (wordDoc (toDouble (a 0 xs)).bits.toInt64)),
    ("uint2singlefloat", fun xs => .ok (ofDouble (Double.ofFloat (Float32.ofBits (u 0 xs).toUInt32).toFloat))),
    ("singlefloat2uint", fun xs => .ok (nat (singleBits (toDouble (a 0 xs))).toNat)),
    ("parse", fun xs => (Numeral.parse (a 0 xs).toText (a 1 xs).toInt).map fun n =>
      record [("negative", bool n.negative), ("base", nat n.base), ("digits", text (String.ofList n.digits))]),
    ("string_to_int", fun xs => (Numeral.toWord (a 0 xs).toText (a 1 xs).toInt).map wordDoc) ]

def words (d : Document) : Document :=
  match wordOps.lookup (d.get "fn").toText with
  | some f => answer (f (d.get "args").items)
  | none => badRequest

def big (d : Document) (name : String) : Int := (d.get name).toInt
def baseOf (d : Document) : Int := ((d.find? "base").map toInt).getD 10

/-- Operations that always succeed with an integer. -/
def bigTotal : List (String × (Document → Int)) :=
  [ ("from_int", fun d => big d "n"), ("from_uint", fun d => big d "n"),
    ("from_bool", fun d => if (d.get "v").isTrue then 1 else 0),
    ("uint_mask", fun d => (BigInteger.lowBits (big d "a")).toNat),
    ("ulonglong_mask", fun d => (BigInteger.lowBits (big d "a")).toInt64.toInt),
    ("hash", fun d => (BigInteger.hash (big d "a")).toInt),
    ("add", fun d => big d "a" + big d "b"), ("sub", fun d => big d "a" - big d "b"),
    ("mul", fun d => big d "a" * big d "b"),
    ("and", fun d => BigInteger.and (big d "a") (big d "b")),
    ("or", fun d => BigInteger.or (big d "a") (big d "b")),
    ("xor", fun d => BigInteger.xor (big d "a") (big d "b")),
    ("neg", fun d => -big d "a"), ("abs", fun d => (big d "a").natAbs),
    ("invert", fun d => BigInteger.complement (big d "a")) ]

/-- Operations that may fail, with an integer as result. -/
def bigPartial : List (String × (Document → Except Failure Int)) :=
  [ ("from_float", fun d => BigInteger.ofDouble (toDouble (d.get "f"))),
    ("from_string", fun d => BigInteger.ofLiteral (d.get "s").toText (baseOf d)),
    ("from_decimal", fun d => BigInteger.ofLiteral (d.get "s").toText 10),
    ("to_int", fun d => (BigInteger.toWord (big d "a")).map Int64.toInt),
    ("to_uint", fun d => (BigInteger.toUnsigned (big d "a")).map fun u => (u.toNat : Int)),
    ("floordiv", fun d => BigInteger.floorDiv (big d "a") (big d "b")),
    ("mod", fun d => BigInteger.mod (big d "a") (big d "b")),
    ("pow", fun d => BigInteger.pow (big d "a") (big d "b") ((d.find? "mod").map toInt)),
    ("lshift", fun d => BigInteger.shiftLeft (big d "a") (big d "n")),
    ("rshift", fun d => BigInteger.shiftRight (big d "a") (big d "n")),
    ("from_bytes", fun d => BigInteger.ofBytes (bytesOfHex (d.get "data").toText) (d.get "order").toText
      (d.get "signed").isTrue) ]

/-- Operations with results of other kinds. -/
def bigOther : List (String × (Document → Except Failure Document)) :=
  [ ("to_float", fun d => (BigInteger.toDouble (big d "a")).map ofDouble),
    ("sign", fun d => .ok (int (big d "a").sign)),
    ("compare", fun d =>
      let c := BigInteger.compare (big d "a") (big d "b")
      .ok (list [int c, bool (c = 0), bool (c < 0)])),
    ("int_eq", fun d => .ok (bool (big d "a" = big d "n"))),
    ("is_zero", fun d => .ok (bool (big d "a" = 0))),
    ("bit_length", fun d => .ok (nat (BigInteger.bitLength (big d "a")))),
    ("divmod", fun d => (BigInteger.divMod (big d "a") (big d "b")).map fun (q, r) => list [decimal q, decimal r]),
    ("truediv", fun d => (BigInteger.trueDiv (big d "a") (big d "b")).map ofDouble),
    ("format", fun d => .ok (text (BigInteger.format (big d "a") (baseOf d).toNat (d.get "prefix").toText
      (d.get "suffix").toText))),
    ("oct", fun d => .ok (text (BigInteger.octal (big d "a")))),
    ("hex", fun d => .ok (text (BigInteger.hex (big d "a")))),
    ("to_bytes", fun d => (BigInteger.toBytes (big d "a") (big d "n") (d.get "order").toText
      (d.get "signed").isTrue).map hexBytes) ]

def bigIntegers (d : Document) : Document :=
  let fn := (d.get "fn").toText
  match bigTotal.lookup fn, bigPartial.lookup fn, bigOther.lookup fn with
  | some f, _, _ => succeeded (decimal (f d))
  | _, some f, _ => answer ((f d).map decimal)
  | _, _, some f => answer (f d)
  | _, _, _ => badRequest

end FlowCompiler.Script
