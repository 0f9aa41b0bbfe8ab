import FlowCompiler.Trace.Optimize.Virtuals

/-!
# The pass of strings

Strings of known length, concatenations and parts of strings are virtual.  Their lengths and characters
are read off their parts, and calls that compare strings become comparisons of characters or calls of
functions for the case at hand.
-/

namespace FlowCompiler.Trace.Strings

open OptimizeM

def give (next : Emit) : Emit := fun op => do
  modify fun s => { s with lastString := .op op }
  next op

def markRemoved : OptimizeM Unit := modify fun s => { s with lastString := .removed }

/-- The result of an operation is a new virtual string. -/
def make (op : Op) (v : Virtual) : OptimizeM Unit := Virtuals.make op v .nonNull none none

/-- The parts of a string, when it is virtual and a part of another one. -/
def slice? (x : Info) : Option (InfoId × InfoId × InfoId) :=
  match x.isVirtual, x.virt with
  | true, some (.slice _ str start length) => some (str, start, length)
  | _, _ => none

def plain? (x : Info) : Option (Bool × Array (Option InfoId)) :=
  match x.isVirtual, x.virt with
  | true, some (.plain u chars) => some (u, chars)
  | _, _ => none

/-- A constant that is an index into a list of a given length. -/
def indexBelow (n : Option Int64) (length : Nat) : Option Nat :=
  n.bind fun n => if 0 ≤ n.toInt && n.toInt < length then some n.toInt.toNat else none

/-! ## Characters -/

/-- The character of a string at an index, read off the parts of the string as far as they are known. -/
def charAt (emit : Emit) (m : StringMode) : (fuel : Nat) → (str index : InfoId) → (result : Option Box) → OptimizeM InfoId
  | 0, _, index, _ => pure index
  | n + 1, str, index, result => do
    ensureNonNull str
    let (str, index) ← match slice? (← info str) with
      | some (whole, start, _) => do
        let i ← force emit index
        let full ← addLengths emit (((← info start).box).getD default) i
        pure (whole, ← idOf full)
      | none => pure (str, index)
    let at_ := (← info index).constInt?
    match (← info str).virt, at_ with
    | some (.plain _ chars), _ =>
      match (indexBelow at_ chars.size).bind fun k => (chars[k]?).join with
      | some c => pure c
      | none => fromMemory str index result
    | some (.concat _ l r _), some k => do
      match (← stringLength emit m l none).int? with
      | some len =>
        if k < len then charAt emit m n l index none
        else charAt emit m n r (← idOf (.const (.int (k - len)))) none
      | none => fromMemory str index result
    | _, _ => fromMemory str index result
where
  fromMemory (str index : InfoId) (result : Option Box) : OptimizeM InfoId := do
    let s ← force emit str
    let i ← force emit index
    idOf (← readChar emit m s i result)

def char (emit : Emit) (m : StringMode) (str index : InfoId) (result : Option Box) : OptimizeM InfoId := do
  charAt emit m (← depth) str index result

def getItem (next : Emit) (m : StringMode) (op : Op) : OptimizeM Unit := do
  let str ← idOf (op.arg 0)
  let r ← char (give next) m str (← idOf (op.arg 1)) op.result
  if ((← get).id? (.box (op.result.getD default))).isNone then setEqual op.result r

/-- Notes a character of a string of known length. -/
def noteChar (i : InfoId) (place : Nat) (c : InfoId) : OptimizeM Unit := update i fun x =>
  match x.virt with
  | some (.plain u chars) => { x with virt := some (.plain u (chars.setIfInBounds place (some c))) }
  | _ => x

def setItem (next : Emit) (op : Op) : OptimizeM Unit := do
  let i ← idOf (op.arg 0)
  match plain? (← info i) with
  | some (_, chars) =>
    match indexBelow (← constIntOf (op.arg 1)) chars.size with
    | some k => do noteChar i k (← idOf (op.arg 2))
    | none => outside i
  | none => outside i
where
  outside (i : InfoId) : OptimizeM Unit := do
    ensureNonNull i
    give next op

/-! ## Whole strings -/

def newString (next : Emit) (m : StringMode) (op : Op) : OptimizeM Unit := do
  let limit := (← get).limits.constLen
  match ← constIntOf (op.arg 0) with
  | some n =>
    if 0 ≤ n && n.toInt ≤ limit then make op (.plain m.unicode (Array.replicate n.toInt.toNat none)) else allocated
  | none => allocated
where
  allocated : OptimizeM Unit := do
    ensureNonNull (← resultId op)
    give next op
    rememberPure m.strlen [.box (op.result.getD default)] ((← current op).arg 0)

def length (next : Emit) (m : StringMode) (op : Op) : OptimizeM Unit := do
  let v ← stringLength (give next) m (← idOf (op.arg 0)) op.result
  if some v ≠ op.result.map .box then setEqual op.result (← idOf v)

/-- Copies of known characters are written one by one; `room` is the length of a target that was virtual
at the start. -/
def copyKnown (next : Emit) (m : StringMode) (src dst : InfoId) (room : Nat) (first start : Int64) :
    (n : Nat) → (done : Int64) → OptimizeM Unit
  | 0, _ => pure ()
  | n + 1, done => do
    let c ← char (give next) m src (← idOf (.const (.int (done + first)))) none
    let place := start + done
    if place.toInt < room then noteChar dst place.toInt.toNat c else write c place
    copyKnown next m src dst room first start n (done + 1)
where
  write (c : InfoId) (place : Int64) : OptimizeM Unit := do
    let target ← force (give next) dst
    let ch ← force (give next) c
    give next { code := m.setitem, args := [target, .const (.int place), ch] }

/-- The longest copy into an allocated string that is written out. -/
def longestCopy : Int64 := 20

def copyContents (next : Emit) (m : StringMode) (op : Op) : OptimizeM Unit := do
  let src ← idOf (op.arg 0)
  let dst ← idOf (op.arg 1)
  let first ← idOf (op.arg 2)
  let place ← idOf (op.arg 3)
  let len ← idOf (op.arg 4)
  let n := (← info len).constInt?
  if n = some 0 then return
  let x ← info src
  let known := x.isVirtual || x.isConst
  let room := (plain? (← info dst)).map fun p => p.2.size
  match (← info first).constInt?, (← info place).constInt?, n with
  | some a, some b, some n =>
    if known && (n < longestCopy || room.isSome) then copyKnown next m src dst (room.getD 0) a b n.toInt.toNat 0
    else inMemory [src, dst, first, place, len]
  | _, _, _ => inMemory [src, dst, first, place, len]
where
  inMemory (parts : List InfoId) : OptimizeM Unit := do
    let vs ← parts.mapM (force (give next))
    let v (k : Nat) : Value := (vs[k]?).getD default
    let _ ← copyContent (give next) m (v 0) (v 1) (v 2) (v 3) (v 4) false

/-! ## Calls -/

/-- Calls a function made for a special case. -/
def callSpecial (next : Emit) (m : StringMode) (special : Nat) (args : List Value) (result : Option Box) : OptimizeM Unit := do
  let number := special + m.offset
  match (← get).table.lookup number with
  | none => throw (.plain s!"no helper registered for oopspec {number}")
  | some (f, d) => give next { code := .call, args := .ofRef f :: args, result, descr := some (.call d) }

/-- The first characters of two strings. -/
def firstChars (next : Emit) (m : StringMode) (x y : InfoId) : OptimizeM (Value × Value) := do
  let first ← idOf zero
  let a ← char (give next) m x first none
  let b ← char (give next) m y first none
  let u ← force (give next) a
  let v ← force (give next) b
  pure (u, v)

def sliceCall (next : Emit) (m : StringMode) (op : Op) : OptimizeM Unit := do
  let str ← idOf (op.arg 1)
  let start ← idOf (op.arg 2)
  let stop ← idOf (op.arg 3)
  ensureNonNull str
  let stopV ← force (give next) stop
  let startV ← force (give next) start
  let len ← subLengths (give next) stopV startV
  let (str, start) ← match slice? (← info str) with
    | some (whole, inner, _) => do
      let full ← addLengths (give next) (((← info inner).box).getD default) startV
      pure (whole, ← idOf full)
    | none => pure (str, start)
  make op (.slice m.unicode str start (← idOf len))
  markRemoved

/-- A comparison in which one string is empty, or one character, or null; tells whether it is settled. -/
def equalShort (restart next : Emit) (m : StringMode) (x y : InfoId) (result : Option Box) : OptimizeM Bool := do
  let length := (← stringLength? m y).bind Value.int?
  if length = some 0 then
    let a ← info x
    let l ← if a.isNonNull then do pure (some (← stringLength (give next) m x none)) else stringLength? m x
    match l with
    | some l => do
      restart { code := .intEq, args := [l, zero], result }
      return true
    | none => pure ()
  if length = some 1 then
    if (← stringLength? m x).bind Value.int? = some 1 then
      let (a, b) ← firstChars next m x y
      restart { code := .intEq, args := [a, b], result }
      return true
    match slice? (← info x) with
    | some (str, start, len) => do
      let c ← char (give next) m y (← idOf zero) none
      let args ← [str, start, len, c].mapM (force (give next))
      callSpecial next m Special.equalSliceChar args result
      return true
    | none => pure ()
  let a ← info x
  if (← info y).isNull then
    if a.isNonNull then setConstInt result 0
    else if a.isNull then setConstInt result 1
    else do
      let v ← force (give next) x
      give next { code := .ptrEq, args := [v, .null], result }
    return true
  pure false

/-- A comparison with one character, or of a part of a string; tells whether it is settled. -/
def equalPart (next : Emit) (m : StringMode) (x y : InfoId) (result : Option Box) : OptimizeM Bool := do
  if (← stringLength? m y).bind Value.int? = some 1 then
    let c ← char (give next) m y (← idOf zero) none
    let which := if (← info x).isNonNull then Special.equalNonNullChar else Special.equalCheckNullChar
    let args ← [x, c].mapM (force (give next))
    callSpecial next m which args result
    return true
  match slice? (← info x) with
  | some (str, start, len) => do
    let which := if (← info y).isNonNull then Special.equalSliceNonNull else Special.equalSliceCheckNull
    let args ← [str, start, len, y].mapM (force (give next))
    callSpecial next m which args result
    pure true
  | none => pure false

def equalCall (restart next : Emit) (m : StringMode) (op : Op) : OptimizeM Bool := do
  let x ← idOf (op.arg 1)
  let y ← idOf (op.arg 2)
  let a ← stringLength? m x
  let b ← stringLength? m y
  match a.bind Value.int?, b.bind Value.int? with
  | some k, some l =>
    if k ≠ l then
      setConstInt op.result 0
      return true
  | _, _ => pure ()
  if ← equalShort restart next m x y op.result then return true
  if ← equalShort restart next m y x op.result then return true
  if ← equalPart next m x y op.result then return true
  if ← equalPart next m y x op.result then return true
  if (← info x).isNonNull && (← info y).isNonNull then
    let which := if a.isSome && a == b then Special.equalLengthOk else Special.equalNonNull
    let args ← [x, y].mapM (force (give next))
    callSpecial next m which args op.result
    pure true
  else pure false

/-- Two single characters are compared by their difference. -/
def compareCall (restart next : Emit) (m : StringMode) (op : Op) : OptimizeM Bool := do
  let x ← idOf (op.arg 1)
  let y ← idOf (op.arg 2)
  let a ← stringLength? m x
  let b ← stringLength? m y
  if a = some one && b = some one then
    let (u, v) ← firstChars next m x y
    restart { code := .intSub, args := [u, v], result := op.result }
    pure true
  else pure false

/-- A constant string of plain ASCII becomes a unicode string. -/
def toUnicode (op : Op) : OptimizeM Bool := do
  match ← knownString? (← idOf (op.arg 1)) with
  | some cs =>
    if cs.any (· ≥ 128) then pure false
    else do
      let r ← onStore (Store.intern cs true)
      setConst op.result (some (.ofRef r))
      markRemoved
      pure true
  | none => pure false

def shrink (op : Op) : OptimizeM Bool := do
  let i ← idOf (op.arg 1)
  match ← constIntOf (op.arg 2), plain? (← info i) with
  | some n, some (u, chars) =>
    if n < 0 || n.toInt > chars.size then pure false
    else do
      update i fun x => { x with virt := some (.plain u (chars.extract 0 n.toInt.toNat)) }
      markRemoved
      setEqual op.result i
      pure true
  | _, _ => pure false

/-- A call that the optimizer knows; tells whether it is settled. -/
def specialCall (restart next : Emit) (op : Op) : OptimizeM Bool := do
  match op.callId? with
  | none => pure false
  | some d => do
    let n := ((← get).store.call d).effect.special
    if n = Special.none then pure false
    else if n = Special.toUnicode then toUnicode op
    else if n = Special.shrinkArray then shrink op
    else
      let m : StringMode := ⟨Special.isUnicode n⟩
      let n := n - m.offset
      if n = Special.concat then
        let l ← idOf (op.arg 1)
        let r ← idOf (op.arg 2)
        ensureNonNull l
        ensureNonNull r
        make op (.concat m.unicode l r none)
        markRemoved
        pure true
      else if n = Special.slice then
        sliceCall next m op
        pure true
      else if n = Special.equal then equalCall restart next m op
      else if n = Special.compare then compareCall restart next m op
      else pure false

/-! ## The pass -/

def pass (restart next : Emit) (op : Op) : OptimizeM Unit := do
  let bytes : StringMode := ⟨false⟩
  let unicode : StringMode := ⟨true⟩
  match op.code with
  | .newstr => newString next bytes op
  | .newunicode => newString next unicode op
  | .strsetitem | .unicodesetitem => setItem next op
  | .strgetitem => getItem next bytes op
  | .unicodegetitem => getItem next unicode op
  | .strlen => length next bytes op
  | .unicodelen => length next unicode op
  | .copystrcontent => copyContents next bytes op
  | .copyunicodecontent => copyContents next unicode op
  | .call | .callPure => do unless ← specialCall restart next op do give next op
  | .guardNoException => do unless (← get).lastString.isRemoved do give next op
  | _ => give next op

end FlowCompiler.Trace.Strings
