import FlowCompiler.Trace.Optimize.State

/-!
# Allocating virtual objects

A virtual object that is seen from outside the trace has to be allocated and filled.  The operations that
do so are given on to wherever the object is needed.  Strings are filled part by part, and a string all of
whose characters are known becomes a constant.

The depth of the recursion is bounded by the number of entries: an object counts as allocated before its
contents are looked at, and the parts of a string are older than the string.
-/

namespace FlowCompiler.Trace.OptimizeM

/-! ## Operations on strings -/

/-- The opcodes of byte strings and of unicode strings. -/
structure StringMode where
  unicode : Bool

namespace StringMode

def newstr (m : StringMode) : Opcode := if m.unicode then .newunicode else .newstr
def strlen (m : StringMode) : Opcode := if m.unicode then .unicodelen else .strlen
def getitem (m : StringMode) : Opcode := if m.unicode then .unicodegetitem else .strgetitem
def setitem (m : StringMode) : Opcode := if m.unicode then .unicodesetitem else .strsetitem
def copycontent (m : StringMode) : Opcode := if m.unicode then .copyunicodecontent else .copystrcontent
def offset (m : StringMode) : Nat := if m.unicode then Special.unicodeOffset else 0

end StringMode

/-- The kind of a string that is or was virtual. -/
def Virtual.stringMode? : Virtual → Option StringMode
  | .plain u _ => some ⟨u⟩
  | .concat u _ _ _ => some ⟨u⟩
  | .slice u _ _ _ => some ⟨u⟩
  | _ => none

def zero : Value := .ofInt 0
def one : Value := .ofInt 1

/-- The sum of two lengths.  Without a place to give operations on to it is missing unless it is known. -/
def intAdd (emit : Option Emit) (a b : Value) : OptimizeM (Option Value) := do
  if a = zero then pure (some b)
  else if b = zero then pure (some a)
  else match a.int?, b.int?, emit with
    | some x, some y, _ => pure (some (.const (.int (x + y))))
    | _, _, none => pure none
    | _, _, some emit => do
      let r ← newBox .int
      emit { code := .intAdd, args := [a, b], result := some r }
      pure (some (.box r))

/-- The sum of two lengths, with an operation if need be. -/
def addLengths (emit : Emit) (a b : Value) : OptimizeM Value := return (← intAdd (some emit) a b).getD default

def subLengths (emit : Emit) (a b : Value) : OptimizeM Value := do
  if b = zero then pure a
  else match a.int?, b.int? with
    | some x, some y => pure (.const (.int (x - y)))
    | _, _ => do
      let r ← newBox .int
      emit { code := .intSub, args := [a, b], result := some r }
      pure (.box r)

/-- The character at a constant place of a constant string. -/
def knownChar? (s : Store) (str index : Value) : Option Value := do
  let (cs, _) ← (str.const?.bind Const.ref?).bind s.str?
  let i ← index.int?
  if i < 0 then none else (cs[i.toInt.toNat]?).map Value.ofInt

/-- Reads a character. -/
def readChar (emit : Emit) (m : StringMode) (str index : Value) (result : Option Box) : OptimizeM Value := do
  match knownChar? (← get).store str index with
  | some v => pure v
  | none => do
    let r ← match result with
      | some r => pure r
      | none => newBox .int
    emit { code := m.getitem, args := [str, index], result := some r }
    pure (.box r)

/-- Copies characters one by one; gives the place behind the last. -/
def copyChars (emit : Emit) (m : StringMode) (src target : Value) : (n : Nat) → (first place : Value) → OptimizeM Value
  | 0, _, place => pure place
  | n + 1, first, place => do
    let ch ← readChar emit m src first none
    let first ← addLengths emit first one
    emit { code := m.setitem, args := [target, place, ch] }
    let place ← addLengths emit place one
    copyChars emit m src target n first place

/-- The longest copy that is written out character by character. -/
def unrollLimit (src start : Value) : OptimizeM Int := do
  let l := (← get).limits
  pure (if src.isConst && src.kind == .ref && start.isConst then l.unrollConst else l.unrollVar)

/-- Copies a part of a string into another; gives the place behind it if that is asked for. -/
def copyContent (emit : Emit) (m : StringMode) (src target first place length : Value) (needsEnd : Bool) :
    OptimizeM (Option Value) := do
  let limit ← unrollLimit src first
  match length.int? with
  | some n =>
    if n.toInt ≤ limit then return some (← copyChars emit m src target n.toInt.toNat first place)
    else copyAll
  | none => copyAll
where
  copyAll : OptimizeM (Option Value) := do
    let finish ← if needsEnd then intAdd (some emit) place length else pure none
    emit { code := m.copycontent, args := [src, target, first, place, length] }
    pure finish

/-! ## Known strings -/

/-- The characters of a string that is known while optimizing. -/
def constString? (s : OptimizeState) : (fuel : Nat) → InfoId → Option (List Int)
  | 0, _ => none
  | n + 1, i =>
    let x := s.info i
    if x.isConst then (x.constRef?.bind s.store.str?).map Prod.fst
    else match x.virt with
      | some v => virtualString? n v
      | none => none
where
  virtualString? (n : Nat) : Virtual → Option (List Int)
    | .plain _ chars => chars.toList.mapM fun c => do
      let c ← c
      let code ← (s.info c).constInt?
      pure (Reader.toChar code)
    | .concat _ l r _ => do
      let a ← constString? s n l
      let b ← constString? s n r
      pure (a ++ b)
    | .slice _ str start length => do
      let first ← (s.info start).constInt?
      let len ← (s.info length).constInt?
      let full ← constString? s n str
      if first < 0 || len < 0 || first.toInt + len.toInt > full.length then none
      else pure ((full.drop first.toInt.toNat).take len.toInt.toNat)
    | _ => none

/-- A bound of the depth of strings and virtual objects. -/
def depth : OptimizeM Nat := return 4 * (← get).infos.size + 8

def knownString? (i : InfoId) : OptimizeM (Option (List Int)) := do
  let d ← depth
  return constString? (← get) d i

/-! ## Allocation -/

/-- Whether a value is what new memory holds anyway. -/
def isZeroOf (k : Kind) (x : Info) : Bool := x.isConst && x.box == some (.const (.zero k))

mutual

/-- The value of an entry; a virtual object is allocated. -/
def forceAux (emit : Emit) : (fuel : Nat) → InfoId → OptimizeM Value
  | 0, _ => throw (.plain "virtual objects nest without end")
  | n + 1, i => do
    let x ← info i
    match x.box with
    | some v => pure v
    | none => do
      match x.virt with
      | some v => allocate emit n i x.key v
      | none => pure ()
      return ((← info i).box).getD x.key
termination_by structural fuel => fuel

/-- Allocates a virtual object and fills it. -/
def allocate (emit : Emit) : (fuel : Nat) → InfoId → Value → Virtual → OptimizeM Unit
  | 0, _, _, _ => throw (.plain "virtual objects nest without end")
  | n + 1, i, key, v => do
    let result := key.box?
    match v with
    | .struct size cls fields => do
      update i fun x => { x with box := some key }
      match size with
      | some d => emit { code := .new, args := [], result, descr := some (.size d) }
      | none => emit { code := .newWithVtable, args := [.const (.ptr cls)], result }
      for (f, j) in fields do
        let kind := ((← get).store.field f).kind
        unless isZeroOf kind (← info j) do
          let w ← forceAux emit n j
          emit { code := .setfieldGc, args := [key, w], descr := some (.field f) }
    | .array d items clear => do
      update i fun x => { x with box := some key }
      emit { code := if clear then .newArrayClear else .newArray, args := [.ofInt items.size], result, descr := some (.array d) }
      let kind := ((← get).store.array d).item
      for (j, at_) in items.toList.zipIdx do
        unless isZeroOf kind (← info j) do
          let w ← forceAux emit n j
          emit { code := .setarrayitemGc, args := [key, .ofInt at_, w], descr := some (.array d) }
    | .plain u _ | .concat u _ _ _ | .slice u _ _ _ => do
      let d ← depth
      match constString?.virtualString? (← get) d v with
      | some cs => do
        let r ← onStore (Store.intern cs u)
        becomeConst i (some (.ofRef r))
      | none => do
        let m : StringMode := ⟨u⟩
        update i fun x => { x with box := some key }
        let length := (← virtualLength (some emit) n i v).getD default
        emit { code := m.newstr, args := [length], result }
        let _ ← fillString emit n v key zero
termination_by structural fuel => fuel

/-- The length of a string that is or was virtual.  Without a place to give operations on to it is missing
unless it is known. -/
def virtualLength (emit : Option Emit) : (fuel : Nat) → InfoId → Virtual → OptimizeM (Option Value)
  | 0, _, _ => pure none
  | n + 1, i, v => do
    match v with
    | .plain _ chars => pure (some (.ofInt chars.size))
    | .concat u l r length => do
      match length with
      | some len => pure (some len)
      | none => do
        match ← stringLengthAux emit ⟨u⟩ none n l with
        | none => pure none
        | some a => do
          match ← stringLengthAux emit ⟨u⟩ none n r with
          | none => pure none
          | some b => do
            let sum ← intAdd emit a b
            update i fun x => { x with virt := some (.concat u l r sum) }
            pure sum
    | .slice _ _ _ length => return (← info length).box
    | _ => pure none
termination_by structural fuel => fuel

/-- The length of a string. -/
def stringLengthAux (emit : Option Emit) (m : StringMode) (result : Option Box) : (fuel : Nat) → InfoId → OptimizeM (Option Value)
  | 0, _ => pure none
  | n + 1, i => do
    match ← knownString? i with
    | some cs => pure (some (.ofInt cs.length))
    | none => do
      let v := (← info i).virt
      match v, v.bind Virtual.stringMode? with
      | some v, some _ => virtualLength emit n i v
      | _, _ =>
        match emit with
        | none => pure none
        | some emit => do
          ensureNonNull i
          let b ← forceAux emit n i
          let r ← match result with
            | some r => pure r
            | none => newBox .int
          emit { code := m.strlen, args := [b], result := some r }
          pure (some (.box r))
termination_by structural fuel => fuel

/-- Writes a string into another one; gives the place behind it. -/
def copyString (emit : Emit) (m : StringMode) : (fuel : Nat) → InfoId → (target place : Value) → OptimizeM Value
  | 0, _, _, place => pure place
  | n + 1, i, target, place => do
    let x ← info i
    match x.virt with
    | some (.plain u chars) =>
      if !x.isVirtual && chars.any Option.isNone then copyWhole emit ⟨u⟩ n i target place
      else fillString emit n (.plain u chars) target place
    | some v@(.concat _ _ _ _) | some v@(.slice _ _ _ _) => fillString emit n v target place
    | _ => copyWhole emit m n i target place
termination_by structural fuel => fuel

/-- Writes a string that is allocated. -/
def copyWhole (emit : Emit) (m : StringMode) : (fuel : Nat) → InfoId → (target place : Value) → OptimizeM Value
  | 0, _, _, place => pure place
  | n + 1, i, target, place => do
    let length := (← stringLengthAux (some emit) m none n i).getD default
    let src ← forceAux emit n i
    return (← copyContent emit m src target zero place length true).getD default
termination_by structural fuel => fuel

/-- Writes the parts of a string that is or was virtual. -/
def fillString (emit : Emit) : (fuel : Nat) → Virtual → (target place : Value) → OptimizeM Value
  | 0, _, _, place => pure place
  | n + 1, v, target, place => do
    match v with
    | .plain u chars => do
      let mut place := place
      for c in chars.toList do
        match c with
        | some c => do
          let ch ← forceAux emit n c
          emit { code := (⟨u⟩ : StringMode).setitem, args := [target, place, ch] }
        | none => pure ()
        place ← addLengths emit place one
      pure place
    | .concat u l r _ => do
      let middle ← copyString emit ⟨u⟩ n l target place
      copyString emit ⟨u⟩ n r target middle
    | .slice u str start length => do
      let src ← forceAux emit n str
      let first := ((← info start).box).getD default
      let len := ((← info length).box).getD default
      return (← copyContent emit ⟨u⟩ src target first place len true).getD default
    | _ => pure place
termination_by structural fuel => fuel

end

/-- The value of an entry; a virtual object is allocated by operations that are given on to `emit`. -/
def force (emit : Emit) (i : InfoId) : OptimizeM Value := do forceAux emit (← depth) i

/-- The length of a string, by an operation with a given result if need be. -/
def stringLength (emit : Emit) (m : StringMode) (i : InfoId) (result : Option Box) : OptimizeM Value := do
  return (← stringLengthAux (some emit) m result (← depth) i).getD default

/-- The length of a string, if no operation is needed for it. -/
def stringLength? (m : StringMode) (i : InfoId) : OptimizeM (Option Value) := do
  stringLengthAux none m none (← depth) i

end FlowCompiler.Trace.OptimizeM
