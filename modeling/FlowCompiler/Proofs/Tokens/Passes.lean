import FlowCompiler.Proofs.Tokens.Keeping
import FlowCompiler.Trace.Optimize.Chain

/-!
# The passes keep loops and labels

One lemma for each function of the other passes, and from them that a whole trace is optimized without a change to what the store knows
of loops and labels (`OptimizeM.propagate`), whichever passes are turned on and whether the trace is refused or not.
-/

namespace FlowCompiler.Trace.Keeps

variable (next : Emit) [∀ op, KeepsTokens (next op)] (op : Op)

/-! ## Virtual objects -/

instance virtualMake (v : Virtual) (level : Level) (cls : Option Ref) (length : Option Bound) :
    KeepsTokens (Virtuals.make op v level cls length) := bind

instance virtualFields? (v : Value) : KeepsTokens (Virtuals.fields? v) := bind

instance virtualItems? (v : Value) : KeepsTokens (Virtuals.items? v) := bind

instance virtualIndex? (items : Array InfoId) (v : Value) : KeepsTokens (Virtuals.index? items v) := by
  refine seq fun n => ?_
  cases n <;> infer_instance

instance virtualNewStruct (d : SizeId) : KeepsTokens (Virtuals.newStruct op d) := bind

instance virtualNewInstance : KeepsTokens (Virtuals.newInstance next op) := by
  refine seq fun x => seq fun c => ?_
  cases c <;> infer_instance

instance virtualNewArray (d : ArrayId) : KeepsTokens (Virtuals.newArray next op d) := by
  refine seq fun n => ?_
  cases n <;> infer_instance

instance virtualGetField (f : FieldId) : KeepsTokens (Virtuals.getField next op f) := by
  refine seq fun fields => ?_
  split
  · split <;> infer_instance
  · infer_instance

instance virtualSetField (f : FieldId) : KeepsTokens (Virtuals.setField next op f) := by
  refine seq fun fields => ?_
  split <;> infer_instance

instance virtualGetItem : KeepsTokens (Virtuals.getItem next op) := by
  refine seq fun items => ?_
  split
  · refine seq fun k => ?_
    cases k <;> infer_instance
  · infer_instance

instance virtualSetItem : KeepsTokens (Virtuals.setItem next op) := by
  refine seq fun items => ?_
  split
  · refine seq fun k => ?_
    cases k <;> infer_instance
  · infer_instance

instance virtualPass : KeepsTokens (Virtuals.pass next op) := by
  unfold Virtuals.pass
  split
  case h_11 =>
    refine seq fun items => ?_
    cases items <;> infer_instance
  all_goals infer_instance

instance earlyForcePass : KeepsTokens (EarlyForce.pass next op) := by
  refine ite (g := bind (h := forIn (h := fun v _ => seq fun s => ?_)))
  split <;> infer_instance

/-! ## Strings -/

section

variable (emit restart : Emit) [∀ op, KeepsTokens (emit op)] [∀ op, KeepsTokens (restart op)] {m : OptimizeM.StringMode}

instance stringGive : KeepsTokens (Strings.give next op) := bind

instance stringMarkRemoved : KeepsTokens Strings.markRemoved := by
  unfold Strings.markRemoved
  infer_instance

instance stringMake (v : Virtual) : KeepsTokens (Strings.make op v) := bind

instance charAt (n : Nat) (str index : InfoId) (result : Option Box) : KeepsTokens (Strings.charAt emit m n str index result) := by
  have fromMemory (str index : InfoId) (result : Option Box) : KeepsTokens (Strings.charAt.fromMemory emit m str index result) := bind
  induction n generalizing str index result with
  | zero => exact pure _
  | succ n ih =>
    refine seq fun _ => seq fun x => ?_
    extract_lets read
    have reading (p : InfoId × InfoId) : KeepsTokens (read p) := by
      refine seq fun y => seq fun z => ?_
      split
      · split <;> infer_instance
      · refine seq fun len => ?_
        split <;> infer_instance
      · infer_instance
    clear_value read
    split <;> infer_instance

instance char (str index : InfoId) (result : Option Box) : KeepsTokens (Strings.char emit m str index result) := bind

instance stringGetItem : KeepsTokens (Strings.getItem next m op) := bind

instance noteChar (i c : InfoId) (place : Nat) : KeepsTokens (Strings.noteChar i place c) := inferInstanceAs (KeepsTokens (OptimizeM.update _ _))

instance stringSetItem : KeepsTokens (Strings.setItem next op) := by
  have outside (i : InfoId) : KeepsTokens (Strings.setItem.outside next op i) := bind
  refine seq fun i => seq fun x => ?_
  split
  · refine seq fun n => ?_
    split <;> infer_instance
  · infer_instance

instance newString : KeepsTokens (Strings.newString next m op) := by
  have allocated : KeepsTokens (Strings.newString.allocated next m op) := bind
  refine seq fun s => seq fun n => ?_
  cases n <;> infer_instance

instance stringPassLength : KeepsTokens (Strings.length next m op) := bind

instance copyKnown (src dst : InfoId) (room : Nat) (first start done : Int64) (n : Nat) :
    KeepsTokens (Strings.copyKnown next m src dst room first start n done) := by
  have write (c : InfoId) (place : Int64) : KeepsTokens (Strings.copyKnown.write next m dst c place) := bind
  induction n generalizing done with
  | zero => exact pure _
  | succ n ih =>
    unfold Strings.copyKnown
    infer_instance

instance copyContents : KeepsTokens (Strings.copyContents next m op) := by
  have inMemory (parts : List InfoId) : KeepsTokens (Strings.copyContents.inMemory next m parts) := bind
  refine seq fun src => seq fun dst => seq fun first => seq fun place => seq fun len => seq fun x =>
    ite (g := seq fun y => seq fun z => seq fun a => seq fun b => ?_)
  split <;> infer_instance

/-! ### Calls of functions on strings -/

instance callSpecial (special : Nat) (args : List Value) (result : Option Box) : KeepsTokens (Strings.callSpecial next m special args result) := by
  refine seq fun s => ?_
  split <;> infer_instance

variable (x y : InfoId)

instance firstChars : KeepsTokens (Strings.firstChars next m x y) := bind

instance sliceCall : KeepsTokens (Strings.sliceCall next m op) := by
  refine seq fun str => seq fun start => seq fun stop => seq fun _ => seq fun a => seq fun b => bind (g := fun len => seq fun x => ?_)
  split <;> infer_instance

instance equalShort (result : Option Box) : KeepsTokens (Strings.equalShort restart next m x y result) := by
  refine seq fun l => ?_
  -- the comparisons with null, with one character and with the empty string, each followed by the one before it
  extract_lets length done null single empty
  have nullKept (u : PUnit) : KeepsTokens (null u) := by
    infer_instance
  clear_value null done
  have singleKept (u : PUnit) : KeepsTokens (single u) := by
    refine ite (h := seq fun l => ite (g := seq fun a => ?_))
    split <;> infer_instance
  clear_value single
  have emptyKept (l : Option Value) : KeepsTokens (empty l) := by
    cases l <;> infer_instance
  clear_value empty
  infer_instance

instance equalPart (result : Option Box) : KeepsTokens (Strings.equalPart next m x y result) := by
  refine seq fun l => ite (g := seq fun a => ?_)
  split <;> infer_instance

set_option synthInstance.maxSize 1000 in
instance equalCall : KeepsTokens (Strings.equalCall restart next m op) := by
  refine seq fun x => seq fun y => seq fun a => seq fun b => ?_
  extract_lets which rest
  have restKept (u : PUnit) : KeepsTokens (rest u) := by
    infer_instance
  clear_value rest
  split <;> infer_instance

instance compareCall : KeepsTokens (Strings.compareCall restart next m op) := bind

instance toUnicode : KeepsTokens (Strings.toUnicode op) := by
  refine seq fun str => seq fun known => ?_
  cases known <;> infer_instance

instance shrink : KeepsTokens (Strings.shrink op) := by
  refine seq fun i => seq fun n => seq fun x => ?_
  split <;> infer_instance

instance specialCall : KeepsTokens (Strings.specialCall restart next op) := by
  unfold Strings.specialCall
  split <;> infer_instance

instance stringPass : KeepsTokens (Strings.pass restart next op) := by
  unfold Strings.pass
  split <;> infer_instance

end

/-! ## Bounds -/

section

variable (a b v : Value)

section

variable {V : Type} {view : OptimizeState → V} [Unknowing view] (goOn : Value → OptimizeM Unit) [∀ v, Leaves view (goOn v)]

instance boundsOf : Leaves view (Bounds.of v) := bind

instance boundsOfResult : Leaves view (Bounds.ofResult op) := bind

instance narrow (i : BoundId) (f : Bound → Bound × Bool) : Leaves view (Bounds.narrow goOn v i f) := bind

instance assumeLt : Leaves view (Bounds.assumeLt goOn a b) := bind

instance assumeLe : Leaves view (Bounds.assumeLe goOn a b) := bind

instance assumeEq : Leaves view (Bounds.assumeEq goOn a b) := bind

instance assumeArith (first second : (x y r : Bound) → Option Bound) : Leaves view (Bounds.assumeArith goOn op first second) := by
  refine seq fun x => seq fun y => seq fun r => seq fun s => seq fun t => seq fun u => ?_
  extract_lets rest
  have restKept (u : PUnit) : Leaves view (rest u) := by
    refine seq fun s => seq fun t => seq fun u => ?_
    split <;> infer_instance
  clear_value rest
  split <;> infer_instance

instance assumeZeroTest (nonzero : Bool) : Leaves view (Bounds.assumeZeroTest goOn op nonzero) := bind

instance assumeResult : Leaves view (Bounds.assumeResult goOn op) := by
  have decided (known : Option Int64) {m m' : OptimizeM Unit} (h : Leaves view m) (h' : Leaves view m') : Leaves view (match known with
      | some n => if n = 1 then m else m'
      | none => Pure.pure ()) := by
    cases known <;> infer_instance
  unfold Bounds.assumeResult
  extract_lets a b rest
  have restKept (known : Option Int64) : Leaves view (rest known) := by
    dsimp only [rest]
    split
    case h_1 | h_2 | h_3 | h_4 => exact decided known inferInstance inferInstance
    all_goals infer_instance
  clear_value rest
  infer_instance

instance backward (n : Nat) : Leaves view (Bounds.backward n v) := by
  induction n generalizing v with
  | zero => exact pure _
  | succ n ih =>
    refine seq fun i => ite (g := seq fun c => seq fun x => ?_)
    extract_lets rest
    have restKept (u : PUnit) : Leaves view (rest u) := by
      dsimp only [rest]
      split
      · infer_instance
      · refine seq fun s => ?_
        split <;> infer_instance
    clear_value rest
    split <;> infer_instance

instance goBack : Leaves view (Bounds.goBack v) := bind

end

instance boundsGive : KeepsTokens (Bounds.give next op) := bind

instance withBound (onlyBounded : Bool) (f : Bound → Bound → Bound) : KeepsTokens (Bounds.withBound next op onlyBounded f) := bind

instance orXor : KeepsTokens (Bounds.orXor next op) := by
  refine seq fun x => seq fun y => ite (g := seq fun _ => seq fun a => seq fun b => ?_)
  split <;> infer_instance

instance boundsAnd : KeepsTokens (Bounds.and next op) := by
  refine seq fun x => seq fun y => seq fun _ => seq fun r => ?_
  extract_lets mask
  have maskKept (n : Int64) : KeepsTokens (mask n) := by
    infer_instance
  clear_value mask
  refine seq fun a => seq fun b => ?_
  split
  · infer_instance
  · infer_instance
  · refine seq fun a => seq fun b => ?_
    split <;> infer_instance

instance mergedAdd? (n : Int64) : KeepsTokens (Bounds.mergedAdd? op v n) := by
  unfold Bounds.mergedAdd?
  cases v with
  | const _ => infer_instance
  | box r =>
    refine seq fun s => ?_
    split
    · infer_instance
    · refine ite (g := seq fun inner => seq fun x => ?_)
      generalize (if x.isConst = true then (inner.arg 1, inner.arg 0) else (inner.arg 0, inner.arg 1)) = args
      refine seq fun m => ?_
      cases m <;> infer_instance

instance boundsAdd : KeepsTokens (Bounds.add next op) := by
  refine seq fun x => seq fun y => seq fun z => ?_
  extract_lets swap
  generalize (if swap = true then (y, x) else (x, y)) = args
  refine seq fun u => ?_
  split <;> infer_instance

instance boundsMod : KeepsTokens (Bounds.mod next op) := by
  refine seq fun x => seq fun y => seq fun a => seq fun b => seq fun c => seq fun _ => seq fun n => ?_
  split <;> infer_instance

set_option synthInstance.maxSize 1000 in
instance lshift : KeepsTokens (Bounds.lshift next op) := bind

instance rshift : KeepsTokens (Bounds.rshift next op) := by
  refine seq fun x => seq fun y => seq fun a => seq fun b => ?_
  dsimp only
  split <;> infer_instance

instance boundsChecked : KeepsTokens (Bounds.checked next op) := by
  refine seq fun x => seq fun y => ite (g := seq fun a => seq fun b => ?_)
  split
  infer_instance

instance noOverflow : KeepsTokens (Bounds.noOverflow next op) := by
  refine seq fun s => ?_
  split
  · refine ite (h := seq fun last => ?_)
    split <;> infer_instance
  · infer_instance

instance boundsCompare : KeepsTokens (Bounds.compare next op) := by
  refine seq fun x => seq fun y => seq fun a => seq fun b => ?_
  split <;> infer_instance

set_option synthInstance.maxSize 1000 in
instance boundsLength : KeepsTokens (Bounds.length next op) := bind

instance boundsPass : KeepsTokens (Bounds.pass next op) := by
  unfold Bounds.pass
  split
  all_goals first
    | infer_instance
    | refine seq fun s => ?_
      split <;> infer_instance

end

/-! ## Known values -/

section

instance algebraGive : KeepsTokens (Algebra.give next op) := bind

instance applyIdentity : KeepsTokens (Algebra.applyIdentity op) := by
  refine seq fun x => seq fun y => seq fun u => seq fun v => ?_
  split <;> infer_instance

instance floatMul : KeepsTokens (Algebra.floatMul next op) := by
  unfold Algebra.floatMul
  extract_lets isOne
  have isOneKept (v : Value) : KeepsTokens (isOne v) := by
    refine seq fun x => ?_
    split <;> infer_instance
  clear_value isOne
  infer_instance

instance floatNeg : KeepsTokens (Algebra.floatNeg next op) := by
  unfold Algebra.floatNeg
  split
  · infer_instance
  · refine seq fun s => ?_
    split <;> infer_instance

instance opposite (code : Opcode) (args : List Value) : KeepsTokens (Algebra.knownComparison.opposite op code args) := by
  refine seq fun r => ?_
  cases r with
  | none => infer_instance
  | some r =>
    refine seq fun x => ?_
    split <;> infer_instance

instance knownComparison : KeepsTokens (Algebra.knownComparison op) := by
  refine seq fun s => ite (g := ?_)
  extract_lets a b rest
  have restKept (same : Option InfoId) : KeepsTokens (rest same) := by
    dsimp only [rest]
    cases same with
    | some r => infer_instance
    | none =>
      cases op.code.inverse? with
      | none => infer_instance
      | some code =>
        refine seq fun known => ite (g := ?_)
        split <;> infer_instance
  clear_value rest
  split <;> infer_instance

instance comparePointers (eq : Bool) : KeepsTokens (Algebra.comparePointers next op eq) := bind

instance guardBool : KeepsTokens (Algebra.guardBool next op) := by
  refine seq fun n => ?_
  cases n <;> infer_instance

instance contradictsClass {V : Type} {view : OptimizeState → V} [Unknowing view] (x expected : Info) :
    Leaves view (Algebra.contradictsClass x expected) := bind

instance guardValue : KeepsTokens (Algebra.guardValue next op) := by
  refine seq fun i => seq fun j => seq fun x => seq fun expected => ?_
  -- from the last check to the first
  extract_lets replaced rest classKnown notConst
  have restKept (u : PUnit) : KeepsTokens (rest u) := by
    refine seq fun s => ?_
    split <;> infer_instance
  clear_value rest
  infer_instance

instance guardNonNull : KeepsTokens (Algebra.guardNonNull next op) := bind

instance guardIsNull : KeepsTokens (Algebra.guardIsNull next op) := bind

instance guardClass : KeepsTokens (Algebra.guardClass next op) := by
  refine seq fun i => seq fun x => seq fun c => ?_
  cases c with
  | none => infer_instance
  | some c =>
    refine seq fun x => ?_
    extract_lets nonNullToo rest
    have restKept (u : PUnit) : KeepsTokens (rest u) := by
      dsimp only [rest]
      split <;> infer_instance
    clear_value rest
    infer_instance

instance invariantCall : KeepsTokens (Algebra.invariantCall next op) := by
  refine seq fun f => seq fun x => ite (g := seq fun s => ?_)
  split <;> infer_instance

instance conditionalCall : KeepsTokens (Algebra.conditionalCall next op) := by
  refine seq fun n => ?_
  cases n <;> infer_instance

instance recordClass : KeepsTokens (Algebra.recordClass op) := by
  refine seq fun i => seq fun x => seq fun c => ?_
  cases c <;> infer_instance

instance algebraSimplify : KeepsTokens (Algebra.simplify next op) := by
  unfold Algebra.simplify
  split <;> infer_instance

instance algebraPass : KeepsTokens (Algebra.pass next op) := by
  unfold Algebra.pass
  extract_lets rest afterFolding
  have kept (folded : Option Value) : KeepsTokens (afterFolding folded) := by
    cases folded <;> infer_instance
  clear_value afterFolding
  infer_instance

end

/-! ## Remembered results -/

instance rememberedGive : KeepsTokens (Remembered.give next op) := bind

instance rememberedMarkRemoved : KeepsTokens Remembered.markRemoved := by
  unfold Remembered.markRemoved
  infer_instance

instance find : KeepsTokens (Remembered.find op) := by
  refine seq fun k => ?_
  cases k with
  | none => infer_instance
  | some k =>
    refine seq fun s => ?_
    split <;> infer_instance

instance callResult? : KeepsTokens (Remembered.callResult? op) := by
  refine ite (g := seq fun f => seq fun s => ?_)
  dsimp only
  split
  · refine seq fun args => ?_
    cases args <;> infer_instance
  · infer_instance

instance pureCall : KeepsTokens (Remembered.pureCall next op) := by
  refine seq fun c => ?_
  cases c with
  | some c => infer_instance
  | none =>
    refine seq fun r => ?_
    cases r <;> infer_instance

instance settle (canFold : Bool) : KeepsTokens (Remembered.settle next op canFold) := by
  unfold Remembered.settle
  extract_lets given rest
  have restKept (folded : Option Value) : KeepsTokens (rest folded) := by
    cases folded with
    | some c => infer_instance
    | none =>
      refine seq fun r => ?_
      cases r <;> infer_instance
  clear_value rest
  infer_instance

instance rememberedPass : KeepsTokens (Remembered.pass next op) := by
  unfold Remembered.pass
  split
  · infer_instance
  · infer_instance
  · refine ite (g := seq fun s => ?_)
    split <;> infer_instance

instance rememberedFlush : KeepsTokens (Remembered.flush next) := by
  refine seq fun s => ?_
  split <;> infer_instance

/-! ## Memory -/

section

variable (p : Slot) (keep : Bool)

instance cache : KeepsTokens Heap.cache := bind

instance updateCache (f : HeapCache → HeapCache) : KeepsTokens (Heap.updateCache f) := by
  unfold Heap.updateCache
  infer_instance

instance slot : KeepsTokens (Heap.slot p) := bind

instance setSlot (c : SlotCache) : KeepsTokens (Heap.setSlot p c) := inferInstanceAs (KeepsTokens (Heap.updateCache _))

instance heapGive : KeepsTokens (Heap.give next op) := bind

instance heapMarkRemoved : KeepsTokens Heap.markRemoved := by
  unfold Heap.markRemoved
  infer_instance

instance releasePostponed : KeepsTokens (Heap.releasePostponed next) := by
  refine seq fun c => ?_
  split <;> infer_instance

instance remember (i j : InfoId) : KeepsTokens (Heap.remember p i j) := bind

instance release : KeepsTokens (Heap.release next p keep) := by
  refine seq fun c => ?_
  split
  · infer_instance
  · refine seq fun _ => seq fun c => ?_
    dsimp only
    split
    · split <;> infer_instance
    · infer_instance

instance releaseAliases (i : InfoId) : KeepsTokens (Heap.releaseAliases next p i) := by
  refine seq fun c => ?_
  split <;> infer_instance

instance hold : KeepsTokens (Heap.hold next p op) := by
  refine seq fun i => seq fun j => seq fun _ => seq fun c => ?_
  dsimp only
  split <;> infer_instance

instance reuse (i : InfoId) : KeepsTokens (Heap.reuse next p i) := by
  refine seq fun _ => seq fun c => ?_
  split <;> infer_instance

instance releaseAll : KeepsTokens (Heap.releaseAll next) := bind

instance releaseItems (a : ArrayId) (index : Option InfoId) : KeepsTokens (Heap.releaseItems next a index keep) := by
  unfold Heap.releaseItems
  cases index <;> infer_instance

instance releaseField (f : FieldId) : KeepsTokens (Heap.releaseField next f keep) := bind

instance respect (e : Effect) : KeepsTokens (Heap.respect next e) := by
  refine seq fun _ => seq fun _ => seq fun _ => bind (h := forIn (h := fun a _ => seq fun _ => seq fun c => ?_))
  split <;> infer_instance

instance forgetAll : KeepsTokens Heap.forgetAll := inferInstanceAs (KeepsTokens (Heap.updateCache _))

instance releaseForGuard : KeepsTokens (Heap.releaseForGuard next) := by
  refine seq fun c => bind (h := forIn (h := fun p pending => seq fun c => ?_))
  split <;> infer_instance

instance callEffect? : KeepsTokens (Heap.callEffect? op) := bind

instance everything : KeepsTokens (Heap.prepare.everything next) := bind

instance prepare : KeepsTokens (Heap.prepare next op) := by
  unfold Heap.prepare
  extract_lets rest
  have restKept (u : PUnit) : KeepsTokens (rest u) := by
    refine seq fun e => ?_
    cases e <;> infer_instance
  clear_value rest
  infer_instance

instance heapEmit : KeepsTokens (Heap.emit next op) := bind

instance read (remembers : Bool) : KeepsTokens (Heap.read next op p remembers) := by
  refine seq fun i => seq fun j => ?_
  cases j <;> infer_instance

instance readItem (a : ArrayId) (remembers : Bool) : KeepsTokens (Heap.readItem next op a remembers) := by
  refine seq fun i => seq fun k => seq fun x => ?_
  split <;> infer_instance

instance refuse : KeepsTokens (Heap.refuse op) := bind

instance heapWrite (f : FieldId) : KeepsTokens (Heap.write next op f) := bind

instance writeItem (a : ArrayId) : KeepsTokens (Heap.writeItem next op a) := by
  refine seq fun known => ite (g := seq fun k => seq fun x => ?_)
  split <;> infer_instance

instance readQuasi (q : QuasiId) : KeepsTokens (Heap.readQuasi op q) := by
  refine seq fun x => ite (g := seq fun s => ?_)
  extract_lets s d valid noted rest
  have restKept (u : PUnit) : KeepsTokens (rest u) := by
    dsimp only [rest, noted]
    split <;> infer_instance
  clear_value rest
  infer_instance

instance replacement (v : Value) : KeepsTokens (Heap.replacement v) := bind

instance lookup (e : Effect) : KeepsTokens (Heap.lookup op e) := by
  refine seq fun flag => ?_
  split
  · refine ite (g := seq fun c => ?_)
    extract_lets noted rest
    have restKept (u : PUnit) : KeepsTokens (rest u) := by
      refine seq fun dict => seq fun key => seq fun c => ?_
      dsimp only [noted]
      split <;> infer_instance
    clear_value rest
    infer_instance
  · infer_instance

instance heapPass : KeepsTokens (Heap.pass next op) := by
  unfold Heap.pass
  split <;> infer_instance

instance heapFlush : KeepsTokens (Heap.flush next) := bind

end

/-! ## The chain -/

section

instance guardData : KeepsTokens (OptimizeM.guardData op) := by
  refine seq fun s => seq fun _ => ?_
  split
  · infer_instance
  · have kept (g : GuardId) (data : ResumeData) : KeepsTokens (modify fun s : OptimizeState =>
        { s with store := s.store.updateGuard g fun x => { x with data := some data } }) := .beside fun _ => rfl
    split <;> infer_instance

instance writeOut (n : Nat) : KeepsTokens (OptimizeM.writeOut n op) := by
  induction n generalizing op with
  | zero => exact throw _
  | succ n ih =>
    refine bind (h := mapM (h := fun v => seq fun s => ?_))
    split <;> infer_instance

instance chainWrite : KeepsTokens (OptimizeM.write op) := bind

instance jump : KeepsTokens (Simplify.jump next op) := by
  unfold Simplify.jump
  split
  · refine seq fun s => ?_
    dsimp only
    split <;> infer_instance
  · infer_instance

instance simplifyPass : KeepsTokens (Simplify.pass next op) := by
  unfold Simplify.pass
  split
  case h_8 => split <;> infer_instance
  all_goals infer_instance

variable (restart : Emit) [∀ op, KeepsTokens (restart op)]

instance passStep (p : Pass) : KeepsTokens (p.step restart next op) := by
  cases p <;> (unfold Pass.step; infer_instance)

instance passFlush (p : Pass) : KeepsTokens (p.flush next) := by
  cases p <;> (unfold Pass.flush; infer_instance)

instance through (passes : List Pass) : KeepsTokens (OptimizeM.through restart passes op) := by
  induction passes generalizing op with
  | nil => exact chainWrite op
  | cons p rest ih => exact passStep _ op restart p

instance send (passes : List Pass) (again : Nat) : KeepsTokens (OptimizeM.send passes again op) := by
  induction again generalizing op with
  | zero => exact pure _
  | succ n ih =>
    refine seq fun op => ?_
    cases op.result <;> infer_instance

instance flushAll (passes : List Pass) : KeepsTokens (OptimizeM.flushAll restart passes) := by
  induction passes with
  | nil => exact pure _
  | cons p rest ih =>
    unfold OptimizeM.flushAll
    infer_instance

/-- **The optimizer** touches neither loops nor labels. -/
instance propagate (passes : List Pass) (ops : List Op) : KeepsTokens (OptimizeM.propagate passes ops) := bind

end

end FlowCompiler.Trace.Keeps
