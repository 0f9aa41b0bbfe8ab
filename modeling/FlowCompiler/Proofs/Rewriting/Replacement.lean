import FlowCompiler.Proofs.Bounds.Algebra
import FlowCompiler.Proofs.Bounds.Contained
import FlowCompiler.Proofs.Rewriting.Doubles
import FlowCompiler.Trace.Code.Run

/-!
# What the optimizer knows of the values of a valuation

A valuation gives each box a constant.  `Knows` says that what the state holds is true of it: an entry stands for one
constant, the value that stands for the entry is that constant, and so is what is known of it, that it is a constant,
that it is not null, or that it is 0 or 1.  Bounds, memory and remembered results are left as they may be.

Both zeros have one entry.  Of the two the entry stands for the one that the optimizer met, and an operand is known
truly only if it is that one.
-/

namespace FlowCompiler.Trace

namespace Valuation

variable (ν : Valuation) (z : Double)

/-- A value as the optimizer sees it, for which both zeros are one of them. -/
def seen : Value → Const
  | .box b => ν b
  | .const (.float d) => .float (if d.isZero then z else d)
  | .const c => c

/-- What an entry holds is true of a constant. -/
structure Informs (x : Info) (c : Const) : Prop where
  box : ∀ v, x.box = some v → ν.val v = c
  const : x.isConst = true → x.box = some (.const c)
  nonNull : x.isConst = false → Level.nonNull.rank ≤ x.level.rank → ∃ r, c = .ptr (some r)

end Valuation

/-- If a constant operand is a zero, it is the zero that the optimizer met. -/
def Value.Met (z : Double) (v : Value) : Prop := ∀ d, v = .const (.float d) → d.isZero = true → d = z

theorem Valuation.seen_of_key? {ν : Valuation} {z : Double} {v k : Value} (hk : v.key? = some k) (hz : v.Met z) : ν.seen z k = ν.val v := by
  rcases v with b | n | d | p <;> simp only [Value.key?, Option.some.injEq] at hk
  · rw [← hk]
    rfl
  · rw [← hk]
    rfl
  · split at hk
    · cases hk
    · split at hk <;> rename_i h0 <;> cases hk
      · rw [hz d rfl h0]
        rfl
      · simp [seen, val, h0]
  · rw [← hk]
    rfl

namespace Valuation.Informs

variable {ν : Valuation} {x : Info} {c : Const}

theorem eq_of_constInt? (h : ν.Informs x c) {n : Int64} (hn : x.constInt? = some n) : c = .int n := by
  unfold Info.constInt? at hn
  split at hn
  · rename_i hc
    rw [h.const hc] at hn
    cases c <;> cases hn
    rfl
  · cases hn

theorem eq_null (h : ν.Informs x c) (hn : x.isNull = true) : c = .null := by
  simp only [Info.isNull, Bool.and_eq_true, beq_iff_eq] at hn
  have hbox := (h.const hn.1).symm.trans hn.2
  cases hbox
  rfl

theorem exists_ptr (h : ν.Informs x c) (hk : c.kind = .ref) (hn : x.isNonNull = true) : ∃ r, c = .ptr (some r) := by
  unfold Info.isNonNull at hn
  split at hn
  · rename_i hc
    rw [h.const hc] at hn
    cases c with
    | int n => cases hk
    | float d => cases hk
    | ptr p => exact ⟨p.get hn, by simp⟩
  · rename_i hc
    exact h.nonNull (Bool.eq_false_iff.2 hc) (of_decide_eq_true hn)

theorem self (v : Value) {x : Info} (hbox : x.box = some v) (hlevel : x.level = if v.isConst then .constant else .unknown) :
    ν.Informs x (ν.val v) := by
  refine ⟨fun w hw => ?_, fun hc => ?_, fun hc hr => ?_⟩
  · rw [Option.some.inj (hw.symm.trans hbox)]
  · rw [hbox]
    cases v with
    | box b => simp [Info.isConst, hlevel, Value.isConst] at hc
    | const c => rfl
  · cases v with
    | box b => simp [hlevel, Value.isConst, Level.rank] at hr
    | const c => simp [Info.isConst, hlevel, Value.isConst] at hc

end Valuation.Informs

variable {v : Value}

namespace Algebra

open OptimizeM Bounds

/-- What the state holds is true of a valuation.  A virtual object is none of the operands in question, save those that
have its entry. -/
structure Knows (ν : Valuation) (z : Double) (args : List Value) (m : Meaning) (s : OptimizeState) : Prop where
  infos_size : s.infos.size = m.entries.length
  ids : ∀ k i, s.ids[k]? = some i → m.Entry i (ν.seen z k)
  entry : ∀ i c, m.Entry i c → ν.Informs (s.info i) c
  bools : ∀ i ∈ s.bools, m.Entry i (.int 0) ∨ m.Entry i (.int 1)
  apart : ∀ v ∈ args, ∀ i, m.Entry i (ν.val v) → (s.info i).isVirtual = true → s.id? v = some i
  /-- A box that comes from the change of a sign. -/
  opposite : ∀ b op, s.producers[b]? = some op → op.code = .floatNeg → m.TaggedBy ν op ∧ (∀ v ∈ op.args, v.Met z) ∧
    ∃ d, ν.val (op.arg 0) = .float d ∧ ν b = .float d.neg
  written : ∀ t args, s.written[t]? = some args → m.tags[t - 1]? = some (args.map ν.val) ∧ ∀ v ∈ args, v.Met z

section

variable {ν : Valuation} {z : Double} {args : List Value} {m : Meaning} {s : OptimizeState}

theorem Knows.start (ν : Valuation) (z : Double) (args : List Value) : Knows ν z args ⟨[], [], [], fun _ => False⟩ {} where
  infos_size := rfl
  ids k i h := by simp at h
  entry i c h := nomatch h
  bools i h := absurd h Std.HashSet.not_mem_empty
  apart v _ i h := nomatch h
  opposite b op h := by simp at h
  written t args h := by simp at h

theorem Knows.congr (h : Knows ν z args m s) (s' : OptimizeState) (hi : s'.infos = s.infos) (hd : s'.ids = s.ids)
    (hb : s'.bools = s.bools) (hp : s'.producers = s.producers) (hw : s'.written = s.written) : Knows ν z args m s' := by
  have hinfo (i : InfoId) : s'.info i = s.info i := by rw [OptimizeState.info, hi, OptimizeState.info]
  have hid (v : Value) : s'.id? v = s.id? v := by rw [OptimizeState.id?, hd, OptimizeState.id?]
  refine ⟨by rw [hi, h.infos_size], by rw [hd]; exact h.ids, fun i c he => hinfo i ▸ h.entry i c he, by rw [hb]; exact h.bools,
    fun v hv i he hvirt => hid v ▸ h.apart v hv i he (hinfo i ▸ hvirt), by rw [hp]; exact h.opposite, by rw [hw]; exact h.written⟩

/-- The state with one more entry, which is found under the key of its value. -/
def withEntry (s : OptimizeState) (v : Value) (x : Info) : OptimizeState :=
  { s with
    infos := s.infos.push x
    ids := match v.key? with
      | some k => s.ids.insert k s.infos.size
      | none => s.ids }

theorem id?_withEntry_self (v : Value) (x : Info) (h : v.key? ≠ none) : (withEntry s v x).id? v = some s.infos.size := by
  obtain ⟨k, hk⟩ := Option.ne_none_iff_exists'.1 h
  simp [OptimizeState.id?, withEntry, hk]

theorem id?_withEntry {v u : Value} {x : Info} {j : InfoId} (hv : s.id? v = none) (hu : s.id? u = some j) : (withEntry s v x).id? u = some j := by
  obtain ⟨k, hk, hj⟩ := Option.bind_eq_some_iff.1 hu
  cases hkey : v.key? with
  | none => simp [OptimizeState.id?, withEntry, hkey, hk, hj]
  | some l =>
    have hl : s.ids[l]? = none := by simpa [OptimizeState.id?, hkey] using hv
    have hne : l ≠ k := fun e => by rw [e, hj] at hl; cases hl
    simp [OptimizeState.id?, withEntry, hkey, hk, Std.HashMap.getElem?_insert, hne, hj]

theorem Knows.withEntry (h : Knows ν z args m s) {x : Info} (hv : s.id? v = none) (hz : v.Met z) (hx : ν.Informs x (ν.val v))
    (hvirt : x.virt = none) : Knows ν z args (m.withEntry (ν.val v) False) (withEntry s v x) := by
  have hle := m.le_withEntry (ν.val v) False
  have hnew : (m.withEntry (ν.val v) False).Entry s.infos.size (ν.val v) := by
    rw [Meaning.Entry, h.infos_size]
    exact List.getElem?_concat_length
  have hinfo (i : InfoId) : (Algebra.withEntry s v x).info i = if i = s.infos.size then x else s.info i := info_push
  have hold {i : InfoId} {c : Const} (he : (m.withEntry (ν.val v) False).Entry i c) (hi : i ≠ s.infos.size) : m.Entry i c :=
    (Meaning.getElem?_concat_cases he).elim (fun h' => absurd h'.1 (h.infos_size ▸ hi)) And.right
  constructor
  · simp [Algebra.withEntry, Meaning.withEntry, h.infos_size]
  · intro k i hk
    cases hkey : v.key? with
    | none => exact (h.ids k i (by simpa [Algebra.withEntry, hkey] using hk)).mono hle
    | some l =>
      simp only [Algebra.withEntry, hkey, Std.HashMap.getElem?_insert] at hk
      split at hk
      · rename_i e
        cases hk
        rwa [← eq_of_beq e, Valuation.seen_of_key? hkey hz]
      · exact (h.ids k i hk).mono hle
  · intro i c he
    rw [hinfo]
    split
    · rename_i e
      subst e
      cases hnew.symm.trans he
      exact hx
    · rename_i hi
      exact h.entry i c (hold he hi)
  · exact fun i hi => (h.bools i hi).imp (·.mono hle) (·.mono hle)
  · intro u hu i he hi
    rw [hinfo] at hi
    split at hi
    · simp [Info.isVirtual, hvirt] at hi
    · rename_i hne
      exact id?_withEntry hv (h.apart u hu i (hold he hne) hi)
  · exact fun b op hb hc => ⟨(h.opposite b op hb hc).1.mono hle, (h.opposite b op hb hc).2⟩
  · exact h.written

theorem describe_ok (v : Value) (s : OptimizeState) : ∃ x bounds, describe v s = .ok x { s with bounds } ∧
    x.box = some v ∧ x.level = (if v.isConst then .constant else .unknown) ∧ x.virt = none := by
  rcases v with b | n | d | p
  · by_cases hb : b.kind = .int
    · exact ⟨_, _, by simp only [describe, hb, if_true]; rfl, rfl, rfl, rfl⟩
    · exact ⟨_, s.bounds, by simp only [describe, hb, if_false]; rfl, rfl, rfl, rfl⟩
  · exact ⟨_, _, rfl, rfl, rfl, rfl⟩
  · exact ⟨_, s.bounds, rfl, rfl, rfl, rfl⟩
  · exact ⟨_, s.bounds, rfl, rfl, rfl, rfl⟩

theorem get_bind {α : Type} (f : OptimizeState → OptimizeM α) (s : OptimizeState) : (get >>= f) s = f s s := rfl

theorem idOf_of_some {i : InfoId} (h : s.id? v = some i) : idOf v s = .ok i s := by
  refine (get_bind _ s).trans ?_
  rw [h]
  rfl

theorem idOf_of_none {x : Info} {bounds : Array Bound} (h : s.id? v = none)
    (hx : describe v s = .ok x { s with bounds }) : idOf v s = .ok s.infos.size (Algebra.withEntry { s with bounds } v x) := by
  refine (get_bind _ s).trans ?_
  rw [h]
  refine (bind_eq hx).trans ?_
  unfold Algebra.withEntry
  cases v.key? <;> rfl

theorem Knows.idOf_ok (h : Knows ν z args m s) (hz : v.Met z) :
    ∃ i s' m', idOf v s = .ok i s' ∧ m ≤ m' ∧ Knows ν z args m' s' ∧ m'.Entry i (ν.val v) ∧
      (v.key? ≠ none → s'.id? v = some i) ∧ ∀ u j, s.id? u = some j → s'.id? u = some j := by
  cases hv : s.id? v with
  | some i =>
    obtain ⟨k, hk, hi⟩ := Option.bind_eq_some_iff.1 hv
    have he : m.Entry i (ν.val v) := Valuation.seen_of_key? hk hz ▸ h.ids k i hi
    exact ⟨i, s, m, idOf_of_some hv, le_refl m, h, he, fun _ => hv, fun _ _ hu => hu⟩
  | none =>
    obtain ⟨x, bounds, hx, hbox, hlevel, hvirt⟩ := describe_ok v s
    have hs := (h.congr { s with bounds } rfl rfl rfl rfl rfl).withEntry hv hz (.self v hbox hlevel) hvirt
    refine ⟨s.infos.size, _, _, idOf_of_none hv hx, m.le_withEntry _ _, hs, ?_, id?_withEntry_self v x, fun u j hu => id?_withEntry hv hu⟩
    rw [Meaning.Entry, h.infos_size]
    exact List.getElem?_concat_length

theorem Knows.current_ok (h : Knows ν z args m s) {op : Op} (ht : m.TaggedBy ν op) (hz : ∀ v ∈ op.args, v.Met z) :
    ∃ args', current op s = .ok { op with args := args' } s ∧ args'.map ν.val = op.args.map ν.val ∧ ∀ v ∈ args', v.Met z := by
  have hsame : ∃ args', (.ok op s : EStateM.Result Failure OptimizeState Op) = .ok { op with args := args' } s ∧
      args'.map ν.val = op.args.map ν.val ∧ ∀ v ∈ args', v.Met z := ⟨op.args, rfl, rfl, hz⟩
  unfold current
  split
  · exact hsame
  · rename_i h0
    dsimp only [bind, EStateM.bind, get, getThe, MonadStateOf.get, EStateM.get]
    cases hw : s.written[op.tag]? with
    | none => exact hsame
    | some written =>
      obtain ⟨htag, hmet⟩ := h.written _ _ hw
      exact ⟨written, rfl, Option.some.inj (htag.symm.trans (ht.resolve_left h0).2), hmet⟩

end

end Algebra
end FlowCompiler.Trace

/-!
## What operations are replaced by

The pass of known values looks an operation up and decides: the result is what an entry stands for, or a number, or the
operation is written out, perhaps as another one; a guard is written out, dropped, or found to fail.  `Replacement` lists
the decisions, and `Replacement.carryOut` says what is done with each, whatever takes the operations that are written
out.  For a valuation of which the state knows the truth the decision is right: executing the operation gives what the
entry stands for, or the number, and a guard holds when the guard in its place holds.

There is one exception.  A comparison with null is written out as a test of the other pointer for zero, as if it were a
number.  The number of a box with a pointer is zero, so that each pointer passes for null, and a pointer that is a constant has
no number at all.
-/

namespace FlowCompiler.Trace

/-- The same constant, where all doubles that are no number are the same. -/
inductive Const.Same : Const → Const → Prop
  | refl (c : Const) : Same c c
  | float {a b : Double} (h : a.Same b) : Same (.float a) (.float b)

namespace Valuation

variable (ν : Valuation)

/-- Executing an operation succeeds, changes nothing, and gives a constant, whether its operands are given as boxes or as constants. -/
def Executes (op : Op) (c : Const) : Prop :=
  ∀ st vs, vs.map st.constOf = op.args.map ν.val → execute op.code op.descr vs st = .ok (some (.const c)) st

/-- What executing an operation gives is the same as a constant. -/
def Gives (op : Op) (c : Const) : Prop := ∃ c', ν.Executes op c' ∧ c'.Same c

/-- The operands of an operation are as many as it takes, and of the kind that it takes. -/
structure Types (op : Op) : Prop where
  arity : ∀ n, op.code.arity = some n → op.args.length = n
  kinds : ∀ k, op.code.operandKind = some k → ∀ v ∈ op.args, (ν.val v).kind = k

/-- In a frame the operands of an operation have the constants that they stand for. -/
def Binds (op : Op) (f : Frame) : Prop := ∀ v ∈ op.args, Exec.resolve f v = some (.const (ν.val v))

/-- A guard holds when another one does. -/
def GuardsAlike (op op' : Op) : Prop := op.isGuard = true ∧ op'.isGuard = true ∧ ∀ st f, ν.Binds op f → Run.holds st f op' = Run.holds st f op

/-- A guard always holds. -/
def GuardHolds (op : Op) : Prop := op.isGuard = true ∧ ∀ st f, ν.Binds op f → Run.holds st f op = true

/-- A comparison of pointers becomes a test of a pointer as if it were a number.  In a box with null it finds what the comparison finds. -/
def TestsPointer (op op' : Op) : Prop :=
  op.code.operandKind = some .ref ∧ (op'.code = .intIsZero ∨ op'.code = .intIsTrue) ∧ ∃ v, op'.args = [v] ∧ (ν.val v).kind = .ref ∧
    (ν.val v = .null → ∃ c, ν.Executes op c ∧
      ∀ st b, st.recordedOf b = .null → execute op'.code op'.descr [.box b] st = .ok (some (.const c)) st)

variable {ν} {op : Op} {c : Const}

theorem Types.args_eq_pair (h : ν.Types op) (ha : op.code.arity = some 2) : op.args = [op.arg 0, op.arg 1] := by
  have hlen := h.arity 2 ha
  match hargs : op.args, hlen with
  | [a, b], _ => simp [Op.arg, hargs]

theorem Types.args_eq_single (h : ν.Types op) (ha : op.code.arity = some 1) : op.args = [op.arg 0] := by
  have hlen := h.arity 1 ha
  match hargs : op.args, hlen with
  | [a], _ => simp [Op.arg, hargs]

theorem Types.mem_pair (h : ν.Types op) (ha : op.code.arity = some 2) : op.arg 0 ∈ op.args ∧ op.arg 1 ∈ op.args := by
  rw [h.args_eq_pair ha]
  simp [Op.arg]

theorem Types.mem_single (h : ν.Types op) (ha : op.code.arity = some 1) : op.arg 0 ∈ op.args := by
  rw [h.args_eq_single ha]
  simp [Op.arg]

theorem Types.reads {k : Kind} (h : ν.Types op) (hk : op.code.operandKind = some k) :
    ∀ k', Exec.reads? op.code = some k' → ∀ v ∈ op.args, (ν.val v).kind = k' := fun _ hk' =>
  Outcome.reads?_of_operandKind hk hk' ▸ h.kinds k hk

section

variable {a b : Value} (hk : ∀ k, Exec.reads? op.code = some k → ∀ v ∈ op.args, (ν.val v).kind = k)
include hk

theorem executes_of_pair (hargs : op.args = [a, b]) (hc : Exec.compute? op.code (ν.val a) (ν.val b) = some (.ok c)) : ν.Executes op c := by
  intro st vs hvs
  refine Outcome.execute_of_operands (fun k hk' v hv => ?_) ?_
  · obtain ⟨u, hu, e⟩ := List.mem_map.1 (hvs ▸ List.mem_map_of_mem hv)
    rw [← e]
    exact hk k hk' u hu
  · obtain ⟨v, w, rfl⟩ : ∃ v w, vs = [v, w] := List.length_eq_two.1 (by simpa [hargs] using congrArg List.length hvs)
    simp only [hargs, List.map_cons, List.map_nil, List.cons.injEq, and_true] at hvs
    exact (congrArg₂ _ hvs.1 hvs.2).trans hc

theorem executes_of_single (hargs : op.args = [a]) (hc : ∀ y, Exec.compute? op.code (ν.val a) y = some (.ok c)) : ν.Executes op c := by
  intro st vs hvs
  refine Outcome.execute_of_operands (fun k hk' v hv => ?_) ?_
  · obtain ⟨u, hu, e⟩ := List.mem_map.1 (hvs ▸ List.mem_map_of_mem hv)
    rw [← e]
    exact hk k hk' u hu
  · obtain ⟨v, rfl⟩ : ∃ v, vs = [v] := List.length_eq_one_iff.1 (by simpa [hargs] using congrArg List.length hvs)
    simp only [hargs, List.map_cons, List.map_nil, List.cons.injEq, and_true] at hvs
    change Exec.compute? op.code (st.constOf v) _ = _
    rw [hvs]
    exact hc _

end

theorem Executes.gives (h : ν.Executes op c) : ν.Gives op c := ⟨c, h, .refl c⟩

theorem Executes.gives_same {d : Const} (h : ν.Executes op c) (hs : c.Same d) : ν.Gives op d := ⟨c, h, hs⟩

end Valuation

variable {i : InfoId} {s' : OptimizeState}

namespace Algebra

open OptimizeM Bounds

/-- What the pass decides to do with an operation. -/
inductive Replacement where
  /-- The result is what an entry stands for. -/
  | entry (i : InfoId)
  | number (n : Int64)
  | written (op : Op)
  /-- A guard is written out, and something is learned from it. -/
  | guarded (op : Op) (learn : OptimizeM Unit)
  /-- A guard that holds is dropped. -/
  | dropped
  /-- A guard that fails makes the trace invalid. -/
  | rejected (f : Failure)

namespace Replacement

def carryOut (next : Emit) (op : Op) : Replacement → OptimizeM Unit
  | entry i => setEqual op.result i
  | number n => setConstInt op.result n
  | written op' => give next op'
  | guarded op' learn => do
    next op'
    learn
  | dropped => pure ()
  | rejected f => throw f

/-- A decision is right for a valuation, or it tests a pointer. -/
def Agrees (ν : Valuation) (m : Meaning) (op : Op) : Replacement → Prop
  | entry i => ∃ c, m.Entry i c ∧ ν.Gives op c
  | number n => ν.Executes op (.int n)
  | written op' => op'.result = op.result ∧ (op' = op ∨ ν.TestsPointer op op')
  | guarded op' _ => ν.GuardsAlike op op'
  | dropped => ν.GuardHolds op
  | rejected _ => op.isGuard = true

end Replacement

/-- In a state, of which a meaning is known, an operation is replaced by something that agrees with it. -/
def Replaces (ν : Valuation) (z : Double) (m : Meaning) (s : OptimizeState) (op : Op) (k : Emit → OptimizeM Unit) : Prop :=
  ∃ (r : Replacement) (s' : OptimizeState) (m' : Meaning), m ≤ m' ∧ Knows ν z op.args m' s' ∧
    (∀ next, k next s = r.carryOut next op s') ∧ r.Agrees ν m' op

section

variable {ν : Valuation} {z : Double} {m : Meaning} {s : OptimizeState} {op : Op}

theorem Replaces.done {k : Emit → OptimizeM Unit} (h : Knows ν z op.args m s) (r : Replacement)
    (e : ∀ next, k next s = r.carryOut next op s) (ha : r.Agrees ν m op) : Replaces ν z m s op k :=
  ⟨r, s, m, le_refl m, h, e, ha⟩

theorem Replaces.after {α : Type} {k : OptimizeM α} {f : α → Emit → OptimizeM Unit} {a : α} {m' : Meaning} (e : k s = .ok a s') (hle : m ≤ m')
    (h : Replaces ν z m' s' op (f a)) : Replaces ν z m s op fun next => k >>= fun a => f a next := by
  obtain ⟨r, s'', m'', hle', hk, e', ha⟩ := h
  refine ⟨r, s'', m'', le_trans hle hle', hk, fun next => ?_, ha⟩
  rw [← e' next]
  exact bind_eq e

theorem Replaces.get {f : OptimizeState → Emit → OptimizeM Unit} (h : Replaces ν z m s op (f s)) :
    Replaces ν z m s op fun next => get >>= fun t => f t next :=
  .after rfl (le_refl m) h

theorem Replaces.info {f : Info → Emit → OptimizeM Unit} (h : Replaces ν z m s op (f (s.info i))) :
    Replaces ν z m s op fun next => .info i >>= fun x => f x next :=
  .after rfl (le_refl m) h

theorem Replaces.ite {t : Prop} [Decidable t] {k k' : Emit → OptimizeM Unit} (h : t → Replaces ν z m s op k)
    (h' : ¬ t → Replaces ν z m s op k') : Replaces ν z m s op fun next => if t then k next else k' next := by
  by_cases ht : t
  · simpa only [ht, if_true] using h ht
  · simpa only [ht, if_false] using h' ht

theorem Replaces.given (h : Knows ν z op.args m s) : Replaces ν z m s op fun next => give next op :=
  .done h (.written op) (fun _ => rfl) ⟨rfl, .inl rfl⟩

theorem infoOf_of_idOf {v : Value} (e : idOf v s = .ok i s') : infoOf v s = .ok (s'.info i) s' := (bind_eq e).trans rfl

theorem met_arg (op : Op) (hz : ∀ v ∈ op.args, v.Met z) (i : Nat) : (op.arg i).Met z := by
  rw [Op.arg]
  cases hi : op.args[i]? with
  | none =>
    intro d e
    cases e
  | some v => exact hz v (List.mem_of_getElem? hi)

/-! ### Arithmetic -/

theorem Replaces.entry {c : Const} (h : Knows ν z op.args m s) (hi : m.Entry i c) (hg : ν.Gives op c) :
    Replaces ν z m s op fun _ => setEqual op.result i :=
  .done h (.entry i) (fun _ => rfl) ⟨c, hi, hg⟩

theorem Replaces.number {n : Int64} (h : Knows ν z op.args m s) (hg : ν.Executes op (.int n)) :
    Replaces ν z m s op fun _ => setConstInt op.result n :=
  .done h (.number n) (fun _ => rfl) hg

/-- What the laws of neutral and absorbing elements lead to. -/
theorem applyIdentity_eq (next : Emit) : (do unless ← applyIdentity op do give next op) = (do
    let x ← idOf (op.arg 0)
    let y ← idOf (op.arg 1)
    let a ← info x
    let b ← info y
    match identity? op.code a.constInt? b.constInt? (x == y) with
    | some .first => setEqual op.result x
    | some .second => setEqual op.result y
    | some (.number n) => setConstInt op.result n
    | none => give next op) := by
  unfold applyIdentity
  simp only [bind_assoc]
  refine bind_congr fun x => bind_congr fun y => bind_congr fun a => bind_congr fun b => ?_
  cases identity? op.code a.constInt? b.constInt? (x == y) with
  | none => simp
  | some i => cases i <;> simp

theorem arithmetic_replaces (h : Knows ν z op.args m s) (ht : ν.Types op) (hz : ∀ v ∈ op.args, v.Met z) (hk : op.code.operandKind = some .int)
    (ha : op.code.arity = some 2) : Replaces ν z m s op (fun next => do unless ← applyIdentity op do give next op) := by
  obtain ⟨i, s₁, m₁, e₁, h₁, hs₁, hi, -, -⟩ := h.idOf_ok (met_arg _ hz 0)
  obtain ⟨j, s₂, m₂, e₂, h₂, hs₂, hj, -, -⟩ := hs₁.idOf_ok (met_arg _ hz 1)
  have hi := hi.mono h₂
  have hx := Const.eq_int_num (ht.kinds _ hk _ (ht.mem_pair ha).1)
  have hy := Const.eq_int_num (ht.kinds _ hk _ (ht.mem_pair ha).2)
  have hexec {r : Identity} (hr : identity? op.code (s₂.info i).constInt? (s₂.info j).constInt? (i == j) = some r) :
      ν.Executes op (.int (r.result (ν.val (op.arg 0)).num (ν.val (op.arg 1)).num)) := by
    refine Valuation.executes_of_pair (ht.reads hk) (ht.args_eq_pair ha) (Outcome.compute?_of_binary (intBinary?_of_identity? hr ?_ ?_ fun e => ?_))
    · exact fun n hn => by rw [(hs₂.entry _ _ hi).eq_of_constInt? hn]; rfl
    · exact fun n hn => by rw [(hs₂.entry _ _ hj).eq_of_constInt? hn]; rfl
    · rw [eq_of_beq e] at hi
      rw [Option.some.inj (hi.symm.trans hj)]
  simp only [applyIdentity_eq]
  refine .after e₁ h₁ (.after e₂ h₂ (.info (.info ?_)))
  split
  · rename_i hr
    exact .entry hs₂ hi (hx ▸ (hexec hr).gives)
  · rename_i hr
    exact .entry hs₂ hj (hy ▸ (hexec hr).gives)
  · rename_i hr
    exact .number hs₂ (hexec hr)
  · exact .given hs₂

/-! ### Doubles -/

theorem gives_product {d e : Double} (ht : ν.Types op) (hc : op.code = .floatMul)
    (hd : ν.val (op.arg 0) = .float d) (he : ν.val (op.arg 1) = .float e) :
    (d.numEq (.ofInt 1) = true → ν.Gives op (.float e)) ∧ (e.numEq (Double.ofInt 1) = true → ν.Gives op (.float d)) := by
  have hproduct : ν.Executes op (.float (d.mul e)) :=
    Valuation.executes_of_pair (ht.reads (k := .float) (hc ▸ rfl)) (ht.args_eq_pair (hc ▸ rfl)) (by rw [hc, hd, he]; rfl)
  refine ⟨fun h1 => hproduct.gives_same ?_, fun h1 => hproduct.gives_same (.float (Double.mul_same d h1))⟩
  rw [Double.mul_comm]
  exact .float (Double.mul_same e h1)

theorem floatMul_replaces (h : Knows ν z op.args m s) (ht : ν.Types op) (hz : ∀ v ∈ op.args, v.Met z)
    (hc : op.code = .floatMul) : Replaces ν z m s op fun next => floatMul next op := by
  have ha : op.code.arity = some 2 := by rw [hc]; rfl
  have hkind (v : Value) (hv : v ∈ op.args) : ∃ d, ν.val v = .float d := by
    have := ht.kinds .float (hc ▸ rfl) v hv
    cases hd : ν.val v <;> rw [hd] at this <;> cases this
    exact ⟨_, rfl⟩
  obtain ⟨d, hd⟩ := hkind _ (ht.mem_pair ha).1
  obtain ⟨e, he⟩ := hkind _ (ht.mem_pair ha).2
  obtain ⟨hleft, hright⟩ := gives_product ht hc hd he
  unfold floatMul
  extract_lets isOne
  -- a factor is one if its entry says so; the entry of a factor that is no constant says nothing
  have hone {m : Meaning} {s : OptimizeState} (h : Knows ν z op.args m s) (i : Nat) {a : Double} (ha : ν.val (op.arg i) = .float a) :
      ∃ t s' m', isOne (op.arg i) s = .ok t s' ∧ m ≤ m' ∧ Knows ν z op.args m' s' ∧ (t = true → a.numEq (.ofInt 1) = true) := by
    obtain ⟨j, s', m', e', hle, hs', hj, -, -⟩ := h.idOf_ok (met_arg _ hz i)
    rw [ha] at hj
    suffices ht : ∃ t, isOne (op.arg i) s = .ok t s' ∧ (t = true → a.numEq (.ofInt 1) = true) from
      ht.elim fun t ht => ⟨t, s', m', ht.1, hle, hs', ht.2⟩
    simp only [isOne, bind_eq (infoOf_of_idOf e')]
    rcases hbox : (s'.info j).box with _ | _ | _ | d | _
    case some.const.float =>
      have hd : Const.float d = .float a := (hs'.entry _ _ hj).box _ hbox
      cases hd
      exact ⟨_, rfl, id⟩
    all_goals exact ⟨false, rfl, nofun⟩
  obtain ⟨t, s₁, m₁, e₁, h₁, hs₁, ht₁⟩ := hone h 0 hd
  refine .after e₁ h₁ ?_
  cases t with
  | true =>
    obtain ⟨j, s₂, m₂, e₂, h₂, hs₂, hj, -, -⟩ := hs₁.idOf_ok (met_arg _ hz 1)
    exact .after e₂ h₂ (.entry hs₂ hj (he ▸ hleft (ht₁ rfl)))
  | false =>
    obtain ⟨t, s₂, m₂, e₂, h₂, hs₂, ht₂⟩ := hone hs₁ 1 he
    refine .after e₂ h₂ ?_
    cases t with
    | true =>
      obtain ⟨i, s₃, m₃, e₃, h₃, hs₃, hi, -, -⟩ := hs₂.idOf_ok (met_arg _ hz 0)
      exact .after e₃ h₃ (.entry hs₃ hi (hd ▸ hright (ht₂ rfl)))
    | false => exact .given hs₂

theorem floatNeg_replaces (h : Knows ν z op.args m s) (ht : ν.Types op) (hc : op.code = .floatNeg) :
    Replaces ν z m s op fun next => floatNeg next op := by
  have hargs := ht.args_eq_single (hc ▸ rfl)
  unfold floatNeg
  cases hb : (op.arg 0).box? with
  | none => exact .given h
  | some b =>
    refine .get ?_
    cases hp : s.producers[b]? with
    | none => exact .given h
    | some inner =>
      by_cases hcode : inner.code = .floatNeg
      · obtain ⟨htag, hmet, d, hd, hneg⟩ := h.opposite b inner hp hcode
        obtain ⟨args, e, hval, hmet'⟩ := h.current_ok htag hmet
        simp only [hcode, if_true]
        refine .after e (le_refl _) ?_
        obtain ⟨i, s₁, m₁, e₁, h₁, hs₁, hi, -, -⟩ := h.idOf_ok (met_arg { inner with args } hmet' 0)
        rw [ν.val_arg_congr hval, hd] at hi
        refine .after e₁ h₁ (.entry hs₁ hi (Valuation.executes_of_single (ht.reads (k := .float) (hc ▸ rfl)) hargs fun _ => ?_).gives)
        have harg : op.arg 0 = .box b := by
          cases hv : op.arg 0 <;> rw [hv] at hb <;> cases hb
          rfl
        rw [hc, harg]
        change some (Except.ok (Const.float (Exec.floatOf (ν b)).neg)) = _
        rw [hneg, Exec.floatOf, neg_neg]
      · simp only [hcode, if_false]
        exact .given h

end

end Algebra
end FlowCompiler.Trace
