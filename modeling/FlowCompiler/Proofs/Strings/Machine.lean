import FlowCompiler.Proofs.Bounds.Contained
import FlowCompiler.Proofs.Growth
import FlowCompiler.Trace.Optimize.Force

/-!
# Straight lines of operations on strings

The machine executes operations one after another on an environment and a store.  For each of the operations that strings are made
of, one lemma says what a step does, given the contents of the operands.
-/

namespace FlowCompiler.Trace

open List Option Function

variable {ch : Int} {code : Opcode} {d : Option Descr}

/-- What a value is to a trace: a number, or a string with its kind. -/
inductive Content where
  | num (n : Int64)
  | str (chars : List Int) (unicode : Bool)

/-- A number that is given as an integer. -/
def Content.int (k : Int) : Content := .num (Int64.ofInt k)

/-- Lengths and places are words. -/
theorem toInt_ofInt_nat {k : Nat} (h : k < 2 ^ 63) : (Int64.ofInt k).toInt = k := by
  have := Int.natCast_nonneg k
  exact Int64.toInt_ofInt_of_le (by omega) (by omega)

theorem Content.num_eq_int {n : Int64} (h : 0 ≤ n.toInt) : Content.num n = .int n.toInt.toNat := by
  rw [Content.int, Int.toNat_of_nonneg h, Int64.ofInt_toInt]

/-- The characters are code points, and the length is a word. -/
def Content.Valid : Content → Prop
  | num _ => True
  | str cs _ => cs.length < 2 ^ 63 ∧ ∀ c ∈ cs, Store.isScalar c = true

/-- A new string, as long as nothing of it is written. -/
def Content.blank (n : Nat) (u : Bool) : Content := .str (List.replicate n 0) u

theorem Content.valid_blank {n : Nat} (hn : n < 2 ^ 63) (u : Bool) : (blank n u).Valid := by
  refine ⟨by simpa using hn, fun z hz => ?_⟩
  rw [eq_of_mem_replicate hz]
  rfl

theorem Content.Valid.part {cs : List Int} {u : Bool} (h : (Content.str cs u).Valid) (p n : Nat) : (Content.str ((cs.drop p).take n) u).Valid := by
  refine ⟨?_, fun z hz => h.2 z (mem_of_mem_drop (mem_of_mem_take hz))⟩
  have := h.1
  simp only [length_take, length_drop]
  omega

theorem Content.Valid.set {cs : List Int} {u : Bool} (h : (Content.str cs u).Valid) (p : Nat) (hch : Store.isScalar ch = true) :
    (Content.str (cs.set p ch) u).Valid := by
  refine ⟨by simpa using h.1, fun z hz => ?_⟩
  exact (mem_or_eq_of_mem_set hz).elim (h.2 z) fun e => e ▸ hch

/-- Strings of one store are strings of another one, at the same places. -/
def Store.Strings (s t : Store) : Prop := ∀ r x, s.str? r = some x → t.str? r = some x

theorem Store.Strings.refl (s : Store) : s.Strings s := fun _ _ h => h

theorem Store.Strings.trans {s t u : Store} (h : s.Strings t) (h' : t.Strings u) : s.Strings u := fun r x hr => h' r x (h r x hr)

namespace Store

variable {s t : Store} {p : Ref} {cs : List Int} {u : Bool}

theorem object_of_str? (h : s.str? p = some (cs, u)) : s.object p = .str cs u := by
  unfold str? at h
  split at h
  · rename_i e
    cases h
    exact e
  · cases h

theorem str?_of_object (h : s.object p = .str cs u) : s.str? p = some (cs, u) := by
  rw [str?, h]

/-- An object becomes a string, and the others are as they were. -/
structure Puts (s : Store) (p : Ref) (cs : List Int) (u : Bool) (t : Store) : Prop where
  here : t.object p = .str cs u
  others : ∀ q, q ≠ p → t.object q = s.object q
  interned : t.interned = s.interned

theorem puts_push (s : Store) (cs : List Int) (u : Bool) : s.Puts s.objects.size cs u { s with objects := s.objects.push (.str cs u) } where
  here := by simp [object]
  others q hq := by simp [object, Array.getElem?_push, hq]
  interned := rfl

theorem puts_update {cs' : List Int} {u' : Bool} (cs : List Int) (u : Bool) (h : s.str? p = some (cs', u')) :
    s.Puts p cs u (s.updateObject p fun _ => .str cs u) where
  here := by
    have hlt : p < s.objects.size := by
      by_contra hge
      have : s.object p = default := by simp [object, Nat.not_lt.1 hge]
      rw [object_of_str? h] at this
      cases this
    simp only [object, updateObject, Array.getElem?_modify, if_true, Array.getElem?_eq_getElem hlt, map_some, getD_some]
  others q hq := by simp only [object, updateObject, Array.getElem?_modify, if_neg (Ne.symm hq)]
  interned := rfl

theorem str?_size (s : Store) : s.str? s.objects.size = none := by
  simp only [str?, object, Array.getElem?_eq_none (Nat.le_refl _)]
  rfl

theorem Puts.str? (h : s.Puts p cs u t) : t.str? p = some (cs, u) := str?_of_object h.here

theorem Puts.str?_of_ne (h : s.Puts p cs u t) {q : Ref} (hq : q ≠ p) : t.str? q = s.str? q := by
  rw [Store.str?, Store.str?, h.others q hq]

theorem Puts.strings (h : s.Puts p cs u t) (hp : s.str? p = none) : s.Strings t := by
  intro q x hx
  have hq : q ≠ p := by
    rintro rfl
    rw [hp] at hx
    cases hx
  rw [h.str?_of_ne hq, hx]

/-- The constant strings are where they are said to be. -/
def Interned (s : Store) : Prop := ∀ u cs r, s.interned.lookup (u, cs) = some r → s.str? r = some (cs, u)

/-- Functions are where they were. -/
def Functions (s t : Store) : Prop := ∀ r name b, s.object r = .func name b → t.object r = .func name b

theorem Puts.functions (h : s.Puts p cs u t) (hp : ∀ name b, s.object p ≠ .func name b) : s.Functions t := by
  intro r name b hr
  rw [h.others r (fun e => hp name b (e ▸ hr)), hr]

theorem scalars_eq (h : ∀ c ∈ cs, isScalar c = true) : scalars cs = cs := by
  rw [scalars]
  refine (map_congr_left fun c hc => ?_).trans (map_id cs)
  rw [h c hc]
  rfl

/-- What making a constant string leaves. -/
structure Interns (s : Store) (cs : List Int) (u : Bool) (r : Ref) (t : Store) : Prop where
  here : t.str? r = some (cs, u)
  strings : s.Strings t
  functions : s.Functions t
  interned : t.Interned
  /-- What is no constant string does not become one. -/
  apart : ∀ q, s.str? q ≠ none → (∀ key, s.interned.lookup key ≠ some q) → r ≠ q ∧ ∀ key, t.interned.lookup key ≠ some q
  boxes : t.boxes = s.boxes
  calls : t.calls = s.calls

theorem intern_ok (h : s.Interned) (hcs : ∀ c ∈ cs, isScalar c = true) (u : Bool) : ∃ r t, intern cs u s = .ok r t ∧ s.Interns cs u r t := by
  cases hl : s.interned.lookup (u, cs) with
  | some r =>
    refine ⟨r, s, ?_, h u cs r hl, .refl s, fun _ _ _ hr => hr, h, fun q _ hq => ⟨fun e => hq _ (e ▸ hl), hq⟩, rfl, rfl⟩
    refine (bind_of_ok rfl).trans ?_
    rw [scalars_eq hcs, hl]
    rfl
  | none =>
    have hput := puts_push s cs u
    have hstrings := hput.strings s.str?_size
    refine ⟨s.objects.size, { s with
      objects := s.objects.push (.str cs u)
      interned := ((u, cs), s.objects.size) :: s.interned }, ?_, hput.str?, hstrings, ?_, ?_, fun q hq hnot => ?_, rfl, rfl⟩
    · refine (bind_of_ok rfl).trans ?_
      rw [scalars_eq hcs, hl]
      rfl
    · refine hput.functions fun name b hb => ?_
      simp only [object, Array.getElem?_eq_none (Nat.le_refl _)] at hb
      cases hb
    · intro u' cs' r hr
      rw [lookup_cons] at hr
      split at hr
      · cases hr
        cases eq_of_beq ‹_›
        exact hput.str?
      · exact hstrings r _ (h u' cs' r hr)
    · have hne : s.objects.size ≠ q := fun e => hq (e ▸ s.str?_size)
      refine ⟨hne, fun key => ?_⟩
      rw [lookup_cons]
      split
      · exact fun e => hne (some_inj.1 e)
      · exact hnot key

end Store

/-- What a straight line of operations works on. -/
structure Config where
  env : Valuation
  store : Store

namespace Config

/-- What an operation that succeeds binds and leaves. -/
def finish (env : Valuation) (result : Option Box) (value : Option Value) (store : Store) : Config :=
  match result, value with
  | some b, some (.const k) => ⟨update env b k, store⟩
  | _, _ => ⟨env, store⟩

/-- Executes one operation. -/
def step (c : Config) (op : Op) : Option Config :=
  match execute op.code op.descr (op.args.map fun v => .const (c.env.val v)) c.store with
  | .ok r store => some (finish c.env op.result r store)
  | .error _ _ => none

/-- Executes operations one after another. -/
def run (c : Config) : List Op → Option Config
  | [] => some c
  | op :: ops => (c.step op).bind fun c' => c'.run ops

/-- A value shows a content. -/
def Shows (c : Config) (v : Value) : Content → Prop
  | .num n => c.env.val v = .int n
  | .str cs u => ∃ r, c.env.val v = .ptr (some r) ∧ c.store.str? r = some (cs, u)

/-- What points somewhere and has a content points to a string. -/
theorem Shows.str?_ne_none {c : Config} {v : Value} {x : Content} {r : Ref} (h : c.Shows v x) (hr : c.env.val v = .ptr (some r)) :
    c.store.str? r ≠ none := by
  cases x with
  | num n => cases hr.symm.trans h
  | str cs u =>
    obtain ⟨q, hq, hs⟩ := h
    cases hq.symm.trans hr
    rw [hs]
    exact some_ne_none _

theorem run_append (c : Config) (xs ys : List Op) : c.run (xs ++ ys) = (c.run xs).bind fun c' => c'.run ys := by
  induction xs generalizing c with
  | nil => rfl
  | cons op xs ih =>
    rw [cons_append, run, run]
    cases c.step op with
    | none => rfl
    | some c' => exact ih c'

theorem run_concat (c : Config) (xs : List Op) (op : Op) : c.run (xs ++ [op]) = (c.run xs).bind fun c' => c'.step op := by
  rw [run_append]
  refine congrArg _ (funext fun c' => ?_)
  rw [run]
  cases c'.step op <;> rfl

variable {c c' : Config} {op : Op} {a b v : Value} {r : Box} {m : OptimizeM.StringMode}

variable {store : Store} {p : Ref} {cs : List Int} {u : Bool}

theorem step_of_execute {w : Option Value} (h : execute op.code op.descr (op.args.map fun v => .const (c.env.val v)) c.store = .ok w store) :
    c.step op = some (finish c.env op.result w store) := by
  rw [step, h]

/-! ## Single operations -/

theorem step_word {x y n : Int64} (hk : Exec.reads? code = some .int) (ha : c.Shows a (.num x)) (hb : c.Shows b (.num y))
    (h : Exec.compute? code (.int x) (.int y) = some (.ok (.int n))) :
    c.step { code, args := [a, b], result := some r } = some ⟨update c.env r (.int n), c.store⟩ := by
  have ha : c.env.val a = .int x := ha
  have hb : c.env.val b = .int y := hb
  refine step_of_execute (w := some (.const (.int n))) (Outcome.execute_of_operands (fun k hk' => ?_) ?_)
  · cases hk.symm.trans hk'
    simp [Store.constOf, ha, hb, Const.kind]
  · change Exec.compute? code (c.env.val a) (c.env.val b) = _
    rw [ha, hb, h]

theorem execute_memory (h : ∀ x y, Exec.compute? code x y = none) (d : Option Descr) (args : List Value) (s : Store) :
    execute code d args s = Exec.memory code d args s := by
  have reading (f : Store → ExecM (Option Value)) : (get >>= f) s = f s s := rfl
  unfold execute
  rw [reading]
  rw [h]

theorem stringAt_of_object {a : Exec.Args} {i : Nat} {s : Store}
    (hv : a.store.refOf (a.get i) = some p) (hs : a.store.object p = .str cs u) : Exec.stringAt a i s = .ok (p, cs, u) s := by
  unfold Exec.stringAt Exec.Args.object?
  rw [hv, map_some, hs]
  rfl

theorem step_strlen (ha : c.Shows a (.str cs u)) : c.step { code := m.strlen, args := [a], result := some r } =
      some ⟨update c.env r (.int (Int64.ofInt cs.length)), c.store⟩ := by
  obtain ⟨p, hv, hs⟩ := ha
  have hstr : Exec.stringAt ⟨c.store, [.const (.ptr (some p))]⟩ 0 c.store = .ok (p, cs, u) c.store := stringAt_of_object rfl (Store.object_of_str? hs)
  refine step_of_execute (w := some (.ofInt cs.length)) ((execute_memory (fun _ _ => by rcases m with ⟨_ | _⟩ <;> rfl) _ _ _).trans ?_)
  change Exec.memory m.strlen none [.const (c.env.val a)] c.store = _
  rw [hv]
  rcases m with ⟨_ | _⟩ <;> exact (bind_of_ok hstr).trans rfl

theorem step_getitem {k : Int64} (ha : c.Shows a (.str cs u)) (hb : c.Shows b (.num k)) (h0 : 0 ≤ k.toInt) (hch : cs[k.toInt.toNat]? = some ch) :
    c.step { code := m.getitem, args := [a, b], result := some r } = some ⟨update c.env r (.int (Int64.ofInt ch)), c.store⟩ := by
  obtain ⟨p, hv, hs⟩ := ha
  have hstr : Exec.stringAt ⟨c.store, [.const (.ptr (some p)), .const (.int k)]⟩ 0 c.store = .ok (p, cs, u) c.store :=
    stringAt_of_object rfl (Store.object_of_str? hs)
  have hlt : k.toInt.toNat < cs.length := (List.getElem?_eq_some_iff.1 hch).1
  have hindex : Exec.indexIn m.getitem k cs.length c.store = .ok k.toInt.toNat c.store := by
    rw [Exec.indexIn, if_neg]
    · rfl
    · simp only [Bool.or_eq_true, decide_eq_true_eq, not_or, Int.not_lt, Int.not_le, ge_iff_le]
      omega
  refine step_of_execute (w := some (.ofInt ch)) ((execute_memory (fun _ _ => by rcases m with ⟨_ | _⟩ <;> rfl) _ _ _).trans ?_)
  change Exec.memory m.getitem none [.const (c.env.val a), .const (c.env.val b)] c.store = _
  rw [hv, show c.env.val b = _ from hb]
  have hread : (pure (some (.ofInt ((cs[k.toInt.toNat]?).getD 0))) : ExecM (Option Value)) c.store = .ok (some (.ofInt ch)) c.store := by
    rw [hch]
    rfl
  rcases m with ⟨_ | _⟩ <;> exact (bind_of_ok hstr).trans ((bind_of_ok hindex).trans hread)

/-- A character is read as the number that it was written as. -/
theorem toChar_ofInt (h : Store.isScalar ch = true) : Reader.toChar (Int64.ofInt ch) = ch := by
  simp only [Store.isScalar, Bool.and_eq_true, decide_eq_true_eq] at h
  rw [Reader.toChar, Int64.toInt_toInt32, Int64.toInt_ofInt]
  simp only [Int.bmod_def, Int64.size]
  omega

/-! ## Operations that write -/

theorem step_newstr {n : Int64} (ha : c.Shows a (.num n)) : ∃ store, c.step { code := m.newstr, args := [a], result := some r } =
        some ⟨update c.env r (.ptr (some c.store.objects.size)), store⟩ ∧
      c.store.Puts c.store.objects.size (List.replicate n.toInt.toNat 0) m.unicode store := by
  refine ⟨_, step_of_execute (w := some (.ofRef c.store.objects.size))
    ((execute_memory (fun _ _ => by rcases m with ⟨_ | _⟩ <;> rfl) _ _ _).trans ?_), Store.puts_push _ _ _⟩
  change Exec.memory m.newstr none [.const (c.env.val a)] c.store = _
  rw [show c.env.val a = _ from ha]
  rcases m with ⟨_ | _⟩ <;> rfl

theorem step_setitem {k x : Int64} (ha : c.env.val a = .ptr (some p)) (hs : c.store.str? p = some (cs, u)) (hb : c.Shows b (.num k))
    (hv : c.Shows v (.num x)) : ∃ store, c.step { code := m.setitem, args := [a, b, v] } = some ⟨c.env, store⟩ ∧
      c.store.Puts p (cs.set k.toInt.toNat (Reader.toChar x)) u store := by
  have hstr : Exec.stringAt ⟨c.store, [.const (.ptr (some p)), .const (.int k), .const (.int x)]⟩ 0 c.store = .ok (p, cs, u) c.store :=
    stringAt_of_object rfl (Store.object_of_str? hs)
  refine ⟨_, step_of_execute (w := none) ((execute_memory (fun _ _ => by rcases m with ⟨_ | _⟩ <;> rfl) _ _ _).trans ?_),
    Store.puts_update _ _ hs⟩
  change Exec.memory m.setitem none [.const (c.env.val a), .const (c.env.val b), .const (c.env.val v)] c.store = _
  rw [ha, show c.env.val b = _ from hb, show c.env.val v = _ from hv]
  rcases m with ⟨_ | _⟩ <;> exact (bind_of_ok hstr).trans rfl

theorem step_copycontent {src cur : List Int} {u w : Bool} {x y z : Int64} {first place length : Value} (ha : c.Shows a (.str src w))
    (hb : c.env.val b = .ptr (some p)) (hs : c.store.str? p = some (cur, u)) (hx : c.Shows first (.num x)) (hy : c.Shows place (.num y))
    (hz : c.Shows length (.num z)) : ∃ store, c.step { code := m.copycontent, args := [a, b, first, place, length] } = some ⟨c.env, store⟩ ∧
      c.store.Puts p (Exec.overwrite cur y.toInt.toNat (StringFunction.part src x.toInt z.toInt)) u store := by
  obtain ⟨q, hq, hsrc⟩ := ha
  have hread : Exec.stringAt ⟨c.store, [.const (.ptr (some q)), .const (.ptr (some p)), .const (.int x), .const (.int y), .const (.int z)]⟩
      0 c.store = .ok (q, src, w) c.store := stringAt_of_object rfl (Store.object_of_str? hsrc)
  have hstr : Exec.stringAt ⟨c.store, [.const (.ptr (some q)), .const (.ptr (some p)), .const (.int x), .const (.int y), .const (.int z)]⟩
      1 c.store = .ok (p, cur, u) c.store := stringAt_of_object rfl (Store.object_of_str? hs)
  refine ⟨_, step_of_execute (w := none) ((execute_memory (fun _ _ => by rcases m with ⟨_ | _⟩ <;> rfl) _ _ _).trans ?_),
    Store.puts_update _ _ hs⟩
  change Exec.memory m.copycontent none
    [.const (c.env.val a), .const (c.env.val b), .const (c.env.val first), .const (c.env.val place), .const (c.env.val length)] c.store = _
  rw [hq, hb, show c.env.val first = _ from hx, show c.env.val place = _ from hy, show c.env.val length = _ from hz]
  rcases m with ⟨_ | _⟩ <;> exact (bind_of_ok hread).trans ((bind_of_ok hstr).trans rfl)

/-! ## Calls -/

/-- A value shows a function on strings. -/
def Callee (c : Config) (v : Value) (f : StringFunction) : Prop :=
  ∃ r name, c.env.val v = .ptr (some r) ∧ c.store.object r = .func name (some (.string f))

theorem step_call {f w : Value} {g : StringFunction} {args : List Value} (hf : c.Callee f g)
    (h : g.apply (args.map fun v => .const (c.env.val v)) c.store = .ok w store) (hc : code = .call ∨ code = .callPure) :
    c.step { code, args := f :: args, result := some r, descr := d } = some (finish c.env (some r) (some w) store) := by
  obtain ⟨p, name, hp, hobj⟩ := hf
  refine step_of_execute (w := some w) ((execute_memory (fun _ _ => by rcases hc with rfl | rfl <;> rfl) _ _ _).trans ?_)
  have hcall : Exec.callFunction code (.const (c.env.val f) :: args.map fun v => .const (c.env.val v)) c.store = .ok (some w) store := by
    have hcallee : (c.store.refOf (.const (c.env.val f))).map c.store.object = some (.func name (some (.string g))) := by
      rw [hp]
      exact congrArg some hobj
    have hrun : Exec.onStore (g.apply (((args.map fun v => .const (c.env.val v)).map c.store.constOf).map .const)) c.store = .ok w store := by
      have hargs : ((args.map fun v => Value.const (c.env.val v)).map c.store.constOf).map Value.const = args.map fun v => .const (c.env.val v) := by
        simp [Store.constOf]
      rw [hargs, Exec.onStore, show (g.apply _).run c.store = _ from h]
    rw [Exec.callFunction]
    refine (bind_of_ok (show (get : ExecM Store) c.store = .ok c.store c.store from rfl)).trans ?_
    dsimp only
    rw [hcallee]
    exact (bind_of_ok hrun).trans rfl
  rcases hc with rfl | rfl <;> exact hcall

theorem step_concat {f : Value} {xs ys : List Int} {u w : Bool} (hf : c.Callee f .concat) (ha : c.Shows a (.str xs u)) (hb : c.Shows b (.str ys w))
    (hi : c.store.Interned) (hxs : ∀ x ∈ xs ++ ys, Store.isScalar x = true) (hc : code = .call ∨ code = .callPure) : ∃ p store,
    c.step { code, args := [f, a, b], result := some r, descr := d } = some ⟨update c.env r (.ptr (some p)), store⟩ ∧
      c.store.Interns (xs ++ ys) u p store := by
  obtain ⟨pa, hpa, hsa⟩ := ha
  obtain ⟨pb, hpb, hsb⟩ := hb
  obtain ⟨p, store, e, h⟩ := Store.intern_ok hi hxs u
  refine ⟨p, store, step_call (w := .ofRef p) hf ?_ hc, h⟩
  rw [map_cons, map_singleton, hpa, hpb]
  have hargs : (Store.intern (((c.store.str? pa).map Prod.fst).getD [] ++ ((c.store.str? pb).map Prod.fst).getD [])
      (((c.store.str? pa).map Prod.snd).getD false)) c.store = .ok p store := by
    rw [hsa, hsb]
    exact e
  exact (bind_of_ok hargs).trans rfl

theorem step_slice {f : Value} {xs : List Int} {first stop : Int64} {x y : Value} (hf : c.Callee f .slice) (ha : c.Shows a (.str xs u))
    (hx : c.Shows x (.num first)) (hy : c.Shows y (.num stop)) (hi : c.store.Interned) (hxs : ∀ x ∈ xs, Store.isScalar x = true)
    (hc : code = .call ∨ code = .callPure) :
    ∃ p store, c.step { code, args := [f, a, x, y], result := some r, descr := d } = some ⟨update c.env r (.ptr (some p)), store⟩ ∧
      c.store.Interns (StringFunction.part xs first.toInt (stop.toInt - first.toInt)) u p store := by
  obtain ⟨pa, hpa, hsa⟩ := ha
  have hpart : ∀ z ∈ StringFunction.part xs first.toInt (stop.toInt - first.toInt), Store.isScalar z = true := fun z hz =>
    hxs z (mem_of_mem_drop (mem_of_mem_take hz))
  obtain ⟨p, store, e, h⟩ := Store.intern_ok hi hpart u
  refine ⟨p, store, step_call (w := .ofRef p) hf ?_ hc, h⟩
  rw [map_cons, map_cons, map_singleton, hpa, show c.env.val x = _ from hx, show c.env.val y = _ from hy]
  have hargs : (Store.intern (StringFunction.part (((c.store.str? pa).map Prod.fst).getD []) first.toInt (stop.toInt - first.toInt))
      (((c.store.str? pa).map Prod.snd).getD false)) c.store = .ok p store := by
    rw [hsa]
    exact e
  exact (bind_of_ok hargs).trans rfl

theorem step_keepalive (args : List Value) : c.step { code := .keepalive, args } = some c :=
  step_of_execute (w := none) ((execute_memory (fun _ _ => rfl) _ _ _).trans rfl)

end Config
end FlowCompiler.Trace
