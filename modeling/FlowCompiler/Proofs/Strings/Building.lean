import FlowCompiler.Proofs.Strings.Drafting

/-!
# What the operations of a trace build

Without the optimizer the operations of a trace run one after another, and what they have built is what the sketch says.  A string that
is still written has an object of its own, so that a write changes nothing else.

The optimizer follows the same sketch, for each run that starts with what the trace is given.  So the values, the lengths and the
characters that it works out, and the strings that it writes out, are those that the operations of the trace build
(`virtual_strings_denote`).
-/

/-! ## Traces that compose strings

A trace makes strings of constant length, writes their characters, and then reads, joins and cuts them.  A sketch says what its boxes
stand for, and each operation changes the sketch in one way.  The optimizer follows the sketch operation by operation.

Characters are written at places that are known.  To write at another place the optimizer needs the string itself, which hands the
string out before all of it is written. -/

namespace FlowCompiler.Trace

open OptimizeM Strings

variable {op : Op}

namespace Sketch

/-- What an operand is: what its box stands for, or the constant that it is. -/
def Says (k : Sketch) (st : Store) : Value → Content → Prop
  | .box b, x => k.den b = some x
  | .const c, x => c.Means st x ∧ x.Valid

/-- A box that a trace has not bound yet. -/
def New (k : Sketch) (last : Nat) (r : Box) : Prop := k.den r = none ∧ r.id ≤ last

/-- What an operation of a trace makes of a sketch.  A string is written at places that are known, and not any more once it was read or
given away; what is read and cut lies inside of the string. -/
inductive Step (st : Store) (last : Nat) (k : Sketch) : Op → Sketch → Prop
  | fresh {m : StringMode} {n t : Nat} {r : Box} (hr : k.New last r) (hn : n < 2 ^ 63) :
    k.Step st last (freshOp m n r t) ((k.bind r (.blank n m.unicode)).opened r)
  | write {m : StringMode} {p t : Nat} {b : Box} {v : Value} {cs : List Int} {u : Bool} {ch : Int} (hd : k.draft b)
    (hb : k.den b = some (.str cs u)) (hp : p < cs.length) (hv : k.Says st v (.int ch)) (hch : Store.isScalar ch = true) :
    k.Step st last { code := m.setitem, args := [.box b, .ofInt p, v], tag := t } (k.bind b (.str (cs.set p ch) u))
  | read {m : StringMode} {i t : Nat} {r : Box} {a b : Value} {cs : List Int} {u : Bool} {ch : Int} (hr : k.New last r)
    (ha : k.Says st a (.str cs u)) (hb : k.Says st b (.int i)) (hch : cs[i]? = some ch) :
    k.Step st last { code := m.getitem, args := [a, b], result := some r, tag := t } ((k.closed [a, b]).bind r (.int ch))
  | length {m : StringMode} {t : Nat} {r : Box} {a : Value} {cs : List Int} {u : Bool} (hr : k.New last r) (ha : k.Says st a (.str cs u)) :
    k.Step st last { code := m.strlen, args := [a], result := some r, tag := t } ((k.closed [a]).bind r (.int cs.length))
  | word {code : Opcode} {t : Nat} {r : Box} {a b : Value} {p q n : Int64} (hc : code.onWords = true) (hr : k.New last r)
    (ha : k.Says st a (.num p)) (hb : k.Says st b (.num q)) (hn : Exec.compute? code (.int p) (.int q) = some (.ok (.int n))) :
    k.Step st last { code, args := [a, b], result := some r, tag := t } ((k.closed [a, b]).bind r (.num n))
  | concat {m : StringMode} {code : Opcode} {t : Nat} {d : CallId} {f : Ref} {name : String} {r : Box} {a b : Value} {xs ys : List Int}
    (hc : code = .call ∨ code = .callPure) (hf : st.object f = .func name (some (.string .concat)))
    (hd : (st.call d).effect.special = Special.concat + m.offset) (hr : k.New last r) (ha : k.Says st a (.str xs m.unicode))
    (hb : k.Says st b (.str ys m.unicode)) (hshort : (xs ++ ys).length < 2 ^ 63) :
    k.Step st last { code, args := [.ofRef f, a, b], result := some r, descr := some (.call d), tag := t }
      ((k.closed [a, b]).bind r (.str (xs ++ ys) m.unicode))
  | slice {m : StringMode} {code : Opcode} {p q t : Nat} {d : CallId} {f : Ref} {name : String} {r : Box} {a x y : Value} {cs : List Int}
    (hc : code = .call ∨ code = .callPure) (hf : st.object f = .func name (some (.string .slice)))
    (hd : (st.call d).effect.special = Special.slice + m.offset) (hr : k.New last r) (ha : k.Says st a (.str cs m.unicode))
    (hx : k.Says st x (.int p)) (hy : k.Says st y (.int q)) (hpq : p ≤ q) (hq : q ≤ cs.length) :
    k.Step st last { code, args := [.ofRef f, a, x, y], result := some r, descr := some (.call d), tag := t }
      ((k.closed [a, x, y]).bind r (.str ((cs.drop p).take (q - p)) m.unicode))
  | keep {t : Nat} {args : List Value} {xs : List Content} (h : List.Forall₂ (k.Says st) args xs) :
    k.Step st last { code := .keepalive, args, tag := t } (k.closed args)

/-- What the operations of a trace make of a sketch. -/
inductive Steps (st : Store) (last : Nat) : Sketch → List Op → Sketch → Prop
  | nil {k : Sketch} : k.Steps st last [] k
  | cons {k k' k'' : Sketch} {op : Op} {ops : List Op} (h : k.Step st last op k') (h' : k'.Steps st last ops k'') :
    k.Steps st last (op :: ops) k''

end Sketch

namespace Scene

variable {σ τ : Scene} {k k' : Sketch} {s s' : OptimizeState} {st : Store} {v : Value} {x : Content} {b : Box} {next restart : Emit}

theorem Advances.shares {m : OptimizeM Unit} (h : σ.Shares τ) (ha : τ.Advances m s k) : σ.Advances m s k := by
  obtain ⟨s', ρ, e, hρ, rest⟩ := ha
  exact ⟨s', ρ, e, h.trans hρ, rest⟩

theorem Advances.of_eq {m g : OptimizeM Unit} (e : m s = g s) (ha : σ.Advances g s k) : σ.Advances m s k := by
  obtain ⟨s', ρ, e', rest⟩ := ha
  exact ⟨s', ρ, e.trans e', rest⟩

/-! ### Operands -/

theorem Follows.not_draft {n : Int64} (h : σ.Follows k s) (hb : k.den b = some (.num n)) : ¬ k.draft b := by
  intro hd
  obtain ⟨_, _, _, hden, -⟩ := h.drawn b hd
  cases hb.symm.trans hden

theorem Follows.operand (h : σ.Follows k s) (hst : st.Strings s.store) (hv : k.Says st v x) (hclosed : ∀ b, v = .box b → ¬ k.draft b) :
    σ.Stands s v x := by
  cases v with
  | box b => exact h.stands b x hv (hclosed b rfl)
  | const c =>
    obtain ⟨hmeans, hx⟩ := hv
    replace hmeans := hmeans.mono hst
    have hgives : σ.Gives s (.const c) x := by
      rcases c with n | d | _ | r <;> cases x <;> first | cases hmeans | skip
      · exact h.sound.gives_const n
      · exact h.sound.gives_str hmeans
    unfold Stands
    cases hid : s.id? (.const c) with
    | none => exact ⟨hgives, hx, nofun⟩
    | some i =>
      rw [OptimizeState.id?, hgives.exact.key?_eq] at hid
      obtain ⟨hbox, hconst⟩ := h.sound.constIds c i hid
      refine ⟨h.sound.ids_lt _ i hid, ?_⟩
      cases x with
      | num n => exact ⟨_, hbox, hgives⟩
      | str cs u =>
        obtain ⟨c', hc', hm⟩ := h.sound.consts i hconst
        cases hbox.symm.trans hc'
        exact ⟨fun hd => Bool.false_ne_true ((h.sound.plain i hd).symm.trans hconst), hm.unique hmeans⟩

theorem Follows.closing (h : σ.Follows k s) (hcov : σ.Covers k s) (hst : st.Strings s.store) (args : List Value) :
    ∃ τ, σ.Shares τ ∧ τ.Follows (k.closed args) s ∧ τ.Covers (k.closed args) s ∧ ∀ v ∈ args, ∀ x, k.Says st v x → τ.Stands s v x := by
  obtain ⟨τ, hτ, h'⟩ := h.closes args
  refine ⟨τ, hτ, h', hτ.covers fun c hlast hk => by rw [Sketch.den_closed]; exact hcov c hlast hk, fun v hv x hx => ?_⟩
  refine h'.operand hst ?_ fun b hb hd => (Sketch.draft_closed.1 hd).2 (hb ▸ hv)
  cases v with
  | box b => exact (congrFun (Sketch.den_closed k args) b).trans hx
  | const c => exact hx

/-! ### Operations -/

section

variable (he : Forces (give next)) (h : σ.Follows k s) (hcov : σ.Covers k s)
include he h hcov

theorem Follows.step_keep {t : Nat} {args : List Value} {xs : List Content} (hst : st.Strings s.store) (hargs : List.Forall₂ (k.Says st) args xs) :
    σ.Advances (give next { code := .keepalive, args, tag := t }) s (k.closed args) := by
  obtain ⟨τ, hτ, h', hcov', hstands⟩ := h.closing hcov hst args
  have hall : List.Forall₂ (τ.unasked.Stands s) args xs := by
    refine List.forall₂_iff_zip.2 ⟨hargs.length_eq, fun {v x} hvx => ?_⟩
    exact (hstands v (List.of_mem_zip hvx).1 x (List.forall₂_zip hargs hvx)).asking none
  obtain ⟨_, s', e, hs', hl, -⟩ := keepalive_does (t := t) he h'.sound.unasked h'.settled hall
  refine .shares hτ
    ⟨s', τ.unasked, e, ⟨rfl, rfl, rfl⟩, (h'.asking none).grows (f := τ.content) hs' hl.grows, fun c hlast hk => ?_, hl.strings, hl.calls⟩
  exact hcov' c hlast ((hl.known c hlast hk).resolve_right (Option.some_ne_none _).symm)

theorem Follows.step_fresh {m : StringMode} {n t : Nat} {r : Box} (hr : k.New σ.last r) (hn : n < 2 ^ 63) :
    σ.Advances (Strings.pass restart next (freshOp m n r t)) s ((k.bind r (.blank n m.unicode)).opened r) := by
  rcases m with ⟨_ | _⟩ <;> exact h.makes_string he.emits hcov hr.1 hr.2 hn

theorem Follows.step_write {m : StringMode} {p t : Nat} {cs : List Int} {u : Bool} {ch : Int} (hst : st.Strings s.store) (hd : k.draft b)
    (hb : k.den b = some (.str cs u)) (hp : p < cs.length) (hv : k.Says st v (.int ch)) (hch : Store.isScalar ch = true) :
    σ.Advances (Strings.pass restart next { code := m.setitem, args := [.box b, .ofInt p, v], tag := t }) s (k.bind b (.str (cs.set p ch) u)) := by
  have hv := h.operand hst hv fun c e hc => by
    subst e
    exact h.not_draft hv hc
  obtain ⟨ds, w, i, hden, hdrawn⟩ := h.drawn b hd
  cases hb.symm.trans hden
  have hpass : σ.Advances (setItem next { code := m.setitem, args := [.box b, .ofInt p, v], tag := t }) s (k.bind b (.str (cs.set p ch) u)) := by
    rcases hdrawn.kind with ⟨-, hbox, w, chars, hvirt⟩ | ⟨-, hbox, hvirt, htarget⟩
    · exact h.sets_virtual hcov hd hdrawn hbox hvirt rfl hp hv hch
    · exact h.sets_allocated he hcov hd hdrawn hbox hvirt htarget hp hv hch
  rcases m with ⟨_ | _⟩ <;> exact hpass

end

theorem Follows.result {r : Box} {m : OptimizeM Unit} (h : σ.Follows k s) (hcov : σ.Covers k s) (hst : st.Strings s.store) (hr : k.New σ.last r)
    (args : List Value) (hm : ∀ τ : Scene, τ.Sound s → τ.Settled → τ.Awaits s (some r) → (∀ v ∈ args, ∀ x, k.Says st v x → τ.Stands s v x) →
      τ.Makes m s fun _ f s' => (τ.naming f).Stands s' (.box r) x) : σ.Advances m s ((k.closed args).bind r x) := by
  obtain ⟨τ, hτ, h', hcov', hstands⟩ := h.closing hcov hst args
  have hden : (k.closed args).den r = none := (congrFun (Sketch.den_closed ..) r).trans hr.1
  refine .shares hτ (h'.makes hcov' hden (hm _ (h'.asking (some r)).sound h'.settled (hcov'.awaits hden (hτ.last ▸ hr.2)) ?_))
  exact fun v hv x hx => (hstands v hv x hx).asking _

section
variable {m : StringMode} {code : Opcode} {t : Nat} {r : Box} {a c : Value} {cs ds : List Int} {u : Bool} {d : CallId} {f : Value}

section

variable (he : Forces (give next)) (h : σ.Follows k s) (hcov : σ.Covers k s) (hst : st.Strings s.store) (hr : k.New σ.last r)
  (ha : k.Says st a (.str cs u))
include he h hcov hst hr ha

theorem Follows.step_read {i : Nat} {ch : Int} (hc : k.Says st c (.int i)) (hch : cs[i]? = some ch) :
    σ.Advances (Strings.pass restart next { code := m.getitem, args := [a, c], result := some r, tag := t }) s
      ((k.closed [a, c]).bind r (.int ch)) := by
  refine .of_eq (g := getItem next m { code := m.getitem, args := [a, c], result := some r, tag := t }) ?_
    (h.result hcov hst hr [a, c] fun τ hs hset hr hstands => ?_)
  · rcases m with ⟨_ | _⟩ <;> rfl
  · exact getItem_makes he.emits hs hset rfl rfl hr (hstands a (by simp) _ ha) (hstands c (by simp) _ hc) hch

theorem Follows.step_length : σ.Advances (Strings.pass restart next { code := m.strlen, args := [a], result := some r, tag := t }) s
      ((k.closed [a]).bind r (.int cs.length)) := by
  refine .of_eq (g := Strings.length next m { code := m.strlen, args := [a], result := some r, tag := t }) ?_
    (h.result hcov hst hr [a] fun τ hs hset hr hstands => ?_)
  · rcases m with ⟨_ | _⟩ <;> rfl
  · exact length_makes he.emits hs hset rfl rfl hr (hstands a (by simp) _ ha)

end

theorem Follows.step_word {p q n : Int64} (hc : code.onWords = true) (he : Forces (give next)) (h : σ.Follows k s) (hcov : σ.Covers k s)
    (hst : st.Strings s.store) (hr : k.New σ.last r) (ha : k.Says st a (.num p)) (hb : k.Says st c (.num q))
    (hn : Exec.compute? code (.int p) (.int q) = some (.ok (.int n))) :
    σ.Advances (Strings.pass restart next { code, args := [a, c], result := some r, tag := t }) s ((k.closed [a, c]).bind r (.num n)) := by
  refine .of_eq (g := give next { code, args := [a, c], result := some r, tag := t }) ?_ (h.result hcov hst hr [a, c] fun τ hs hset hr hstands => ?_)
  · cases code <;> first | rfl | cases hc
  · exact word_makes he hc hs hset hr (hstands a (by simp) _ ha) (hstands c (by simp) _ hb) hn

/-! ### Calls -/

theorem pass_call (hc : op.code = .call ∨ op.code = .callPure) :
    Strings.pass restart next op = (do unless ← specialCall restart next op do give next op) := by
  rcases hc with hc | hc <;> (unfold Strings.pass; rw [hc])

theorem specialCall_concat (hd : op.callId? = some d) (hs : (s.store.call d).effect.special = Special.concat + m.offset) :
    specialCall restart next op s = (do
      let l ← idOf (op.arg 1)
      let r ← idOf (op.arg 2)
      ensureNonNull l
      ensureNonNull r
      make op (.concat m.unicode l r none)
      markRemoved
      pure true : OptimizeM Bool) s := by
  unfold specialCall
  rw [hd]
  refine (bind_eq rfl).trans ?_
  rw [hs]
  rcases m with ⟨_ | _⟩ <;> rfl

theorem specialCall_slice (hd : op.callId? = some d) (hs : (s.store.call d).effect.special = Special.slice + m.offset) :
    specialCall restart next op s = (do
      sliceCall next m op
      pure true : OptimizeM Bool) s := by
  unfold specialCall
  rw [hd]
  refine (bind_eq rfl).trans ?_
  rw [hs]
  rcases m with ⟨_ | _⟩ <;> rfl

theorem settled_eq {m' : OptimizeM Bool} (hc : op.code = .call ∨ op.code = .callPure) (he : specialCall restart next op s = m' s) :
    Strings.pass restart next op s = (do unless ← m' do give next op : OptimizeM Unit) s := by
  rw [pass_call hc]
  change EStateM.bind _ _ s = EStateM.bind _ _ s
  rw [EStateM.bind, EStateM.bind, he]

theorem Follows.step_concat (hc : code = .call ∨ code = .callPure) (h : σ.Follows k s) (hcov : σ.Covers k s) (hst : st.Strings s.store)
    (hd : (s.store.call d).effect.special = Special.concat + m.offset) (hr : k.New σ.last r) (ha : k.Says st a (.str cs m.unicode))
    (hb : k.Says st c (.str ds m.unicode)) (hshort : (cs ++ ds).length < 2 ^ 63) :
    σ.Advances (Strings.pass restart next { code, args := [f, a, c], result := some r, descr := some (.call d), tag := t }) s
      ((k.closed [a, c]).bind r (.str (cs ++ ds) m.unicode)) := by
  refine .of_eq (settled_eq hc (specialCall_concat rfl hd)) (h.result hcov hst hr [a, c] fun τ hs hset hr hstands => ?_)
  refine (concatCall_makes hs rfl rfl hr (hstands a (by simp) _ ha) (hstands c (by simp) _ hb) hshort).bind fun _ _ s' hs' _ hx => ?_
  obtain ⟨rfl, hx⟩ := hx
  exact .pure hs' hx

theorem Follows.step_slice {p q : Nat} {x y : Value} (hc : code = .call ∨ code = .callPure) (he : Forces (give next)) (h : σ.Follows k s)
    (hcov : σ.Covers k s) (hst : st.Strings s.store) (hd : (s.store.call d).effect.special = Special.slice + m.offset) (hr : k.New σ.last r)
    (ha : k.Says st a (.str cs m.unicode)) (hx : k.Says st x (.int p)) (hy : k.Says st y (.int q)) (hpq : p ≤ q) (hq : q ≤ cs.length) :
    σ.Advances (Strings.pass restart next { code, args := [f, a, x, y], result := some r, descr := some (.call d), tag := t }) s
      ((k.closed [a, x, y]).bind r (.str ((cs.drop p).take (q - p)) m.unicode)) := by
  refine .of_eq (settled_eq hc (specialCall_slice rfl hd)) (h.result hcov hst hr [a, x, y] fun τ hs hset hr hstands => ?_)
  rw [bind_assoc]
  refine (sliceCall_makes he.emits hs rfl rfl hr (hstands a (by simp) _ ha) (hstands x (by simp) _ hx) (hstands y (by simp) _ hy) hpq hq).bind
    fun _ _ s' hs' _ hx => ?_
  exact .pure hs' hx

end

/-! ### Traces -/

theorem Follows.step (he : Forces (give next)) (h : σ.Follows k s) (hcov : σ.Covers k s) (hst : st.Strings s.store)
    (hcalls : s.store.calls = st.calls) (hstep : k.Step st σ.last op k') : σ.Advances (Strings.pass restart next op) s k' := by
  have hcall (d : CallId) : s.store.call d = st.call d := by rw [Store.call, Store.call, hcalls]
  cases hstep with
  | fresh hr hn => exact h.step_fresh he hcov hr hn
  | write hd hb hp hv hch => exact h.step_write he hcov hst hd hb hp hv hch
  | read hr ha hb hch => exact h.step_read he hcov hst hr ha hb hch
  | length hr ha => exact h.step_length he hcov hst hr ha
  | word hc hr ha hb hn => exact h.step_word hc he hcov hst hr ha hb hn
  | concat hc _ hd hr ha hb hshort => exact h.step_concat hc hcov hst (by rw [hcall, hd]) hr ha hb hshort
  | slice hc _ hd hr ha hx hy hpq hq => exact h.step_slice hc he hcov hst (by rw [hcall, hd]) hr ha hx hy hpq hq
  | keep hargs => exact h.step_keep he hcov hst hargs

theorem Follows.steps {ops : List Op} {last : Nat} (restart : Emit) (he : Forces (give next)) (h : σ.Follows k s) (hcov : σ.Covers k s)
    (hlast : σ.last = last) (hst : st.Strings s.store) (hcalls : s.store.calls = st.calls) (hsteps : k.Steps st last ops k') :
    σ.Advances (ops.forM (Strings.pass restart next)) s k' := by
  induction hsteps generalizing σ s with
  | nil => exact ⟨s, σ, rfl, .refl σ, h, hcov, .refl _, rfl⟩
  | cons hstep _ ih =>
    obtain ⟨s₁, τ, e, hτ, h₁, hcov₁, hstrings, hcalls₁⟩ := h.step he hcov hst hcalls (hlast ▸ hstep)
    obtain ⟨s₂, ρ, e', hρ, h₂, hcov₂, hstrings', hcalls₂⟩ := ih h₁ hcov₁ (hτ.last.trans hlast) (hst.trans hstrings) (hcalls₁.trans hcalls)
    refine ⟨s₂, ρ, ?_, hτ.trans hρ, h₂, hcov₂, hstrings.trans hstrings', hcalls₂.trans hcalls₁⟩
    exact (bind_eq e).trans e'

end Scene
end FlowCompiler.Trace

namespace FlowCompiler.Trace

open OptimizeM

theorem Store.Functions.trans {s t u : Store} (h : s.Functions t) (h' : t.Functions u) : s.Functions u :=
  fun r name b hr => h' r name b (h r name b hr)

theorem Config.Shows.mono {c c' : Config} {v v' : Value} {x : Content} (h : c.Shows v x) (hv : c'.env.val v' = c.env.val v)
    (hs : ∀ r cs u, c.env.val v = .ptr (some r) → c.store.str? r = some (cs, u) → c'.store.str? r = some (cs, u)) : c'.Shows v' x := by
  cases x with
  | num n => exact hv.trans h
  | str cs u =>
    obtain ⟨r, hr, hstr⟩ := h
    exact ⟨r, hv.trans hr, hs r cs u hr hstr⟩

/-- What the operations of a trace have come to. -/
structure Sketch.Built (k : Sketch) (start c : Config) : Prop where
  shows : ∀ b x, k.den b = some x → c.Shows (.box b) x
  valid : ∀ b x, k.den b = some x → x.Valid
  strings : start.store.Strings c.store
  functions : start.store.Functions c.store
  interned : c.store.Interned
  drafts : ∀ b, k.draft b → ∃ cs u, k.den b = some (.str cs u)
  /-- A string that is still written is no constant and no other string. -/
  own : ∀ b, k.draft b → ∀ p, c.env b = .ptr (some p) → start.store.str? p = none ∧ (∀ key, c.store.interned.lookup key ≠ some p) ∧
    ∀ b', b' ≠ b → k.den b' ≠ none → c.env b' ≠ .ptr (some p)

namespace Sketch.Built

variable {k k' : Sketch} {start c c' : Config} {st : Store} {v : Value} {x : Content} {b r : Box} {last : Nat}

section

variable (h : k.Built start c)
include h

theorem operand (hst : st.Strings start.store) (hv : k.Says st v x) : c.Shows v x ∧ x.Valid := by
  cases v with
  | box b => exact ⟨h.shows b x hv, h.valid b x hv⟩
  | const q =>
    obtain ⟨hmeans, hx⟩ := hv
    refine ⟨?_, hx⟩
    replace hmeans := (hmeans.mono hst).mono h.strings
    rcases q with n | d | _ | r <;> cases x <;> first | cases hmeans | skip
    · rfl
    · exact ⟨r, rfl, hmeans⟩

theorem closed (vs : List Value) : (k.closed vs).Built start c where
  shows b x hb := h.shows b x (by rwa [den_closed] at hb)
  valid b x hb := h.valid b x (by rwa [den_closed] at hb)
  strings := h.strings
  functions := h.functions
  interned := h.interned
  drafts b hb := by
    rw [den_closed]
    exact h.drafts b (draft_closed.1 hb).1
  own b hb p hp := by
    rw [den_closed]
    exact h.own b (draft_closed.1 hb).1 p hp

theorem draft (hb : k.draft b) : ∃ p cs u, c.env b = .ptr (some p) ∧ c.store.str? p = some (cs, u) ∧ k.den b = some (.str cs u) := by
  obtain ⟨cs, u, hden⟩ := h.drafts b hb
  obtain ⟨p, hp, hstr⟩ := h.shows b _ hden
  exact ⟨p, cs, u, hp, hstr, hden⟩

theorem binds (hr : k.den r = none) (henv : ∀ b, b ≠ r → c'.env b = c.env b) (hshows : c'.Shows (.box r) x)
    (hx : x.Valid) (hstrings : c.store.Strings c'.store) (hfunctions : c.store.Functions c'.store) (hinterned : c'.store.Interned)
    (hown : ∀ p, c.store.str? p ≠ none → (∀ key, c.store.interned.lookup key ≠ some p) →
      (∀ key, c'.store.interned.lookup key ≠ some p) ∧ c'.env r ≠ .ptr (some p)) : (k.bind r x).Built start c' where
  shows b y hb := by
    by_cases e : b = r
    · subst e
      cases (den_bind k b x).symm.trans hb
      exact hshows
    · exact (h.shows b y ((den_bind_of_ne e).symm.trans hb)).mono (henv b e) fun p cs u _ hp => hstrings p _ hp
  valid b y hb := by
    by_cases e : b = r
    · subst e
      cases (den_bind k b x).symm.trans hb
      exact hx
    · exact h.valid b y ((den_bind_of_ne e).symm.trans hb)
  strings := h.strings.trans hstrings
  functions := h.functions.trans hfunctions
  interned := hinterned
  drafts b hb := by
    obtain ⟨cs, u, hden⟩ := h.drafts b hb
    refine ⟨cs, u, (den_bind_of_ne ?_).trans hden⟩
    rintro rfl
    cases hr.symm.trans hden
  own b hb p hp := by
    obtain ⟨q, cs, u, hq, hstr, hden⟩ := h.draft hb
    have e : b ≠ r := by
      rintro rfl
      cases hr.symm.trans hden
    rw [henv b e] at hp
    cases hq.symm.trans hp
    obtain ⟨hstart, hkeys, hothers⟩ := h.own b hb p hq
    obtain ⟨hkeys', hne⟩ := hown p (by rw [hstr]; exact Option.some_ne_none _) hkeys
    refine ⟨hstart, hkeys', fun b' hb' hden' => ?_⟩
    by_cases e' : b' = r
    · exact e' ▸ hne
    · rw [henv b' e']
      exact hothers b' hb' (by rwa [den_bind_of_ne e'] at hden')

theorem number (hr : k.den r = none) (n : Int64) : (k.bind r (.num n)).Built start ⟨Function.update c.env r (.int n), c.store⟩ := by
  refine h.binds hr (fun b hb => Function.update_of_ne hb _ _) (Function.update_self ..) trivial (.refl _) (fun _ _ _ hf => hf) h.interned
    fun p _ hkeys => ⟨hkeys, fun e => ?_⟩
  cases (Function.update_self r (Const.int n) c.env).symm.trans e

end

variable {cs : List Int} {u : Bool} {store : Store}

section

variable (h : k.Built start c)
include h

theorem constant {p : Ref} (hr : k.den r = none) (hx : (Content.str cs u).Valid) (hi : c.store.Interns cs u p store) :
    (k.bind r (.str cs u)).Built start ⟨Function.update c.env r (.ptr (some p)), store⟩ := by
  refine h.binds hr (fun b hb => Function.update_of_ne hb _ _) ⟨p, Function.update_self .., hi.here⟩ hx hi.strings hi.functions hi.interned
    fun q hq hkeys => ⟨(hi.apart q hq hkeys).2, fun e => (hi.apart q hq hkeys).1 ?_⟩
  cases (Function.update_self r (Const.ptr (some p)) c.env).symm.trans e
  rfl

theorem opens (hr : k.den r = none) (hx : (Content.str cs u).Valid) (hput : c.store.Puts c.store.objects.size cs u store) :
    ((k.bind r (.str cs u)).opened r).Built start ⟨Function.update c.env r (.ptr (some c.store.objects.size)), store⟩ := by
  have hstrings := hput.strings c.store.str?_size
  have hnew (q : Ref) (hq : c.store.str? q ≠ none) : c.store.objects.size ≠ q := fun e => hq (e ▸ c.store.str?_size)
  have hself : Function.update c.env r (.ptr (some c.store.objects.size)) r = .ptr (some c.store.objects.size) := Function.update_self ..
  have hfunctions : c.store.Functions store := by
    refine hput.functions fun name b hb => ?_
    simp only [Store.object, Array.getElem?_eq_none (Nat.le_refl _)] at hb
    cases hb
  have hkeys (q : Ref) (hq : ∀ key, c.store.interned.lookup key ≠ some q) (key : Bool × List Int) : store.interned.lookup key ≠ some q := by
    rw [hput.interned]
    exact hq key
  have hinterned : store.Interned := fun w ds q hq => hstrings q _ (h.interned w ds q (hput.interned ▸ hq))
  have hb : (k.bind r (.str cs u)).Built start ⟨Function.update c.env r (.ptr (some c.store.objects.size)), store⟩ := by
    refine h.binds hr (fun b hb => Function.update_of_ne hb _ _) ⟨_, hself, hput.str?⟩ hx hstrings hfunctions hinterned
      fun q hq hq' => ⟨hkeys q hq', fun e => hnew q hq ?_⟩
    cases hself.symm.trans e
    rfl
  refine { hb with drafts := fun b hd => ?_, own := fun b hd => ?_ }
  · rcases hd with hd | rfl
    · exact hb.drafts b hd
    · exact ⟨cs, u, den_bind ..⟩
  · rcases hd with hd | rfl
    · exact hb.own b hd
    · intro p hp
      cases hself.symm.trans hp
      refine ⟨?_, hkeys _ fun key e => ?_, fun b' hb' hden e => ?_⟩
      · by_contra hne
        obtain ⟨y, hy⟩ := Option.ne_none_iff_exists'.1 hne
        cases (h.strings _ y hy).symm.trans c.store.str?_size
      · cases (h.interned key.1 key.2 _ e).symm.trans c.store.str?_size
      · rw [show (k.bind b (.str cs u)).opened b = _ from rfl, Sketch.opened, den_bind_of_ne hb'] at hden
        obtain ⟨y, hy⟩ := Option.ne_none_iff_exists'.1 hden
        refine (h.shows b' y hy).str?_ne_none ?_ c.store.str?_size
        exact (Function.update_of_ne hb' _ _).symm.trans e

theorem writes {cs cs' : List Int} {p : Ref} (hd : k.draft b) (hb : k.den b = some (.str cs u)) (hp : c.env b = .ptr (some p))
    (hx : (Content.str cs' u).Valid) (hput : c.store.Puts p cs' u store) : (k.bind b (.str cs' u)).Built start ⟨c.env, store⟩ := by
  obtain ⟨hstart, hkeys, hothers⟩ := h.own b hd p hp
  have hstr : c.store.str? p = some (cs, u) := by
    obtain ⟨q, hq, hs⟩ := h.shows b _ hb
    cases hp.symm.trans hq
    exact hs
  have hother (q : Ref) (x : List Int × Bool) (hne : q ≠ p) (hq : c.store.str? q = some x) : store.str? q = some x :=
    (hput.str?_of_ne hne).trans hq
  exact
    { shows := fun b' y hb' => by
        by_cases e : b' = b
        · subst e
          cases (den_bind k b' _).symm.trans hb'
          exact ⟨p, hp, hput.str?⟩
        · have hden := (den_bind_of_ne e).symm.trans hb'
          refine (h.shows b' y hden).mono rfl fun q ds w hq hs => hother q _ ?_ hs
          rintro rfl
          exact hothers b' e (by rw [hden]; exact Option.some_ne_none y) hq
      valid := fun b' y hb' => by
        by_cases e : b' = b
        · subst e
          cases (den_bind k b' _).symm.trans hb'
          exact hx
        · exact h.valid b' y ((den_bind_of_ne e).symm.trans hb')
      strings := fun q y hq => hother q y (by rintro rfl; cases hstart.symm.trans hq) (h.strings q y hq)
      functions := h.functions.trans (hput.functions fun name f hf => by cases (Store.object_of_str? hstr).symm.trans hf)
      interned := fun w ds q hq => by
        rw [hput.interned] at hq
        exact hother q _ (fun e => hkeys (w, ds) (e ▸ hq)) (h.interned w ds q hq)
      drafts := fun b' hd' => by
        by_cases e : b' = b
        · exact ⟨cs', u, e ▸ den_bind ..⟩
        · obtain ⟨ds, w, hden⟩ := h.drafts b' hd'
          exact ⟨ds, w, (den_bind_of_ne e).trans hden⟩
      own := fun b' hd' q hq => by
        obtain ⟨hstart', hkeys', hothers'⟩ := h.own b' hd' q hq
        refine ⟨hstart', fun key => by rw [hput.interned]; exact hkeys' key, fun b'' hne hden => ?_⟩
        by_cases e : b'' = b
        · exact hothers' b'' hne (by rw [e, hb]; exact Option.some_ne_none _)
        · exact hothers' b'' hne (by rwa [den_bind_of_ne e] at hden) }

theorem callee {f : Ref} {name : String} {g : StringFunction} (hfun : st.Functions start.store)
    (hf : st.object f = .func name (some (.string g))) : c.Callee (.ofRef f) g :=
  ⟨f, name, rfl, h.functions f name _ (hfun f name _ hf)⟩

theorem step {op : Op} (hst : st.Strings start.store) (hfun : st.Functions start.store) (hstep : k.Step st last op k') :
    ∃ c', c.step op = some c' ∧ k'.Built start c' := by
  have hnew {r : Box} {vs : List Value} (hr : k.New last r) : (k.closed vs).den r = none := (congrFun (den_closed k vs) r).trans hr.1
  cases hstep with
  | @fresh m n t r hr hn =>
    obtain ⟨store, e, hput⟩ := Config.step_newstr (c := c) (a := .ofInt n) (r := r) (m := m) (n := Int64.ofInt n) rfl
    rw [toInt_ofInt_nat hn, Int.toNat_natCast] at hput
    exact ⟨_, e, h.opens hr.1 (Content.valid_blank hn m.unicode) hput⟩
  | @write m p t b v cs u ch hd hb hp hv hch =>
    obtain ⟨hv, -⟩ := h.operand hst hv
    obtain ⟨q, hq, hs⟩ := h.shows b _ hb
    have hx := h.valid b _ hb
    obtain ⟨store, e, hput⟩ := Config.step_setitem (b := .ofInt p) (m := m) (k := Int64.ofInt p) hq hs rfl hv
    rw [toInt_ofInt_nat (Nat.lt_trans hp hx.1), Int.toNat_natCast, Config.toChar_ofInt hch] at hput
    exact ⟨_, e, h.writes hd hb hq (hx.set p hch) hput⟩
  | @read m i t r a b cs u ch hr ha hb hch =>
    obtain ⟨ha, hx⟩ := h.operand hst ha
    obtain ⟨hb, -⟩ := h.operand hst hb
    have hword : (Int64.ofInt i).toInt = i := toInt_ofInt_nat (Nat.lt_trans (List.getElem?_eq_some_iff.1 hch).1 hx.1)
    refine ⟨_, Config.step_getitem (m := m) ha hb (by rw [hword]; omega) (by rw [hword]; exact hch), ?_⟩
    exact (h.closed [a, b]).number (hnew hr) _
  | @length m t r a cs u hr ha =>
    exact ⟨_, Config.step_strlen (m := m) (h.operand hst ha).1, (h.closed [a]).number (hnew hr) _⟩
  | @word code t r a b p q n hc hr ha hb hn =>
    exact ⟨_, Config.step_word (Opcode.reads?_of_onWords hc) (h.operand hst ha).1 (h.operand hst hb).1 hn, (h.closed [a, b]).number (hnew hr) _⟩
  | @concat m code t d f name r a b xs ys hc hf hd hr ha hb hshort =>
    obtain ⟨ha, hx⟩ := h.operand hst ha
    obtain ⟨hb, hy⟩ := h.operand hst hb
    have hchars (z : Int) (hz : z ∈ xs ++ ys) : Store.isScalar z = true := (List.mem_append.1 hz).elim (hx.2 z) (hy.2 z)
    obtain ⟨p, store, e, hi⟩ := Config.step_concat (d := some (.call d)) (r := r) (h.callee hfun hf) ha hb h.interned hchars hc
    exact ⟨_, e, (h.closed [a, b]).constant (hnew hr) ⟨hshort, hchars⟩ hi⟩
  | @slice m code p q t d f name r a x y cs hc hf hd hr ha hx hy hpq hq =>
    obtain ⟨ha, hcs⟩ := h.operand hst ha
    obtain ⟨hx, -⟩ := h.operand hst hx
    obtain ⟨hy, -⟩ := h.operand hst hy
    obtain ⟨w, store, e, hi⟩ := Config.step_slice (d := some (.call d)) (r := r) (h.callee hfun hf) ha hx hy h.interned hcs.2 hc
    have hlen := hcs.1
    rw [StringFunction.part, toInt_ofInt_nat (by omega), toInt_ofInt_nat (by omega), ← Int.ofNat_sub hpq, Int.toNat_natCast,
      Int.toNat_natCast] at hi
    exact ⟨_, e, (h.closed [a, x, y]).constant (hnew hr) (hcs.part p (q - p)) hi⟩
  | @keep t args xs hargs => exact ⟨c, Config.step_keepalive args, h.closed args⟩

theorem steps {ops : List Op} (hst : st.Strings start.store) (hfun : st.Functions start.store) (hsteps : k.Steps st last ops k') :
    ∃ c', c.run ops = some c' ∧ k'.Built start c' := by
  induction hsteps generalizing c with
  | nil => exact ⟨c, rfl, h⟩
  | cons hstep _ ih =>
    obtain ⟨c₁, e, h₁⟩ := h.step hst hfun hstep
    obtain ⟨c₂, e', h₂⟩ := ih h₁
    exact ⟨c₂, by rw [Config.run, e]; exact e', h₂⟩

end

end Sketch.Built

/-! ## The start -/

open Strings

/-- What a run is given: boxes that have contents, among them all that the trace knows at its start. -/
structure Config.Given (start : Config) (store : Store) (given : Box → Option Content) : Prop where
  shows : ∀ b x, given b = some x → start.Shows (.box b) x
  valid : ∀ b x, given b = some x → x.Valid
  old : ∀ b x, given b = some x → b.id ≤ store.boxes
  strings : store.Strings start.store
  functions : store.Functions start.store
  interned : start.store.Interned

/-- The sketch of a trace that has not started. -/
def Sketch.start (given : Box → Option Content) : Sketch := { den := given, draft := fun _ => False }

/-- The scene of a trace that has not started. -/
def Scene.opening (start : Config) (given : Box → Option Content) (last : Nat) : Scene where
  start := start
  given := given
  content _ := .num 0
  busy _ := False
  unbound _ := False
  locked _ := False
  draft _ := False
  last := last
  result := none

section
variable {start : Config} {store : Store} {given : Box → Option Content} {settings : TraceSettings} {table : CallTable} {last : Nat}

theorem Config.Given.sound (h : start.Given store given) (hi : store.Interned) (hlast : last ≤ store.boxes) :
    (Scene.opening start given last).Sound (.start store settings table) := by
  have hids (v : Value) (i : InfoId) : (OptimizeState.start store settings table).ids[v]? ≠ some i := by
    simp [OptimizeState.start]
  have hinfo (i : InfoId) : ¬ i < (OptimizeState.start store settings table).infos.size := by simp [OptimizeState.start]
  have hdefault (i : InfoId) : (OptimizeState.start store settings table).info i = default := by simp [OptimizeState.info, OptimizeState.start]
  exact
    { entry := fun i _ hi => absurd hi (hinfo i)
      builds := fun i _ hi => absurd hi (hinfo i)
      virtual := fun i hi => absurd hi (hinfo i)
      hidden := fun i hi => absurd hi (hinfo i)
      consts := fun i hc => by
        cases hc
      constIds := fun k i hk => absurd hk (hids _ i)
      given := fun b _ _ i _ hb => absurd hb (hids _ i)
      ids_lt := fun v i hv => absurd hv (hids v i)
      last := hlast
      boxes := fun b hb => by
        rcases hb with (hb | ⟨op, hop, -⟩) | hb
        · obtain ⟨x, hx⟩ := Option.isSome_iff_exists.1 hb
          exact h.old b x hx
        · simp [OptimizeState.ops, OptimizeState.start] at hop
        · simp [OptimizeState.start] at hb
      valid := fun i hi => absurd hi (hinfo i)
      busy := fun _ h => h.elim
      unbound := fun _ h => h.elim
      drafts := fun _ h => h.elim
      plain := fun _ h => h.elim
      interned := hi
      runs := fun _ => ⟨start, rfl⟩
      kept := fun c hc => by
        cases hc.2
        exact .refl _
      locked := fun _ h => h.elim }

theorem Config.Given.follows (h : start.Given store given) (hi : store.Interned) (hlast : last ≤ store.boxes) :
    (Scene.opening start given last).Follows (.start given) (.start store settings table) where
  sound := h.sound hi hlast
  settled _ h := h.elim
  stands b x hb _ := by
    have hid (v : Value) : (OptimizeState.start store settings table).id? v = none := by
      simp [OptimizeState.id?, OptimizeState.start]
    have hgives : (Scene.opening start given last).Gives (.start store settings table) (.box b) x :=
      { defined := .inl (Option.isSome_iff_exists.2 ⟨x, hb⟩)
        canon := fun i hi => by cases (hid _).symm.trans hi
        const := fun _ e => by cases e
        given := fun b' y e hy => by
          cases e
          cases hb.symm.trans hy
          rfl
        shows := fun c hc => by
          cases hc.2
          exact h.shows b x hb
        unlocked := fun _ _ _ _ hl => hl.elim }
    unfold Scene.Stands
    rw [hid]
    exact ⟨hgives, h.valid b x hb, fun b' cs u e _ => by cases e; exact hb⟩
  drawn _ h := h.elim
  apart _ _ h := h.elim

theorem covers_opening : (Scene.opening start given last).Covers (.start given) (.start store settings table) := by
  rintro b - ((hb | ⟨op, hop, -⟩) | hb)
  · exact Option.isSome_iff_ne_none.1 hb
  · simp [OptimizeState.ops, OptimizeState.start] at hop
  · simp [OptimizeState.start] at hb

theorem Config.Given.built (h : start.Given store given) : (Sketch.start given).Built start start where
  shows := h.shows
  valid := h.valid
  strings := .refl _
  functions _ _ _ hf := hf
  interned := h.interned
  drafts _ h := h.elim
  own _ h := h.elim

end

/-! ## What is worked out -/

/-- A value is worked out, and it shows a content once what is written out until then has run. -/
def Config.Yields (start : Config) (m : OptimizeM Value) (s : OptimizeState) (x : Content) : Prop :=
  ∃ v s', m s = .ok v s' ∧ (s'.store.Strings start.store → ∃ c, start.run s'.ops = some c ∧ c.Shows v x)

namespace Scene

variable {σ : Scene} {k : Sketch} {s : OptimizeState} {emit : Emit} {b : Box} {x : Content} {cs : List Int} {u : Bool}

theorem Makes.yields {m : OptimizeM Value} (h : σ.Makes m s fun v f s' => (σ.naming f).Gives s' v x) : σ.start.Yields m s x := by
  obtain ⟨v, s', f, e, hs', -, hv⟩ := h
  refine ⟨v, s', e, fun hst => ?_⟩
  obtain ⟨c, hc⟩ := hs'.runs hst
  exact ⟨c, hc, hv.shows c ⟨hst, hc⟩⟩

theorem Stands.forced (he : Emits emit) (hs : σ.Sound s) (hset : σ.Settled) (h : σ.Stands s (.box b) x) :
    σ.start.Yields (do force emit (← idOf (.box b))) s x := by
  refine Makes.yields (σ := σ) ((idOf_stands hs h).bind fun i f s' hs' _ hi => ?_)
  obtain ⟨hi, -⟩ := hi
  cases x with
  | num n =>
    obtain ⟨v, e, hv⟩ := force_num emit hi.2
    exact ⟨v, s', _, e, hs', (Later.refl .none).grows, hv⟩
  | str cs u =>
    refine (Makes.of_does (force_does he (hi.entry hset hs'))).mono fun v f' s'' _ _ hv => ?_
    obtain ⟨rfl, hv, -⟩ := hv
    rw [← hi.2.2]
    exact hv

section

variable (he : Emits emit) (m : StringMode) (hs : σ.Sound s) (hset : σ.Settled) (h : σ.Stands s (.box b) (.str cs u))
include he m hs hset h

theorem Stands.length : σ.start.Yields (do stringLength emit m (← idOf (.box b)) none) s (.int cs.length) := by
  refine Makes.yields (σ := σ) ((idOf_stands hs h).bind fun i f s' hs' _ hi => ?_)
  obtain ⟨hi, -⟩ := hi
  refine (Makes.of_does (stringLength_does he m (hi.entry hset hs') hi.2.2 .none)).mono fun v f' s'' _ _ hv => ?_
  obtain ⟨rfl, hv, -⟩ := hv
  exact hv

theorem Stands.character {j : Nat} {ch : Int} (hch : cs[j]? = some ch) :
    σ.start.Yields (do force emit (← char emit m (← idOf (.box b)) (← idOf (.ofInt j)) none)) s (.int ch) := by
  refine Makes.yields (σ := σ) ((idOf_stands hs h).bind fun i f s₁ hs₁ _ hi => ?_)
  obtain ⟨hi, -⟩ := hi
  refine (idOf_num hs₁ (hs₁.gives_int j)).bind fun p f₂ s₂ hs₂ hg₂ hp => ?_
  replace hi := hi.grows hg₂
  have hat : At _ s₂ i p ch := ⟨hi.entry hset hs₂, cs, u, j, hi.2.2, hp.1, hch⟩
  refine .bind (Q := Character ((σ.naming f).naming f₂) s₂ ch) ?_ fun q f₃ s₃ hs₃ _ hq => ?_
  · refine .look (a := 4 * s₂.infos.size + 8) rfl (charAt_makes he _ hat .none ?_)
    exact Nat.lt_of_lt_of_le hat.entry.lt (by omega : s₂.infos.size ≤ 4 * s₂.infos.size + 8)
  · obtain ⟨v, e, hv⟩ := force_num emit hq.1
    exact ⟨v, s₃, _, e, hs₃, (Later.refl .none).grows, hv⟩

end

theorem Stands.known (hs : σ.Sound s) (h : σ.Stands s (.box b) (.str cs u)) {ds : List Int} {s' : OptimizeState}
    (e : (do knownString? (← idOf (.box b)) : OptimizeM (Option (List Int))) s = .ok (some ds) s') : ds = cs := by
  obtain ⟨i, s₁, f, e₁, hs₁, -, hi, -⟩ := idOf_stands hs h
  rw [bind_eq e₁] at e
  have hrun : EStateM.Result.ok (constString? s₁ (4 * s₁.infos.size + 8) i) s₁ = EStateM.Result.ok (some ds) s' := e
  injection hrun with hknown
  obtain ⟨w, hw⟩ := hs₁.constString? _ hi.1 hknown
  cases hi.2.2.symm.trans hw
  rfl

/-- What the optimizer holds for a box is what the box stands for. -/
structure Denotes (start : Config) (emit : Emit) (s : OptimizeState) (b : Box) (x : Content) : Prop where
  forced : start.Yields (do force emit (← idOf (.box b))) s x
  length : ∀ cs u m, x = .str cs u → start.Yields (do stringLength emit m (← idOf (.box b)) none) s (.int cs.length)
  character : ∀ cs u m j ch, x = .str cs u → cs[j]? = some ch →
    start.Yields (do force emit (← char emit m (← idOf (.box b)) (← idOf (.ofInt (j : Nat))) none)) s (.int ch)
  known : ∀ cs u ds s', x = .str cs u → (do knownString? (← idOf (.box b)) : OptimizeM (Option (List Int))) s = .ok (some ds) s' → ds = cs

theorem Follows.denotes (he : Emits emit) (h : σ.Follows k s) (hb : k.den b = some x) : Denotes σ.start emit s b x := by
  obtain ⟨τ, hτ, h'⟩ := h.closes [.box b]
  have hstands : τ.Stands s (.box b) x :=
    h'.stands b x ((congrFun (Sketch.den_closed ..) b).trans hb) fun hd => (Sketch.draft_closed.1 hd).2 (List.mem_singleton.2 rfl)
  rw [← hτ.start]
  exact
    { forced := hstands.forced he h'.sound h'.settled
      length := fun cs u m e => (e ▸ hstands).length he m h'.sound h'.settled
      character := fun cs u m j ch e hch => (e ▸ hstands).character he m h'.sound h'.settled hch
      known := fun cs u ds s' e hrun => (e ▸ hstands).known h'.sound hrun }

end Scene

/-! ## A string twice in a row -/

namespace Doubled

/-- The functions that join and cut byte strings. -/
def store : Store where
  calls := #[⟨"join", [.ref, .ref], .ref, { level := .elidableCanRaise, special := Special.concat }⟩,
    ⟨"cut", [.ref, .int, .int], .ref, { level := .elidableCanRaise, special := Special.slice }⟩]
  objects := #[.func "join" (some (.string .concat)), .func "cut" (some (.string .slice))]
  boxes := 5

/-- A character and a place are given. -/
def given : Box → Option Content
  | ⟨1, .int⟩ => some (.int 97)
  | ⟨2, .int⟩ => some (.int 1)
  | _ => none

def start : Config := ⟨fun b => .int (if b.id = 1 then 97 else 1), store⟩

/-- A string of the given character and of another one, the string twice in a row, and the part of it from the given place on. -/
def ops : List Op :=
  [freshOp ⟨false⟩ 2 ⟨3, .ref⟩ 0, { code := .strsetitem, args := [.box ⟨3, .ref⟩, .ofInt 0, .box ⟨1, .int⟩] },
    { code := .strsetitem, args := [.box ⟨3, .ref⟩, .ofInt 1, .ofInt 98] },
    { code := .call, args := [.ofRef 0, .box ⟨3, .ref⟩, .box ⟨3, .ref⟩], result := some ⟨4, .ref⟩, descr := some (.call 0) },
    { code := .call, args := [.ofRef 1, .box ⟨4, .ref⟩, .box ⟨2, .int⟩, .ofInt 3], result := some ⟨5, .ref⟩, descr := some (.call 1) }]

theorem given_start : start.Given store given where
  shows b x hb := by
    unfold given at hb
    split at hb <;> cases hb <;> rfl
  valid b x hb := by
    unfold given at hb
    split at hb <;> cases hb <;> trivial
  old b x hb := by
    unfold given at hb
    split at hb <;> cases hb <;> decide
  strings := .refl _
  functions _ _ _ h := h
  interned _ _ _ h := by cases h

theorem steps_ops : ∃ k, k.den ⟨5, .ref⟩ = some (.str [98, 97] false) ∧ (Sketch.start given).Steps store 5 ops k := by
  refine ⟨_, ?_, .cons (.fresh ⟨rfl, by decide⟩ (by decide)) <|
    .cons (.write (m := ⟨false⟩) (.inr rfl) rfl (by decide) rfl rfl) <|
    .cons (.write (m := ⟨false⟩) (.inr rfl) rfl (by decide) ⟨rfl, trivial⟩ rfl) <|
    .cons (.concat (m := ⟨false⟩) (.inl rfl) rfl rfl ⟨rfl, by decide⟩ rfl rfl (by decide)) <|
    .cons (.slice (m := ⟨false⟩) (.inl rfl) rfl rfl ⟨rfl, by decide⟩ rfl rfl ⟨rfl, trivial⟩ (by decide) (by decide)) .nil⟩
  rfl

end Doubled

/-- A trace that composes strings goes through the pass, and the strings, lengths and characters that the pass holds or writes out are
those that the operations of the trace build themselves. -/
theorem virtual_strings_denote {start : Config} {store : Store} {given : Box → Option Content} {settings : TraceSettings} {table : CallTable}
    {last : Nat} {ops : List Op} {k : Sketch} {restart next : Emit} (he : Forces next) (hgiven : start.Given store given)
    (hstore : store.Interned) (hlast : last ≤ store.boxes) (hops : (Sketch.start given).Steps store last ops k) :
    ∃ c s, start.run ops = some c ∧ ops.forM (Strings.pass restart next) (.start store settings table) = .ok () s ∧
      ∀ b x, k.den b = some x → c.Shows (.box b) x ∧ Scene.Denotes start (give next) s b x := by
  obtain ⟨c, hrun, hbuilt⟩ := hgiven.built.steps hgiven.strings hgiven.functions hops
  have hfollows : (Scene.opening start given last).Follows (.start given) (.start store settings table) := hgiven.follows hstore hlast
  obtain ⟨s, σ, e, hσ, h, -⟩ := hfollows.steps restart he.give covers_opening rfl (.refl _) rfl hops
  refine ⟨c, s, hrun, e, fun b x hb => ⟨hbuilt.shows b x hb, ?_⟩⟩
  have hdenotes := h.denotes he.give.emits hb
  rwa [hσ.start] at hdenotes

theorem virtual_strings_denote_doubled : ∃ c s, Doubled.start.run Doubled.ops = some c ∧
    Doubled.ops.forM (Strings.pass write (Simplify.pass write)) (.start Doubled.store {} []) = .ok () s ∧
    c.Shows (.box ⟨5, .ref⟩) (.str [98, 97] false) ∧ Scene.Denotes Doubled.start (give (Simplify.pass write)) s ⟨5, .ref⟩ (.str [98, 97] false) := by
  obtain ⟨k, hk, hsteps⟩ := Doubled.steps_ops
  exact (virtual_strings_denote Forces.write.simplify Doubled.given_start (fun _ _ _ h => by cases h) (by decide) hsteps).imp fun c =>
    Exists.imp fun s h => ⟨h.1, h.2.1, h.2.2 _ _ hk⟩

end FlowCompiler.Trace
