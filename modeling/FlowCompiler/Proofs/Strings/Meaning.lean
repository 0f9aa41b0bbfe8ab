import FlowCompiler.Proofs.Strings.Machine
import FlowCompiler.Trace.Optimize.Chain

/-!
# What virtual strings stand for

While a trace is optimized, what is written out runs.  A scene says what that run starts with and what each entry of the optimizer
stands for.  In a state that is `Sound` the value of an entry has in the run the content that the entry stands for, and the parts of a
virtual string make up its content: a string of known length holds its characters, a concatenation is one part behind the other, and
a slice is a part of its string.  The run itself starts in a store that has every constant string that the optimizer makes, also those
that it makes later; what is said of the run is said for such stores only.

While a virtual string is allocated its entry is busy: it has a value, but this value is unbound at first, and then it is a string that
is locked, because it is not yet filled.
A string that the trace still writes is a draft: no other string has it as a part, and nothing happens to it but the writes.
-/

namespace FlowCompiler.Trace

variable {u : Bool} {n : Int64} {cs : List Int}

structure Scene where
  start : Config
  /-- The contents of the boxes that the run starts with. -/
  given : Box → Option Content
  content : InfoId → Content
  /-- The entries that are being allocated. -/
  busy : InfoId → Prop
  /-- The entries that have a value that the run has not bound yet. -/
  unbound : InfoId → Prop
  /-- The strings that are being filled. -/
  locked : Ref → Prop
  /-- The entries of strings that the trace still writes. -/
  draft : InfoId → Prop
  /-- The last box of the trace. -/
  last : Nat
  /-- The result of the operation that is optimized. -/
  result : Option Box

/-- What stands for a value is the value itself. -/
def OptimizeState.Canon (s : OptimizeState) (v : Value) : Prop := ∀ i, s.id? v = some i → (s.info i).box = some v

/-- What a constant is, in a store that has its string. -/
def Const.Means (st : Store) : Const → Content → Prop
  | .int k, .num n => k = n
  | .ptr (some r), .str cs u => st.str? r = some (cs, u)
  | _, _ => False

theorem Const.Means.mono {st st' : Store} {k : Const} {x : Content} (hst : st.Strings st') (h : k.Means st x) : k.Means st' x := by
  rcases k with n | d | _ | r <;> cases x <;> first | exact hst _ _ h | exact h

theorem Const.Means.unique {st : Store} {k : Const} {x y : Content} (h : k.Means st x) (h' : k.Means st y) : x = y := by
  rcases k with k | d | _ | r
  · cases x with
    | num n =>
      cases y with
      | num n' => exact congrArg Content.num (Eq.trans (Eq.symm h) h')
      | str _ _ => cases h'
    | str _ _ => cases h
  · cases x <;> cases h
  · cases x <;> cases h
  · cases x with
    | num n => cases h
    | str cs u =>
      cases y with
      | num n => cases h'
      | str cs' u' =>
        cases Eq.trans (Eq.symm h) h'
        rfl

namespace Scene

variable (σ : Scene) (s : OptimizeState)

/-- The run has bound a value. -/
def Defined : Value → Prop
  | .const _ => True
  | .box b => (σ.given b).isSome = true ∨ ∃ op ∈ s.ops, op.result = some b

/-- A box that the run has bound or that an entry is known by. -/
def Known (b : Box) : Prop := σ.Defined s (.box b) ∨ s.ids[Value.box b]? ≠ none

/-- What the run has come to with what is written out, when it has all constant strings. -/
def Reaches (c : Config) : Prop := s.store.Strings σ.start.store ∧ σ.start.run s.ops = some c

/-- A value has a content that does not change any more. -/
structure Gives (v : Value) (x : Content) : Prop where
  defined : σ.Defined s v
  canon : s.Canon v
  const : ∀ k, v = .const k → k.Means s.store x
  given : ∀ b y, v = .box b → σ.given b = some y → x = y
  shows : ∀ c, σ.Reaches s c → c.Shows v x
  unlocked : ∀ c, σ.Reaches s c → ∀ r, c.env.val v = .ptr (some r) → ¬ σ.locked r

/-- An entry has a number for its value. -/
def Num (i : InfoId) (n : Int64) : Prop := ∃ v, (s.info i).box = some v ∧ σ.Gives s v (.num n)

/-- A character of a string of known length; what was never written is zero. -/
def Spells (c : Option InfoId) (x : Int) : Prop :=
  match c with
  | none => x = 0
  | some j => σ.Num s j (Int64.ofInt x)

/-- The parts of a string make up its content. -/
def Builds (i : InfoId) : Virtual → Prop
  | .plain u chars => ∃ cs, σ.content i = .str cs u ∧ List.Forall₂ (σ.Spells s) chars.toList cs
  | .concat u l r length => (l < i ∧ ¬ σ.draft l) ∧ (r < i ∧ ¬ σ.draft r) ∧ ∃ a b, σ.content l = .str a u ∧ σ.content r = .str b u ∧
      σ.content i = .str (a ++ b) u ∧ ∀ v, length = some v → σ.Gives s v (.int (a ++ b).length)
  | .slice u str start length => (str < i ∧ ¬ σ.draft str) ∧ ∃ cs a n, σ.content str = .str cs u ∧ σ.Num s start a ∧ σ.Num s length n ∧
      0 ≤ a.toInt ∧ 0 ≤ n.toInt ∧ a.toInt + n.toInt ≤ cs.length ∧ σ.content i = .str (StringFunction.part cs a.toInt n.toInt) u
  | _ => False

/-- What the optimizer holds is true of the run. -/
structure Sound : Prop where
  entry : ∀ i v, i < s.infos.size → (s.info i).box = some v → ¬ σ.busy i → σ.Gives s v (σ.content i)
  builds : ∀ i w, i < s.infos.size → (s.info i).virt = some w → σ.Builds s i w
  virtual : ∀ i, i < s.infos.size → (s.info i).box = none → (s.info i).virt ≠ none
  hidden : ∀ i, i < s.infos.size → (s.info i).box = none ∨ σ.unbound i →
    ∃ b, (s.info i).key = .box b ∧ s.ids[Value.box b]? = some i ∧ ¬ σ.Defined s (.box b)
  consts : ∀ i, (s.info i).isConst = true → ∃ k, (s.info i).box = some (.const k) ∧ k.Means s.store (σ.content i)
  constIds : ∀ (k : Const) (i : InfoId), s.ids[Value.const k]? = some i → (s.info i).box = some (.const k) ∧ (s.info i).isConst = true
  /-- What is given is what the entry of its box stands for. -/
  given : ∀ b cs u (i : InfoId), σ.given b = some (.str cs u) → s.ids[Value.box b]? = some i → σ.content i = .str cs u
  ids_lt : ∀ (v : Value) (i : InfoId), s.ids[v]? = some i → i < s.infos.size
  last : σ.last ≤ s.store.boxes
  boxes : ∀ b, σ.Known s b → b.id ≤ s.store.boxes
  valid : ∀ i, i < s.infos.size → (σ.content i).Valid
  busy : ∀ i, σ.busy i → i < s.infos.size ∧ ∃ cs u, σ.content i = .str cs u
  unbound : ∀ i, σ.unbound i → σ.busy i
  drafts : ∀ i, σ.draft i → (∃ cs u, σ.content i = .str cs u) ∧ i < s.infos.size ∧ ((s.info i).box = none ∨ σ.busy i)
  plain : ∀ i, σ.draft i → (s.info i).isConst = false
  interned : s.store.Interned
  runs : s.store.Strings σ.start.store → ∃ c, σ.start.run s.ops = some c
  kept : ∀ c, σ.Reaches s c → σ.start.store.Strings c.store
  locked : ∀ r, σ.locked r → σ.start.store.str? r = none ∧ ∀ c, σ.Reaches s c → c.store.str? r ≠ none

/-- What the run does between two moments: it binds new boxes, makes new strings, and writes into one string at most. -/
structure Leads (t : Option Value) (c c' : Config) : Prop where
  env : ∀ b, σ.Defined s (.box b) → c'.env b = c.env b
  strings : ∀ r x, (∀ v, t = some v → c.env.val v ≠ .ptr (some r)) → c.store.str? r = some x → c'.store.str? r = some x

/-- A value that may be written to: its string is locked. -/
def May (t : Option Value) : Prop := ∀ v, t = some v → σ.Defined s v ∧ ∀ c, σ.Reaches s c → ∀ r, c.env.val v = .ptr (some r) → σ.locked r

/-- What is true of a later state: entries and boxes keep their values, and the run has gone on. -/
structure Later (t : Option Value) (s s' : OptimizeState) : Prop where
  target : σ.May s t
  strings : s.store.Strings s'.store
  boxes : s.store.boxes ≤ s'.store.boxes
  calls : s'.store.calls = s.store.calls
  ids : s'.ids = s.ids
  size : s'.infos.size = s.infos.size
  defined : ∀ v, σ.Defined s v → σ.Defined s' v
  /-- Of the boxes of the trace no other one becomes known than the result of the operation at hand. -/
  known : ∀ b, b.id ≤ σ.last → σ.Known s' b → σ.Known s b ∨ σ.result = some b
  key : ∀ i, (s'.info i).key = (s.info i).key
  box : ∀ i v, (s.info i).box = some v → (s'.info i).box = some v
  drafts : ∀ i, σ.draft i → s'.info i = s.info i
  back : ∀ c', σ.Reaches s' c' → ∃ c, σ.Reaches s c ∧ σ.Leads s t c c'

variable {σ s} {s' s'' : OptimizeState} {t : Option Value} {v : Value} {x : Content} {c c' : Config}

theorem Reaches.unique (h : σ.Reaches s c) (h' : σ.Reaches s c') : c = c' := Option.some_inj.1 (h.2.symm.trans h'.2)

theorem May.none : σ.May s none := nofun

theorem Leads.val (h : σ.Leads s t c c') (hv : σ.Defined s v) : c'.env.val v = c.env.val v := by
  cases v with
  | box b => exact h.env b hv
  | const k => rfl

variable {i : InfoId}

namespace Later

theorem refl (ht : σ.May s t) : σ.Later t s s where
  target := ht
  strings := .refl _
  boxes := Nat.le_refl _
  calls := rfl
  ids := rfl
  size := rfl
  defined _ h := h
  known _ _ h := .inl h
  key _ := rfl
  box _ _ h := h
  drafts _ _ := rfl
  back c hc := ⟨c, hc, fun _ _ => rfl, fun _ _ _ h => h⟩

theorem trans (h : σ.Later t s s') (h' : σ.Later t s' s'') : σ.Later t s s'' where
  target := h.target
  strings := h.strings.trans h'.strings
  boxes := Nat.le_trans h.boxes h'.boxes
  calls := h'.calls.trans h.calls
  ids := h'.ids.trans h.ids
  size := h'.size.trans h.size
  defined v hv := h'.defined v (h.defined v hv)
  known b hb hk := (h'.known b hb hk).elim (h.known b hb) .inr
  key i := (h'.key i).trans (h.key i)
  box i v hv := h'.box i v (h.box i v hv)
  drafts i hi := (h'.drafts i hi).trans (h.drafts i hi)
  back c'' hc'' := by
    obtain ⟨c', hc', hl'⟩ := h'.back c'' hc''
    obtain ⟨c, hc, hl⟩ := h.back c' hc'
    refine ⟨c, hc, fun b hb => (hl'.env b (h.defined _ hb)).trans (hl.env b hb), fun r x hr hx => ?_⟩
    refine hl'.strings r x (fun v hv => ?_) (hl.strings r x hr hx)
    rw [hl.val (h.target v hv).1]
    exact hr v hv

theorem weaken (h : σ.Later none s s') (ht : σ.May s t) : σ.Later t s s' :=
  { h with
    target := ht
    back := fun c' hc' => (h.back c' hc').imp fun _ hc => ⟨hc.1, hc.2.env, fun r x _ hx => hc.2.strings r x nofun hx⟩ }

section

variable (h : σ.Later t s s')
include h

theorem id? (v : Value) : s'.id? v = s.id? v := by
  rw [OptimizeState.id?, OptimizeState.id?, h.ids]

theorem canon (hv : s.Canon v) : s'.Canon v := fun i hi => h.box i v (hv i (h.id? v ▸ hi))

theorem gives (hv : σ.Gives s v x) : σ.Gives s' v x where
  defined := h.defined v hv.defined
  canon := h.canon hv.canon
  const k hk := (hv.const k hk).mono h.strings
  given := hv.given
  shows c' hc' := by
    obtain ⟨c, hc, hl⟩ := h.back c' hc'
    cases x with
    | num n => exact (hl.val hv.defined).trans (hv.shows c hc)
    | str cs u =>
      obtain ⟨r, hr, hs⟩ := hv.shows c hc
      refine ⟨r, (hl.val hv.defined).trans hr, hl.strings r _ (fun w hw hwr => ?_) hs⟩
      exact hv.unlocked c hc r hr ((h.target w hw).2 c hc r hwr)
  unlocked c' hc' r hr := by
    obtain ⟨c, hc, hl⟩ := h.back c' hc'
    exact hv.unlocked c hc r (by rw [← hl.val hv.defined, hr])

theorem num (hn : σ.Num s i n) : σ.Num s' i n := by
  obtain ⟨v, hv, hg⟩ := hn
  exact ⟨v, h.box i v hv, h.gives hg⟩

theorem spells {c : Option InfoId} {x : Int} (hx : σ.Spells s c x) : σ.Spells s' c x := by
  cases c with
  | none => exact hx
  | some j => exact h.num hx

theorem builds {w : Virtual} (hw : σ.Builds s i w) : σ.Builds s' i w := by
  cases w with
  | plain u chars =>
    obtain ⟨cs, hi, hcs⟩ := hw
    exact ⟨cs, hi, hcs.imp fun _ _ hx => h.spells hx⟩
  | concat u l r length =>
    obtain ⟨hl, hr, a, b, ha, hb, hi, hlen⟩ := hw
    exact ⟨hl, hr, a, b, ha, hb, hi, fun v hv => h.gives (hlen v hv)⟩
  | slice u str start length =>
    obtain ⟨hstr, cs, a, n, hcs, ha, hn, rest⟩ := hw
    exact ⟨hstr, cs, a, n, hcs, h.num ha, h.num hn, rest⟩
  | struct _ _ _ => exact hw
  | array _ _ _ => exact hw

end

end Later

/-- A string that is being filled. -/
structure Target (σ : Scene) (s : OptimizeState) (v : Value) (cs : List Int) (u : Bool) : Prop where
  defined : σ.Defined s v
  canon : s.Canon v
  short : cs.length < 2 ^ 63
  shows : ∀ c, σ.Reaches s c → ∃ r, σ.locked r ∧ c.env.val v = .ptr (some r) ∧ c.store.str? r = some (cs, u)

theorem Target.later (h : σ.Target s v cs u) (hl : σ.Later none s s') : σ.Target s' v cs u where
  defined := hl.defined v h.defined
  canon := hl.canon h.canon
  short := h.short
  shows c' hc' := by
    obtain ⟨c, hc, hlead⟩ := hl.back c' hc'
    obtain ⟨r, hr, hv, hs⟩ := h.shows c hc
    exact ⟨r, hr, (hlead.val h.defined).trans hv, hlead.strings r _ nofun hs⟩

theorem Target.may (h : σ.Target s v cs u) : σ.May s (some v) := by
  rintro w ⟨⟩
  refine ⟨h.defined, fun c hc r hr => ?_⟩
  obtain ⟨q, hq, hv, -⟩ := h.shows c hc
  cases hv.symm.trans hr
  exact hq

/-! ## States in which nothing is written out -/

/-- Nothing has changed of what strings depend on. -/
structure Alike (s s' : OptimizeState) : Prop where
  store : s'.store = s.store
  ids : s'.ids = s.ids
  infos : s'.infos = s.infos
  ops : s'.ops = s.ops

/-- What is known has changed, but nothing was written out. -/
structure Quiet (σ : Scene) (s s' : OptimizeState) : Prop where
  strings : s.store.Strings s'.store
  boxes : s.store.boxes ≤ s'.store.boxes
  calls : s'.store.calls = s.store.calls
  ids : s'.ids = s.ids
  size : s'.infos.size = s.infos.size
  ops : s'.ops = s.ops
  key : ∀ i, (s'.info i).key = (s.info i).key
  box : ∀ i v, (s.info i).box = some v → (s'.info i).box = some v
  const : ∀ i, (s.info i).isConst = true → (s'.info i).isConst = true
  drafts : ∀ i, σ.draft i → s'.info i = s.info i

theorem Quiet.reaches (h : σ.Quiet s s') (hc : σ.Reaches s' c) : σ.Reaches s c := ⟨h.strings.trans hc.1, h.ops ▸ hc.2⟩

theorem Quiet.defined (h : σ.Quiet s s') : σ.Defined s' v ↔ σ.Defined s v := by
  cases v with
  | const k => exact Iff.rfl
  | box b => rw [Scene.Defined, Scene.Defined, h.ops]

theorem Quiet.later (h : σ.Quiet s s') : σ.Later none s s' where
  target := nofun
  strings := h.strings
  boxes := h.boxes
  calls := h.calls
  ids := h.ids
  size := h.size
  defined _ hv := h.defined.2 hv
  known _ _ hk := .inl (hk.imp h.defined.1 fun hk => h.ids ▸ hk)
  key := h.key
  box := h.box
  drafts := h.drafts
  back c hc := ⟨c, h.reaches hc, fun _ _ => rfl, fun _ _ _ hr => hr⟩

theorem Quiet.box_none (h : σ.Quiet s s') (hi : (s'.info i).box = none) : (s.info i).box = none := by
  cases hs : (s.info i).box with
  | none => rfl
  | some v => cases hi.symm.trans (h.box i v hs)

theorem Sound.quiet (h : σ.Sound s) (hq : σ.Quiet s s') (hi : s'.store.Interned)
    (virt : ∀ i, (s'.info i).box = none → (s.info i).virt ≠ none → (s'.info i).virt ≠ none)
    (consts : ∀ i, (s'.info i).isConst = true → (s.info i).isConst = true ∨ ∃ k, (s'.info i).box = some (.const k) ∧ k.Means s'.store (σ.content i))
    (entry : ∀ i v, (s'.info i).box = some v → (s.info i).box = none → ¬ σ.busy i → σ.Gives s' v (σ.content i))
    (builds : ∀ i w, (s'.info i).virt = some w → (s.info i).virt = some w ∨ σ.Builds s' i w) : σ.Sound s' where
  entry i v hlt hv hb := by
    cases hs : (s.info i).box with
    | none => exact entry i v hv hs hb
    | some w =>
      cases hv.symm.trans (hq.box i w hs)
      exact hq.later.gives (h.entry i _ (hq.size ▸ hlt) hs hb)
  builds i w hlt hw := (builds i w hw).elim (fun hw => hq.later.builds (h.builds i w (hq.size ▸ hlt) hw)) id
  virtual i hlt hv := virt i hv (h.virtual i (hq.size ▸ hlt) (hq.box_none hv))
  hidden i hlt hv := by
    obtain ⟨b, hk, hid, hd⟩ := h.hidden i (hq.size ▸ hlt) (hv.imp hq.box_none id)
    exact ⟨b, (hq.key i).trans hk, hq.ids ▸ hid, fun hd' => hd (hq.defined.1 hd')⟩
  consts i hc := (consts i hc).elim (fun hc => (h.consts i hc).imp fun _ hk => ⟨hq.box i _ hk.1, hk.2.mono hq.strings⟩) id
  constIds k i hk := (h.constIds k i (hq.ids ▸ hk)).imp (hq.box i _) (hq.const i)
  given b cs u i hb hi := h.given b cs u i hb (hq.ids ▸ hi)
  ids_lt v i hv := hq.size ▸ h.ids_lt v i (hq.ids ▸ hv)
  last := Nat.le_trans h.last hq.boxes
  boxes b hb := Nat.le_trans (h.boxes b (hb.imp hq.defined.1 fun hb => hq.ids ▸ hb)) hq.boxes
  valid i hlt := h.valid i (hq.size ▸ hlt)
  busy i hi := hq.size ▸ h.busy i hi
  unbound := h.unbound
  drafts i hd := by
    rw [hq.drafts i hd, hq.size]
    exact h.drafts i hd
  plain i hd := hq.drafts i hd ▸ h.plain i hd
  interned := hi
  runs hs := hq.ops ▸ h.runs (hq.strings.trans hs)
  kept c hc := h.kept c (hq.reaches hc)
  locked r hr := (h.locked r hr).imp id fun hs c hc => hs c (hq.reaches hc)

theorem Sound.alike (h : σ.Sound s) (ha : Alike s s') : σ.Sound s' ∧ σ.Later none s s' := by
  have hinfo (i : InfoId) : s'.info i = s.info i := by rw [OptimizeState.info, OptimizeState.info, ha.infos]
  have hq : σ.Quiet s s' :=
    { strings := ha.store ▸ .refl _, boxes := ha.store ▸ Nat.le_refl _, calls := by rw [ha.store], ids := ha.ids, size := by rw [ha.infos]
      ops := ha.ops, key := fun i => by rw [hinfo], box := fun i _ hv => hinfo i ▸ hv, const := fun i hc => hinfo i ▸ hc
      drafts := fun i _ => hinfo i }
  refine ⟨h.quiet hq (ha.store ▸ h.interned) (fun i _ hv => hinfo i ▸ hv) (fun i hc => .inl (hinfo i ▸ hc))
    (fun i v hv hn => by cases (hinfo i ▸ hn).symm.trans hv) fun i _ hw => .inl (hinfo i ▸ hw), hq.later⟩

/-! ## Entries -/

/-- An entry that may be looked at: it is no draft, and of the strings that are being allocated none is a part of it. -/
def Free (σ : Scene) (i : InfoId) : Prop := ¬ σ.draft i ∧ ∀ j, σ.busy j → σ.draft j ∨ i < j

theorem Free.not_busy (h : σ.Free i) : ¬ σ.busy i := fun hb => (h.2 i hb).elim h.1 (Nat.lt_irrefl i)

theorem Free.of_lt {i j : InfoId} (h : σ.Free i) (hj : j < i) (hd : ¬ σ.draft j) : σ.Free j := ⟨hd, fun k hk => (h.2 k hk).imp id (Nat.lt_trans hj)⟩

theorem Gives.int {k n : Int64} (h : σ.Gives s (.const (.int k)) (.num n)) : k = n := h.const _ rfl

theorem Gives.chars {r : Ref} (h : σ.Gives s (.const (.ptr (some r))) (.str cs u)) : s.store.str? r = some (cs, u) := h.const _ rfl

theorem Sound.gives_const (h : σ.Sound s) (n : Int64) : σ.Gives s (.const (.int n)) (.num n) where
  defined := trivial
  canon i hi := (h.constIds (.int n) i hi).1
  const k hk := by
    cases hk
    rfl
  given := nofun
  shows _ _ := rfl
  unlocked _ _ := nofun

theorem Sound.gives_int (h : σ.Sound s) (k : Int) : σ.Gives s (.ofInt k) (.int k) := h.gives_const (Int64.ofInt k)

theorem Later.may (h : σ.Later t s s') : σ.May s' t := by
  intro v hv
  refine ⟨h.defined v (h.target v hv).1, fun c' hc' r hr => ?_⟩
  obtain ⟨c, hc, hl⟩ := h.back c' hc'
  exact (h.target v hv).2 c hc r ((hl.val (h.target v hv).1).symm.trans hr)

/-! ## Steps of the optimizer -/

/-- A step succeeds, keeps the state sound, and gives what is said of it. -/
def Does (σ : Scene) (t : Option Value) {α : Type} (k : OptimizeM α) (s : OptimizeState) (Q : α → OptimizeState → Prop) : Prop :=
  ∃ a s', k s = .ok a s' ∧ σ.Sound s' ∧ σ.Later t s s' ∧ Q a s'

namespace Does

variable {α β : Type} {k : OptimizeM α} {Q Q' : α → OptimizeState → Prop} {R : β → OptimizeState → Prop}

theorem pure {a : α} (h : σ.Sound s) (ht : σ.May s t) (hQ : Q a s) : σ.Does t (.pure a) s Q := ⟨a, s, rfl, h, .refl ht, hQ⟩

theorem bind {f : α → OptimizeM β} (h : σ.Does t k s Q)
    (h' : ∀ a s', σ.Sound s' → σ.Later t s s' → Q a s' → σ.Does t (f a) s' R) : σ.Does t (k >>= f) s R := by
  obtain ⟨a, s', e, hs', hl, hQ⟩ := h
  obtain ⟨b, s'', e', hs'', hl', hR⟩ := h' a s' hs' hl hQ
  exact ⟨b, s'', (OptimizeM.bind_eq e).trans e', hs'', hl.trans hl', hR⟩

theorem mono (h : σ.Does t k s Q) (hQ : ∀ a s', σ.Sound s' → σ.Later t s s' → Q a s' → Q' a s') : σ.Does t k s Q' := by
  obtain ⟨a, s', e, hs', hl, hq⟩ := h
  exact ⟨a, s', e, hs', hl, hQ a s' hs' hl hq⟩

/-- A step that writes into no string, while one is being filled. -/
theorem aside (h : σ.Does none k s Q) (ht : σ.May s t) : σ.Does t k s fun a s' => σ.Later none s s' ∧ Q a s' := by
  obtain ⟨a, s', e, hs', hl, hq⟩ := h
  exact ⟨a, s', e, hs', hl.weaken ht, hl, hq⟩

theorem look {a : α} {f : α → OptimizeM β} (e : k s = .ok a s) (h : σ.Does t (f a) s R) : σ.Does t (k >>= f) s R := by
  obtain ⟨b, s', e', hs', hl, hR⟩ := h
  exact ⟨b, s', (OptimizeM.bind_eq e).trans e', hs', hl, hR⟩

theorem get {f : OptimizeState → OptimizeM β} (h : σ.Does t (f s) s R) : σ.Does t (MonadState.get >>= f) s R := h

theorem info {f : Info → OptimizeM β} (h : σ.Does t (f (s.info i)) s R) : σ.Does t (.info i >>= f) s R := h

/-- A loop: what is true of the rest of a list and what was worked out so far is true of one element less after each round. -/
theorem forIn {γ : Type} {f : γ → β → OptimizeM (ForInStep β)} {I : List γ → β → OptimizeState → Prop} {xs : List γ} {b : β} (h : σ.Sound s)
    (ht : σ.May s t) (hI : I xs b s)
    (hf : ∀ x xs b s', σ.Sound s' → σ.May s' t → I (x :: xs) b s' → σ.Does t (f x b) s' fun r s'' => ∃ b', r = .yield b' ∧ I xs b' s'') :
    σ.Does t (ForIn.forIn xs b f) s fun b' s' => I [] b' s' := by
  induction xs generalizing b s with
  | nil => exact pure h ht hI
  | cons x xs ih =>
    rw [List.forIn_cons]
    refine bind (hf x xs b s h ht hI) fun r s' hs' hl hr => ?_
    obtain ⟨b', rfl, hI'⟩ := hr
    exact ih hs' hl.may hI'

end Does

end Scene

/-! ## One state in several scenes

A state that is sound in one scene is sound in another one in which other strings are being allocated, as long as the values of the
entries stay what they are.  An operation that waits for its result may leave it to a later step: what is done in a scene without the
result does not bind it.
-/

open OptimizeM

namespace Scene

variable {σ : Scene} {s s' : OptimizeState} {t : Option Value} {i : InfoId} {v : Value} {x : Content}

/-! ### Strings that are being allocated -/

variable {B U : InfoId → Prop} {L : Ref → Prop} {R : Option Box}

/-- The scene at another moment. -/
def altered (σ : Scene) (B U : InfoId → Prop) (L : Ref → Prop) (R : Option Box) : Scene :=
  { σ with busy := B, unbound := U, locked := L, result := R }

theorem Gives.altered {v : Value} {x : Content} (h : σ.Gives s v x)
    (hl : ∀ c r, σ.Reaches s c → c.env.val v = .ptr (some r) → L r → σ.locked r) : (σ.altered B U L R).Gives s v x :=
  { h with unlocked := fun c hc r hr hlock => h.unlocked c hc r hr (hl c r hc hr hlock) }

theorem Gives.number_altered {v : Value} (h : σ.Gives s v (.num n)) : (σ.altered B U L R).Gives s v (.num n) :=
  h.altered fun c r hc hr _ => by cases (h.shows c hc).symm.trans hr

theorem Num.altered (h : σ.Num s i n) : (σ.altered B U L R).Num s i n := h.imp fun _ hv => ⟨hv.1, hv.2.number_altered⟩

theorem Builds.altered {w : Virtual} (h : σ.Builds s i w) : (σ.altered B U L R).Builds s i w := by
  cases w with
  | plain u chars =>
    obtain ⟨cs, hi, hcs⟩ := h
    refine ⟨cs, hi, hcs.imp fun c x hx => ?_⟩
    cases c with
    | none => exact hx
    | some j => exact .altered hx
  | concat u l r length =>
    obtain ⟨hl, hr, a, b, ha, hb, hi, hlen⟩ := h
    exact ⟨hl, hr, a, b, ha, hb, hi, fun v hv => (hlen v hv).number_altered⟩
  | slice u str start length =>
    obtain ⟨hstr, cs, a, n, hcs, ha, hn, rest⟩ := h
    exact ⟨hstr, cs, a, n, hcs, .altered ha, .altered hn, rest⟩
  | struct _ _ _ => exact h
  | array _ _ _ => exact h

theorem Sound.altered (h : σ.Sound s) (hbusy : ∀ j, B j → j < s.infos.size ∧ ∃ cs u, σ.content j = .str cs u)
    (hentry : ∀ j v, j < s.infos.size → (s.info j).box = some v → ¬ B j → (σ.altered B U L R).Gives s v (σ.content j)) (hunbound : ∀ j, U j → B j)
    (hhidden : ∀ j, U j → σ.unbound j ∨ (s.info j).box = none) (hdrafts : ∀ j, σ.draft j → (s.info j).box = none ∨ B j)
    (hlocked : ∀ r, L r → σ.start.store.str? r = none ∧ ∀ c, σ.Reaches s c → c.store.str? r ≠ none) : (σ.altered B U L R).Sound s where
  entry := hentry
  builds j w hlt hw := (h.builds j w hlt hw).altered
  virtual := h.virtual
  hidden j hlt hj := h.hidden j hlt (hj.elim .inl fun hu => (hhidden j hu).symm)
  consts := h.consts
  constIds := h.constIds
  given := h.given
  ids_lt := h.ids_lt
  last := h.last
  boxes := h.boxes
  valid := h.valid
  busy := hbusy
  unbound := hunbound
  drafts j hj := (h.drafts j hj).imp id fun hd => ⟨hd.1, hdrafts j hj⟩
  plain := h.plain
  interned := h.interned
  runs := h.runs
  kept := h.kept
  locked := hlocked

/-! ### The result at hand -/

/-- The result of the operation at hand, which is not known yet. -/
def Awaits (σ : Scene) (s : OptimizeState) (result : Option Box) : Prop := ∀ r, result = some r → σ.result = some r ∧ r.id ≤ σ.last ∧ ¬ σ.Known s r

theorem Awaits.none : σ.Awaits s none := by
  rintro _ ⟨⟩

theorem Awaits.quiet {result : Option Box} (h : σ.Awaits s result) (hl : σ.Later t s s') (ho : s'.ops = s.ops) : σ.Awaits s' result := by
  intro r hr
  refine (h r hr).imp id fun hk => hk.imp id fun hk hk' => hk (hk'.imp (fun hd => ?_) fun hd => hl.ids ▸ hd)
  rwa [Scene.Defined, ho] at hd

/-- What was worked out is the result of the operation at hand, unless the result may still be bound. -/
def Answers (σ : Scene) (s : OptimizeState) (v : Value) (s' : OptimizeState) : Prop := ∀ r, σ.Awaits s (some r) → v = .box r ∨ σ.Awaits s' (some r)

theorem Awaits.answers {r : Box} (h : σ.Awaits s (some r)) : σ.Answers s (.box r) s' := by
  intro r' hr'
  cases (h r rfl).1.symm.trans (hr' r' rfl).1
  exact .inl rfl

/-- The scene in which another result is waited for. -/
abbrev asking (σ : Scene) (R : Option Box) : Scene := σ.altered σ.busy σ.unbound σ.locked R

theorem Sound.asking (h : σ.Sound s) (R : Option Box) : (σ.asking R).Sound s :=
  h.altered h.busy (fun j w hlt hw hb => (h.entry j w hlt hw hb).altered fun _ _ _ _ hl => hl) h.unbound (fun _ hj => .inl hj)
    (fun j hj => (h.drafts j hj).2.2) h.locked

theorem Gives.asking (h : σ.Gives s v x) (R : Option Box) : (σ.asking R).Gives s v x := h.altered fun _ _ _ _ hl => hl

/-- The scene in which no operation waits for its result. -/
abbrev unasked (σ : Scene) : Scene := σ.asking none

theorem Sound.unasked (h : σ.Sound s) : σ.unasked.Sound s := h.asking none

theorem Sound.asked (h : σ.unasked.Sound s) : σ.Sound s := h.asking σ.result

theorem Gives.unasked (h : σ.Gives s v x) : σ.unasked.Gives s v x := h.asking none

theorem Gives.asked (h : σ.unasked.Gives s v x) : σ.Gives s v x := h.asking σ.result

theorem Does.ask {α : Type} {k : OptimizeM α} {Q : α → OptimizeState → Prop} (h : σ.unasked.Does none k s Q) :
    σ.Does none k s fun a s' => Q a s' ∧ ∀ r, σ.Awaits s r → σ.Awaits s' r := by
  obtain ⟨a, s', e, hs', hl, hQ⟩ := h
  have hnot (b : Box) (hb : b.id ≤ σ.last) (hk : σ.Known s' b) : σ.Known s b := (hl.known b hb hk).resolve_right (Option.some_ne_none _).symm
  refine ⟨a, s', e, hs'.asked, { hl with target := .none, known := fun b hb hk => .inl (hnot b hb hk), back := fun c hc => ?_ }, hQ,
    fun r hr b hb => ?_⟩
  · exact (hl.back c hc).imp fun _ hc => ⟨hc.1, hc.2.env, hc.2.strings⟩
  · obtain ⟨hb, hlast, hk⟩ := hr b hb
    exact ⟨hb, hlast, fun hk' => hk (hnot b hlast hk')⟩

end Scene
end FlowCompiler.Trace
