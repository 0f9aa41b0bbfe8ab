import FlowCompiler.Proofs.Strings.Meaning

/-!
# Writing operations out

An operation whose operands stand for themselves is written out as it is.  If the machine can execute it, and its result is a new box,
then the run goes on and everything that was true stays true.
-/

namespace FlowCompiler.Trace

open OptimizeM List Function

namespace OptimizeState

/-- One operation was written out, and nothing else has changed of what strings depend on. -/
structure Writes (s : OptimizeState) (op : Op) (s' : OptimizeState) : Prop where
  ops : s'.ops = s.ops ++ [op]
  store : s'.store = s.store
  ids : s'.ids = s.ids
  infos : s'.infos = s.infos
  /-- A tagged operation can be looked at again. -/
  noted : op.tag ≠ 0 → s'.written[op.tag]? = some op.args

variable {s : OptimizeState} {v : Value}

@[simp] theorem id?_box (s : OptimizeState) (b : Box) : s.id? (.box b) = s.ids[Value.box b]? := rfl

end OptimizeState

/-- No float: two values that are no floats are known to be equal only if they are the same. -/
def Value.Exact (v : Value) : Prop := ∀ d, v ≠ .const (.float d)

theorem Value.exact_box (b : Box) : (Value.box b).Exact := by
  rintro d ⟨⟩

theorem Value.Exact.key?_eq {v : Value} (h : v.Exact) : v.key? = some v := by
  rcases v with b | n | d | p
  · rfl
  · rfl
  · exact absurd rfl (h d)
  · rfl

theorem Value.Exact.eq_of_key? {v w : Value} (h : v.Exact) (hw : w.key? = some v) : w = v := by
  rcases w with b | n | d | p
  · exact Option.some_inj.1 hw
  · exact Option.some_inj.1 hw
  · simp only [Value.key?] at hw
    split at hw
    · cases hw
    · split at hw
      · exact absurd (Option.some_inj.1 hw).symm (h _)
      · exact absurd (Option.some_inj.1 hw).symm (h _)
  · exact Option.some_inj.1 hw

variable {args : List Value} {n : Int64}

theorem Value.of_int? {v : Value} (h : v.int? = some n) : v = .const (.int n) := by
  cases v with
  | box b => cases h
  | const k =>
    cases k with
    | int m =>
      cases h
      rfl
    | float d => cases h
    | ptr p => cases h

theorem Value.of_ref? {v : Value} {r : Ref} (h : v.const?.bind Const.ref? = some r) : v = .const (.ptr (some r)) := by
  cases v with
  | box b => cases h
  | const k =>
    cases k with
    | int m => cases h
    | float d => cases h
    | ptr p =>
      cases h
      rfl

/-- The operations on two words that always give a word. -/
def Opcode.onWords : Opcode → Bool
  | .intAdd | .intSub | .intMul | .intAnd | .intOr | .intXor | .intLshift | .intRshift | .uintRshift | .intLt | .intLe | .intEq | .intNe
  | .intGt | .intGe | .uintLt | .uintLe | .uintGt | .uintGe => true
  | _ => false

theorem Opcode.reads?_of_onWords {code : Opcode} (h : code.onWords = true) : Exec.reads? code = some .int := by
  cases code <;> first | rfl | cases h

/-- The operations that strings are built and read with, and those that only use what was read. -/
def Opcode.direct : Opcode → Bool
  | .newstr | .newunicode | .strlen | .unicodelen | .strgetitem | .unicodegetitem | .strsetitem | .unicodesetitem | .copystrcontent
  | .copyunicodecontent | .keepalive => true
  | code => code.onWords

/-- The value that an operand is written out as. -/
def operand (n : Nat) (v : Value) : OptimizeM Value := do
  match (← get).id? v with
  | some i => force (writeOut n) i
  | none => pure v

/-- Operations are written out with the values of their operands. -/
def Forces (emit : Emit) : Prop :=
  ∀ s op, op.code.direct = true → ∃ l n, ∀ vs s₁, op.args.mapM (operand (n + 1)) { s with lastString := l } = .ok vs s₁ →
    ∃ s₂, emit op s = .ok () s₂ ∧ s₁.Writes { op with args := vs } s₂

/-- Operations whose operands stand for themselves are written out as they are. -/
def Emits (emit : Emit) : Prop := ∀ s op, op.code.direct = true → (∀ v ∈ op.args, s.Canon v) → ∃ s', emit op s = .ok () s' ∧ s.Writes op s'

section
variable {s : OptimizeState} {op : Op} {v : Value}

theorem force_of_box {emit : Emit} {i : InfoId} (h : (s.info i).box = some v) : force emit i s = .ok v s := by
  refine (bind_eq rfl).trans ?_
  rw [forceAux]
  refine (bind_eq rfl).trans ?_
  rw [h]
  rfl

theorem operand_eq {n : Nat} (h : s.Canon v) : operand n v s = .ok v s := by
  refine (bind_eq rfl).trans ?_
  cases hi : s.id? v with
  | none => rfl
  | some i => exact force_of_box (h i hi)

theorem operands_eq {n : Nat} (h : ∀ v ∈ args, s.Canon v) : args.mapM (operand n) s = .ok args s := by
  induction args with
  | nil => rfl
  | cons v args ih =>
    rw [mapM_cons]
    refine (bind_eq (operand_eq (h v (by simp)))).trans ?_
    exact (bind_eq (ih fun w hw => h w (by simp [hw]))).trans rfl

theorem isGuard_of_direct (op : Op) (h : op.code.direct = true) : op.isGuard = false := by
  unfold Op.isGuard
  revert h
  cases op.code <;> decide

theorem writeOut_operands {n : Nat} {vs : List Value} {s₁ : OptimizeState} (hc : op.code.direct = true)
    (h : op.args.mapM (operand n) s = .ok vs s₁) : ∃ s₂, writeOut (n + 1) op s = .ok () s₂ ∧ s₁.Writes { op with args := vs } s₂ := by
  have hguard : ({ op with args := vs } : Op).isGuard = false := isGuard_of_direct { op with args := vs } hc
  have hops (s : OptimizeState) (op : Op) : OptimizeState.ops { s with out := s.out.push (op, none) } = s.ops ++ [op] := by
    simp [OptimizeState.ops]
  by_cases ht : op.tag = 0
  · refine ⟨{ s₁ with out := s₁.out.push ({ op with args := vs }, none) }, (bind_eq h).trans ?_, hops s₁ _, rfl, rfl, rfl, fun hne => absurd ht hne⟩
    rw [if_neg (not_not.2 ht), hguard]
    rfl
  · refine ⟨{ s₁ with written := s₁.written.insert op.tag vs, out := s₁.out.push ({ op with args := vs }, none) }, (bind_eq h).trans ?_,
      hops _ _, rfl, rfl, rfl, fun _ => by simp⟩
    rw [if_pos ht, hguard]
    rfl

theorem Emits.writeOut (n : Nat) : Emits (writeOut (n + 1)) := fun _ _ hc ha => writeOut_operands hc (operands_eq ha)

end

namespace Forces

variable {emit next : Emit}

theorem emits (h : Forces emit) : Emits emit := by
  intro s op hc ha
  obtain ⟨l, n, hf⟩ := h s op hc
  obtain ⟨s', e, hw⟩ := hf _ _ (operands_eq (s := { s with lastString := l }) ha)
  exact ⟨s', e, hw.ops, hw.store, hw.ids, hw.infos, hw.noted⟩

theorem write : Forces write := fun s _ hc => ⟨s.lastString, s.infos.size, fun _ _ h => writeOut_operands hc h⟩

theorem simplify (h : Forces next) : Forces (Simplify.pass next) := by
  intro s op hc
  obtain ⟨l, n, hf⟩ := h s op hc
  refine ⟨l, n, fun vs s₁ e => ?_⟩
  obtain ⟨s₂, e, hw⟩ := hf vs s₁ e
  refine ⟨s₂, ?_, hw⟩
  unfold Simplify.pass
  cases hcode : op.code <;> first | exact e | simp [hcode, Opcode.direct, Opcode.onWords] at hc

theorem give (h : Forces next) : Forces (Strings.give next) := by
  intro s op hc
  exact h { s with lastString := .op op } op hc

end Forces

namespace Scene

variable {σ : Scene} {s s' : OptimizeState} {t : Option Value} {op : Op} {emit : Emit}

/-- A box that the run may still bind. -/
structure New (σ : Scene) (s : OptimizeState) (b : Box) : Prop where
  undefined : ¬ σ.Defined s (.box b)
  id_le : b.id ≤ s.store.boxes
  visible : ∀ i, (s.info i).box = none ∨ σ.unbound i → s.ids[Value.box b]? ≠ some i
  known : σ.last < b.id ∨ s.ids[Value.box b]? ≠ none ∨ σ.result = some b

theorem Awaits.new {r : Box} (h : σ.Awaits s (some r)) (hs : σ.Sound s) : σ.New s r ∧ s.ids[Value.box r]? = .none := by
  obtain ⟨hr, hlast, hk⟩ := h r rfl
  have hid : s.ids[Value.box r]? = .none := by
    by_contra hne
    exact hk (.inr hne)
  have hvisible (i : InfoId) (hi : s.ids[Value.box r]? = some i) : False := by cases hid.symm.trans hi
  exact ⟨⟨fun hd => hk (.inl hd), Nat.le_trans hlast hs.last, fun i _ => hvisible i, .inr (.inr hr)⟩, hid⟩

/-- What an operation does to what the run has come to. -/
structure Executes (t : Option Value) (op : Op) (c c' : Config) : Prop where
  step : c.step op = some c'
  env : ∀ b, op.result ≠ some b → c'.env b = c.env b
  strings : ∀ r x, (∀ v, t = some v → c.env.val v ≠ .ptr (some r)) → c.store.str? r = some x → c'.store.str? r = some x
  kept : ∀ r, c.store.str? r ≠ none → c'.store.str? r ≠ none

theorem defined_writes (h : s.Writes op s') {v : Value} : σ.Defined s' v ↔ σ.Defined s v ∨ ∃ b, v = .box b ∧ op.result = some b := by
  cases v with
  | const k => simp [Scene.Defined]
  | box b => simp [Scene.Defined, h.ops, or_and_right, exists_or, or_assoc]

theorem reaches_writes (h : s.Writes op s') {c' : Config} : σ.Reaches s' c' ↔ ∃ c, σ.Reaches s c ∧ c.step op = some c' := by
  simp only [Scene.Reaches, h.store, h.ops, Config.run_concat, Option.bind_eq_some_iff]
  tauto

theorem Sound.writes (h : σ.Sound s) (hw : s.Writes op s') (ht : σ.May s t) (hnew : ∀ b, op.result = some b → σ.New s b)
    (hstep : ∀ c, σ.Reaches s c → ∃ c', Executes t op c c') : σ.Sound s' ∧ σ.Later t s s' := by
  have hback : ∀ c', σ.Reaches s' c' → ∃ c, σ.Reaches s c ∧ Executes t op c c' := by
    intro c' hc'
    obtain ⟨c, hc, e⟩ := (reaches_writes hw).1 hc'
    obtain ⟨c'', he⟩ := hstep c hc
    cases e.symm.trans he.step
    exact ⟨c, hc, he⟩
  have hlater : σ.Later t s s' :=
    { target := ht
      strings := hw.store ▸ .refl _
      boxes := hw.store ▸ Nat.le_refl _
      calls := by rw [hw.store]
      ids := hw.ids
      size := by rw [hw.infos]
      defined := fun v hv => (defined_writes hw).2 (.inl hv)
      known := fun b hb hk => by
        rcases hk with hd | hk
        · rcases (defined_writes hw).1 hd with hd | ⟨b', e, hr⟩
          · exact .inl (.inl hd)
          · cases e
            exact ((hnew b hr).known.resolve_left (Nat.not_lt.2 hb)).imp .inr id
        · exact .inl (.inr (hw.ids ▸ hk))
      key := fun i => by rw [OptimizeState.info, hw.infos, OptimizeState.info]
      box := fun i v hv => by rwa [OptimizeState.info, hw.infos]
      drafts := fun i _ => by rw [OptimizeState.info, hw.infos, OptimizeState.info]
      back := fun c' hc' => by
        obtain ⟨c, hc, he⟩ := hback c' hc'
        refine ⟨c, hc, fun b hb => he.env b fun hr => ?_, he.strings⟩
        exact (hnew b hr).undefined hb }
  have hinfo (i : InfoId) : s'.info i = s.info i := by rw [OptimizeState.info, hw.infos, OptimizeState.info]
  refine ⟨?_, hlater⟩
  exact
    { entry := fun i v hlt hv hb => hlater.gives (h.entry i v (hlater.size ▸ hlt) (hinfo i ▸ hv) hb)
      builds := fun i w hlt hv => hlater.builds (h.builds i w (hlater.size ▸ hlt) (hinfo i ▸ hv))
      virtual := fun i hlt hv => by
        rw [hinfo] at hv ⊢
        exact h.virtual i (hlater.size ▸ hlt) hv
      hidden := fun i hlt hv => by
        rw [hinfo] at hv ⊢
        obtain ⟨b, hk, hid, hd⟩ := h.hidden i (hlater.size ▸ hlt) hv
        refine ⟨b, hk, hw.ids ▸ hid, fun hd' => ?_⟩
        rcases (defined_writes hw).1 hd' with hd' | ⟨b', e, hr⟩
        · exact hd hd'
        · cases e
          exact (hnew b hr).visible i hv hid
      consts := fun i => by
        rw [hinfo, hw.store]
        exact h.consts i
      constIds := fun k i hk => (hinfo i).symm ▸ h.constIds k i (hw.ids ▸ hk)
      given := fun b cs u i hb hi => h.given b cs u i hb (hw.ids ▸ hi)
      ids_lt := fun v i hv => hlater.size ▸ h.ids_lt v i (hw.ids ▸ hv)
      last := hw.store ▸ h.last
      boxes := fun b hb => by
        rw [hw.store]
        rcases hb with hd | hid
        · rcases (defined_writes hw).1 hd with hd | ⟨b', e, hr⟩
          · exact h.boxes b (.inl hd)
          · cases e
            exact (hnew b hr).id_le
        · exact h.boxes b (.inr (hw.ids ▸ hid))
      valid := fun i hlt => h.valid i (hlater.size ▸ hlt)
      busy := fun i hi => hlater.size ▸ h.busy i hi
      unbound := h.unbound
      drafts := fun i hd => by
        rw [hinfo, hlater.size]
        exact h.drafts i hd
      plain := fun i hd => hinfo i ▸ h.plain i hd
      interned := hw.store ▸ h.interned
      runs := fun hs => by
        obtain ⟨c, hc⟩ := h.runs (hw.store ▸ hs)
        obtain ⟨c', he⟩ := hstep c ⟨hw.store ▸ hs, hc⟩
        exact ⟨c', ((reaches_writes hw).2 ⟨c, ⟨hw.store ▸ hs, hc⟩, he.step⟩).2⟩
      kept := fun c' hc' r x hx => by
        obtain ⟨c, hc, he⟩ := hback c' hc'
        refine he.strings r x (fun v hv hr => ?_) (h.kept c hc r x hx)
        cases (h.locked r ((ht v hv).2 c hc r hr)).1.symm.trans hx
      locked := fun r hr => (h.locked r hr).imp id fun hs c' hc' => by
        obtain ⟨c, hc, he⟩ := hback c' hc'
        exact he.kept r (hs c hc) }

/-! ## Operations that give a number -/

theorem newBox_does (h : σ.Sound s) (k : Kind) :
    σ.Does none (newBox k) s fun b s' => σ.New s' b ∧ s'.ids[Value.box b]? = none := by
  let s' : OptimizeState := { s with store := { s.store with boxes := s.store.boxes + 1 } }
  have hq : σ.Quiet s s' :=
    { strings := fun _ _ hr => hr, boxes := Nat.le_succ _, calls := rfl, ids := rfl, size := rfl,
      ops := rfl, key := fun _ => rfl, box := fun _ _ hv => hv, const := fun _ hc => hc, drafts := fun _ _ => rfl }
  have hs' : σ.Sound s' := h.quiet hq h.interned (fun _ _ hv => hv) (fun _ hc => .inl hc)
    (fun i v hv hn => by cases hv.symm.trans hn) fun _ _ hw => .inl hw
  have hundefined : ¬ σ.Defined s (.box ⟨s.store.boxes + 1, k⟩) := fun hd =>
    Nat.not_succ_le_self _ (h.boxes _ (.inl hd))
  have hid : s.ids[Value.box ⟨s.store.boxes + 1, k⟩]? = none := by
    by_contra hne
    exact Nat.not_succ_le_self _ (h.boxes _ (.inr hne))
  have hnew : σ.New s' ⟨s.store.boxes + 1, k⟩ :=
    { undefined := fun hd => hundefined (hq.defined.1 hd)
      id_le := Nat.le_refl _
      visible := fun i _ hi => by cases hid.symm.trans hi
      known := .inl (Nat.lt_succ_of_le h.last) }
  exact ⟨_, s', rfl, hs', hq.later, hnew, hid⟩

theorem Sound.writes_number (h : σ.Sound s) (hw : s.Writes op s') (ht : σ.May s t) {b : Box} (hr : op.result = some b) (hnew : σ.New s b)
    (hid : s.ids[Value.box b]? = none) (hstep : ∀ c, σ.Reaches s c → c.step op = some ⟨update c.env b (.int n), c.store⟩) :
    σ.Sound s' ∧ σ.Later t s s' ∧
    σ.Gives s' (.box b) (.num n) := by
  have hexec : ∀ c, σ.Reaches s c → ∃ c', Executes t op c c' := fun c hc => ⟨_, hstep c hc, fun b' hb' =>
    update_of_ne (fun e => hb' (hr.trans (congrArg some e.symm))) _ _, fun _ _ _ hx => hx, fun _ hx => hx⟩
  obtain ⟨hs', hl⟩ := h.writes hw ht (fun b' hb' => by cases hr.symm.trans hb'; exact hnew) hexec
  have hval : ∀ c', σ.Reaches s' c' → c'.env b = .int n := by
    intro c' hc'
    obtain ⟨c, hc, hs⟩ := (reaches_writes hw).1 hc'
    cases hs.symm.trans (hstep c hc)
    exact update_self ..
  refine ⟨hs', hl, ?_⟩
  exact
    { defined := (defined_writes hw).2 (.inr ⟨b, rfl, hr⟩)
      canon := fun i hi => by
        rw [hl.id?, OptimizeState.id?_box, hid] at hi
        cases hi
      const := nofun
      given := fun b' y e hy => by
        cases e
        exact absurd (.inl (hy ▸ rfl)) hnew.undefined
      shows := hval
      unlocked := fun c' hc' r hv => by cases (hval c' hc').symm.trans hv }

theorem Does.number (he : Emits emit) (h : σ.Sound s) (ht : σ.May s t) {b : Box} (hcode : op.code.direct = true) (hr : op.result = some b)
    (hnew : σ.New s b) (hid : s.ids[Value.box b]? = none) (hargs : ∀ v ∈ op.args, s.Canon v)
    (hstep : ∀ c, σ.Reaches s c → c.step op = some ⟨update c.env b (.int n), c.store⟩) :
    σ.Does t (emit op) s fun _ s' => σ.Gives s' (.box b) (.num n) := by
  obtain ⟨s', e, hw⟩ := he s op hcode hargs
  exact ⟨(), s', e, h.writes_number hw ht hr hnew hid hstep⟩

theorem Does.new_number (he : Emits emit) (h : σ.Sound s) (ht : σ.May s t) {code : Opcode} (hcode : code.direct = true)
    (hargs : ∀ v ∈ args, s.Canon v) {β : Type} {f : Box → OptimizeM β} {R : β → OptimizeState → Prop}
    (hstep : ∀ s' b c, σ.Later t s s' → σ.Reaches s' c → c.step { code, args, result := some b } = some ⟨update c.env b (.int n), c.store⟩)
    (hf : ∀ b s', σ.Sound s' → σ.Later t s s' → σ.Gives s' (.box b) (.num n) → σ.Does t (f b) s' R) : σ.Does t (do
      let r ← newBox .int
      emit { code, args, result := some r }
      f r) s R := by
  refine ((newBox_does h .int).aside ht).bind fun b s₁ hs₁ hl₁ hb => ?_
  replace hb := hb.2
  refine (Does.number he hs₁ hl₁.may hcode rfl hb.1 hb.2 (fun v hv => hl₁.canon (hargs v hv)) fun c hc => hstep s₁ b c hl₁ hc).bind
    fun _ s₂ hs₂ hl₂ hv => ?_
  obtain ⟨a, s₃, e, hs₃, hl₃, hR⟩ := hf b s₂ hs₂ (hl₁.trans hl₂) hv
  exact ⟨a, s₃, e, hs₃, hl₃, hR⟩

variable {a b v : Value} {x y : Int}

section

variable (he : Emits emit) (h : σ.Sound s) (ht : σ.May s t) (ha : σ.Gives s a (.int x)) (hb : σ.Gives s b (.int y))
include he h ht ha hb

theorem intAdd_does : σ.Does t (intAdd (some emit) a b) s fun v s' => ∃ w, v = some w ∧ σ.Gives s' w (.int (x + y)) := by
  have word : Content.int (x + y) = .num (Int64.ofInt x + Int64.ofInt y) := congrArg Content.num (Int64.ofInt_add x y)
  rw [word]
  unfold intAdd
  split
  · rename_i e
    subst e
    refine .pure h ht ⟨b, rfl, ?_⟩
    rw [← ha.int]
    exact (Int64.zero_add _).symm ▸ hb
  split
  · rename_i e
    subst e
    refine .pure h ht ⟨a, rfl, ?_⟩
    rw [← hb.int]
    exact (Int64.add_zero _).symm ▸ ha
  split
  · rename_i m n hm hn
    cases Value.of_int? hm
    cases Value.of_int? hn
    rw [← ha.int, ← hb.int]
    exact .pure h ht ⟨_, rfl, h.gives_const (m + n)⟩
  · rename_i hnone _
    cases hnone
  · rename_i hsome _
    cases hsome
    refine .new_number he h ht rfl (by simp [ha.canon, hb.canon]) (fun s' b' c hl hc => ?_) fun r s' hs' hl hr => .pure hs' hl.may ⟨_, rfl, hr⟩
    exact Config.step_word rfl ((hl.gives ha).shows c hc) ((hl.gives hb).shows c hc) rfl

theorem addLengths_does : σ.Does t (addLengths emit a b) s fun v s' => σ.Gives s' v (.int (x + y)) := by
  refine (intAdd_does he h ht ha hb).bind fun v s' hs' hl hv => ?_
  obtain ⟨w, rfl, hw⟩ := hv
  exact .pure hs' hl.may hw

theorem subLengths_does : σ.Does t (subLengths emit a b) s fun v s' => σ.Gives s' v (.int (x - y)) := by
  have word : Content.int (x - y) = .num (Int64.ofInt x - Int64.ofInt y) := congrArg Content.num (Int64.ofInt_sub x y)
  rw [word]
  unfold subLengths
  split
  · rename_i e
    subst e
    refine .pure h ht ?_
    rw [← hb.int]
    exact (Int64.sub_zero _).symm ▸ ha
  split
  · rename_i m n hm hn
    cases Value.of_int? hm
    cases Value.of_int? hn
    rw [← ha.int, ← hb.int]
    exact .pure h ht (h.gives_const (m - n))
  · refine .new_number he h ht rfl (by simp [ha.canon, hb.canon]) (fun s' b' c hl hc => ?_) fun r s' hs' hl hr => .pure hs' hl.may hr
    exact Config.step_word rfl ((hl.gives ha).shows c hc) ((hl.gives hb).shows c hc) rfl

end

/-! ## Reading -/

variable {m : StringMode} {cs : List Int} {u : Bool} {k : Nat} {ch : Int}

theorem knownChar?_eq_some {st : Store} (h : knownChar? st a b = some v) : ∃ r ds w n d,
    a = .const (.ptr (some r)) ∧ st.str? r = some (ds, w) ∧ b = .const (.int n) ∧ ds[n.toInt.toNat]? = some d ∧ v = .ofInt d := by
  obtain ⟨⟨ds, w⟩, hds, h⟩ := Option.bind_eq_some_iff.1 h
  obtain ⟨r, hr, hds⟩ := Option.bind_eq_some_iff.1 hds
  obtain ⟨n, hn, h⟩ := Option.bind_eq_some_iff.1 h
  split at h
  · cases h
  · obtain ⟨d, hd, rfl⟩ := Option.map_eq_some_iff.1 h
    exact ⟨r, ds, w, n, d, Value.of_ref? hr, hds, Value.of_int? hn, hd, rfl⟩

theorem readChar_does (he : Emits emit) (h : σ.Sound s) (hstr : σ.Gives s a (.str cs u))
    (hindex : σ.Gives s b (.int k)) (hshort : cs.length < 2 ^ 63) (hk : cs[k]? = some ch) {result : Option Box}
    (hresult : σ.Awaits s result) : σ.Does none (readChar emit m a b result) s fun v s' => σ.Gives s' v (.int ch) ∧ σ.Answers s v s' := by
  have hword : (Int64.ofInt k).toInt = k := toInt_ofInt_nat (Nat.lt_trans (List.getElem?_eq_some_iff.1 hk).1 hshort)
  have hstep (s' : OptimizeState) (r : Box) (c : Config) (hl : σ.Later none s s') (hc : σ.Reaches s' c) :
      c.step { code := m.getitem, args := [a, b], result := some r } = some ⟨update c.env r (.int (Int64.ofInt ch)), c.store⟩ :=
    Config.step_getitem ((hl.gives hstr).shows c hc) ((hl.gives hindex).shows c hc) (by rw [hword]; omega) (by rw [hword]; exact hk)
  have hcode : m.getitem.direct = true := by rcases m with ⟨_ | _⟩ <;> rfl
  refine .get ?_
  split
  · rename_i v hv
    obtain ⟨r, ds, w, n, d, rfl, hr, rfl, hd, rfl⟩ := knownChar?_eq_some hv
    cases hstr.chars.symm.trans hr
    rw [hindex.int, hword] at hd
    cases hk.symm.trans hd
    exact .pure h .none ⟨h.gives_const (Int64.ofInt ch), fun _ hr => .inr hr⟩
  · split
    · rename_i r
      obtain ⟨hnew, hid⟩ := hresult.new h
      refine (Does.number he h .none hcode rfl hnew hid (by simp [hstr.canon, hindex.canon]) fun c hc =>
        hstep s r c (.refl .none) hc).bind fun _ s' hs' hl hv => .pure hs' .none ⟨hv, hresult.answers⟩
    · refine (Does.new_number (R := fun v s' => σ.unasked.Gives s' v (.int ch)) he h.unasked .none hcode (by simp [hstr.canon, hindex.canon])
        (fun s' r c hl hc => ?_) fun r s' hs' _ hr => .pure hs' .none hr).ask.mono fun v s' _ _ hv => ⟨hv.1.asked, fun r hr => .inr (hv.2 _ hr)⟩
      exact Config.step_getitem ((hl.gives hstr.unasked).shows c hc) ((hl.gives hindex.unasked).shows c hc) (by rw [hword]; omega)
        (by rw [hword]; exact hk)

end Scene

/-! ## Copying characters

A new string is filled from its start on: the part that was written, and behind it zeros.  Each way to copy a part of a string into it
makes the written part longer by what is copied.
-/

/-- A string that is written up to a place, and zero behind it. -/
def blankAfter (done : List Int) (rest : Nat) : List Int := done ++ List.replicate rest 0

namespace blankAfter

variable {done xs : List Int} {x : Int} {rest : Nat}

@[simp] theorem length_eq (done : List Int) (rest : Nat) : (blankAfter done rest).length = done.length + rest := by
  simp [blankAfter]

@[simp] theorem zero (done : List Int) : blankAfter done 0 = done := by simp [blankAfter]

theorem set (done : List Int) (x : Int) (rest : Nat) : (blankAfter done (rest + 1)).set done.length x = blankAfter (done ++ [x]) rest := by
  simp [blankAfter, replicate_succ]

theorem skip (done : List Int) (rest : Nat) : blankAfter done (rest + 1) = blankAfter (done ++ [0]) rest := by
  simp [blankAfter, replicate_succ]

theorem overwrite (done xs : List Int) (rest : Nat) :
    Exec.overwrite (blankAfter done rest) done.length xs = blankAfter (done ++ xs) (rest - xs.length) := by
  rw [Exec.overwrite, blankAfter, blankAfter, take_left, drop_append, drop_replicate]
  simp

end blankAfter

namespace Scene

variable {σ : Scene} {s s' : OptimizeState} {emit : Emit} {m : StringMode} {v target place : Value} {cur done : List Int} {u w : Bool} {rest : Nat}

theorem Sound.writes_fill {op : Op} {cur' : List Int} (h : σ.Sound s) (hw : s.Writes op s') (ht : σ.Target s target cur u) (hr : op.result = none)
    (hlen : cur'.length = cur.length) (hstep : ∀ c p, σ.Reaches s c → c.env.val target = .ptr (some p) → c.store.str? p = some (cur, u) →
      ∃ store, c.step op = some ⟨c.env, store⟩ ∧ c.store.Puts p cur' u store) :
    σ.Sound s' ∧ σ.Later (some target) s s' ∧ σ.Target s' target cur' u := by
  have hexec : ∀ c, σ.Reaches s c → ∃ c', Executes (some target) op c c' := by
    intro c hc
    obtain ⟨p, -, hp, hs⟩ := ht.shows c hc
    obtain ⟨store, hs', hput⟩ := hstep c p hc hp hs
    refine ⟨_, hs', fun _ _ => rfl, fun r x hr hx => ?_, fun r hx => ?_⟩
    · exact (hput.str?_of_ne fun e => hr target rfl (by rw [e, hp])).trans hx
    · by_cases e : r = p
      · rw [e, hput.str?]
        exact Option.some_ne_none _
      · rwa [hput.str?_of_ne e]
  obtain ⟨hs', hl⟩ := h.writes hw ht.may (fun b hb => by cases hr.symm.trans hb) hexec
  refine ⟨hs', hl, hl.defined _ ht.defined, hl.canon ht.canon, hlen ▸ ht.short, fun c' hc' => ?_⟩
  obtain ⟨c, hc, he⟩ := (reaches_writes hw).1 hc'
  obtain ⟨p, hlock, hp, hs⟩ := ht.shows c hc
  obtain ⟨store, he', hput⟩ := hstep c p hc hp hs
  cases he.symm.trans he'
  exact ⟨p, hlock, hp, hput.str?⟩

theorem Does.fill {op : Op} (cur' : List Int) (he : Emits emit) (h : σ.Sound s) (ht : σ.Target s target cur u)
    (hcode : op.code.direct = true) (hr : op.result = none) (hargs : ∀ v ∈ op.args, s.Canon v) (hlen : cur'.length = cur.length)
    (hstep : ∀ c p, σ.Reaches s c → c.env.val target = .ptr (some p) → c.store.str? p = some (cur, u) →
      ∃ store, c.step op = some ⟨c.env, store⟩ ∧ c.store.Puts p cur' u store) :
    σ.Does (some target) (emit op) s fun _ s' => σ.Target s' target cur' u := by
  obtain ⟨s', e, hw⟩ := he s op hcode hargs
  exact ⟨(), s', e, h.writes_fill hw ht hr hlen hstep⟩

theorem setItem_does {ch : Value} {x : Int} (he : Emits emit) (h : σ.Sound s) (ht : σ.Target s target (blankAfter done (rest + 1)) u)
    (hplace : σ.Gives s place (.int done.length)) (hch : σ.Gives s ch (.int x)) (hx : Store.isScalar x = true) :
    σ.Does (some target) (emit { code := m.setitem, args := [target, place, ch] }) s fun _ s' =>
      σ.Target s' target (blankAfter (done ++ [x]) rest) u := by
  have hshort := ht.short
  rw [blankAfter.length_eq] at hshort
  refine .fill _ he h ht (by rcases m with ⟨_ | _⟩ <;> rfl) rfl (by simp [ht.canon, hplace.canon, hch.canon]) (by simp; omega)
    fun c p hc hp hs => ?_
  obtain ⟨store, e, hput⟩ := Config.step_setitem (m := m) hp hs (hplace.shows c hc) (hch.shows c hc)
  rw [toInt_ofInt_nat (by omega), Int.toNat_natCast, blankAfter.set, Config.toChar_ofInt hx] at hput
  exact ⟨store, e, hput⟩

variable {src first length : Value} {cs : List Int}

/-- What copying a part of a string gives: the place behind it, and the string with the part written. -/
def Copied (σ : Scene) (target : Value) (done part : List Int) (rest : Nat) (u : Bool) (v : Value) (s : OptimizeState) : Prop :=
  σ.Gives s v (.int (done ++ part).length) ∧ σ.Target s target (blankAfter (done ++ part) (rest - part.length)) u

section

variable {n k : Nat} (he : Emits emit) (hvalid : (Content.str cs w).Valid) (hn : k + n ≤ cs.length) (hrest : n ≤ rest) (h : σ.Sound s)
  (ht : σ.Target s target (blankAfter done rest) u) (hsrc : σ.Gives s src (.str cs w)) (hfirst : σ.Gives s first (.int k))
  (hplace : σ.Gives s place (.int done.length))
include he hvalid hn hrest h ht hsrc hfirst hplace

theorem copyChars_does :
    σ.Does (some target) (copyChars emit m src target n first place) s (σ.Copied target done ((cs.drop k).take n) rest u) := by
  induction n generalizing s k done rest first place with
  | zero =>
    refine .pure h ht.may ⟨?_, ?_⟩
    · simpa using hplace
    · simpa using ht
  | succ n ih =>
    obtain ⟨rest, rfl⟩ : ∃ r, rest = r + 1 := ⟨rest - 1, by omega⟩
    have hk : k < cs.length := by omega
    have hch : cs[k]? = some cs[k] := List.getElem?_eq_getElem hk
    have hscalar : Store.isScalar cs[k] = true := hvalid.2 _ (getElem_mem hk)
    have hpart : (cs.drop k).take (n + 1) = cs[k] :: (cs.drop (k + 1)).take n := by
      rw [drop_eq_getElem_cons hk, take_succ_cons]
    rw [hpart]
    refine ((readChar_does he h hsrc hfirst hvalid.1 hch .none).aside ht.may).bind fun ch s₁ hs₁ hl₁ hc => ?_
    obtain ⟨hn₁, hc, -⟩ := hc
    refine ((addLengths_does he hs₁ .none (hl₁.gives hfirst) (hs₁.gives_int 1)).aside hl₁.may).bind fun first s₂ hs₂ hl₂ hf => ?_
    obtain ⟨hn₂, hf⟩ := hf
    refine (setItem_does he hs₂ ((ht.later hn₁).later hn₂) (hl₂.gives (hl₁.gives hplace)) (hl₂.gives hc) hscalar).bind fun _ s₃ hs₃ hl₃ ht₃ => ?_
    refine ((addLengths_does he hs₃ .none (hl₃.gives (hl₂.gives (hl₁.gives hplace))) (hs₃.gives_int 1)).aside hl₃.may).bind
      fun place s₄ hs₄ hl₄ hp => ?_
    obtain ⟨hn₄, hp⟩ := hp
    refine (ih (k := k + 1) (by omega) (by omega) hs₄ (ht₃.later hn₄) (hl₄.gives (hl₃.gives (hl₂.gives (hl₁.gives hsrc))))
      (by simpa using hl₄.gives (hl₃.gives hf)) (by simpa using hp)).mono fun v s₅ _ _ hv => ?_
    simpa [Copied, Nat.add_sub_add_right] using hv

theorem copyContent_does (hlength : σ.Gives s length (.int n)) :
    σ.Does (some target) (copyContent emit m src target first place length true) s fun v s' =>
      ∃ p, v = some p ∧ σ.Copied target done ((cs.drop k).take n) rest u p s' := by
  have hcs := hvalid.1
  have copyAll : σ.Does (some target) (copyContent.copyAll emit m src target first place length true) s fun v s' =>
      ∃ p, v = some p ∧ σ.Copied target done ((cs.drop k).take n) rest u p s' := by
    have hshort := ht.short
    rw [blankAfter.length_eq] at hshort
    refine ((intAdd_does he h .none hplace hlength).aside ht.may).bind fun v s₁ hs₁ hl₁ hv => ?_
    obtain ⟨hn₁, p, rfl, hp⟩ := hv
    have hsrc₁ := hn₁.gives hsrc
    have hfirst₁ := hn₁.gives hfirst
    have hplace₁ := hn₁.gives hplace
    have hlength₁ := hn₁.gives hlength
    have htarget₁ := ht.later hn₁
    have hlen : ((cs.drop k).take n).length = n := by simp; omega
    refine (Does.fill (blankAfter (done ++ (cs.drop k).take n) (rest - n)) he hs₁ htarget₁
      (by rcases m with ⟨_ | _⟩ <;> rfl) rfl ?_ ?_ fun c p hc hp hs => ?_).bind fun _ s₂ hs₂ hl₂ ht₂ => ?_
    · simp [hsrc₁.canon, htarget₁.canon, hfirst₁.canon, hplace₁.canon, hlength₁.canon]
    · simp [hlen]
      omega
    · obtain ⟨store, e, hput⟩ := Config.step_copycontent (m := m) (hsrc₁.shows c hc) hp hs (hfirst₁.shows c hc) (hplace₁.shows c hc)
        (hlength₁.shows c hc)
      rw [toInt_ofInt_nat (by omega), toInt_ofInt_nat (by omega), toInt_ofInt_nat (by omega), Int.toNat_natCast, blankAfter.overwrite,
        StringFunction.part, Int.toNat_natCast, Int.toNat_natCast, hlen] at hput
      exact ⟨store, e, hput⟩
    · refine .pure hs₂ hl₂.may ⟨p, rfl, ?_, ?_⟩
      · simpa [hlen] using hl₂.gives hp
      · simpa [hlen] using ht₂
  obtain ⟨limit, hlimit⟩ : ∃ limit, unrollLimit src first s = .ok limit s := ⟨_, rfl⟩
  refine .look hlimit ?_
  split
  · rename_i l hl
    cases Value.of_int? hl
    split
    · have hword : l.toInt.toNat = n := by
        rw [hlength.int, toInt_ofInt_nat (by omega), Int.toNat_natCast]
      rw [hword]
      exact (copyChars_does he hvalid hn hrest h ht hsrc hfirst hplace).bind fun v s₂ hs₂ hl₂ hv => .pure hs₂ hl₂.may ⟨v, rfl, hv⟩
    · exact copyAll
  · exact copyAll

end

end Scene
end FlowCompiler.Trace
