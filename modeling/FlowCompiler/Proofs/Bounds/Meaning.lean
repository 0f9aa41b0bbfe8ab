import FlowCompiler.Proofs.Intervals
import FlowCompiler.Proofs.Outcome
import FlowCompiler.Proofs.Preserves
import FlowCompiler.Trace.Optimize.Bounds

/-!
# What the entries of the optimizer mean

Each entry of the optimizer stands for a constant of the run, each bound for a number that it is a bound of,
and each tagged operation for its operands.  A `Meaning` lists them; it grows with the state.  `Sound` says
that what the state holds is true of the run: entries describe their constants, bounds contain their numbers,
and the operations that the results come from are those of the run.

Two entries may share a bound, but then they stand for the same number: a bound keeps its number also when the
entry that it was made for has got another one.
-/

namespace FlowCompiler.Trace

open List Option

variable {op : Op} {c : Const} {n : Int64} {v : Value} {x : Bound} {i : InfoId} {b : BoundId} {f : Info → Info}

namespace Bounds

open OptimizeM

/-- What entries, bounds and tags stand for. -/
structure Meaning where
  entries : List Const
  bounds : List Int64
  tags : List (List Const)
  /-- The entries that are certainly known to be constants. -/
  consts : InfoId → Prop

namespace Meaning

instance : Preorder Meaning where
  le m m' := m.entries <+: m'.entries ∧ m.bounds <+: m'.bounds ∧ m.tags <+: m'.tags ∧ ∀ i, m.consts i → m'.consts i
  le_refl m := ⟨prefix_refl _, prefix_refl _, prefix_refl _, fun _ h => h⟩
  le_trans _ _ _ h h' := ⟨h.1.trans h'.1, h.2.1.trans h'.2.1, h.2.2.1.trans h'.2.2.1, fun i hi => h'.2.2.2 i (h.2.2.2 i hi)⟩

variable {m m' : Meaning}

/-- An entry stands for a constant. -/
def Entry (m : Meaning) (i : InfoId) (c : Const) : Prop := m.entries[i]? = some c

/-- A bound stands for a number. -/
def BoundOf (m : Meaning) (b : BoundId) (n : Int64) : Prop := m.bounds[b]? = some n

/-- An operation has no tag, or one that stands for its operands. -/
def Tagged (m : Meaning) (o : Outcome) (op : Op) : Prop := op.tag = 0 ∨ 0 < op.tag ∧ m.tags[op.tag - 1]? = some (op.args.map o.val)

theorem getElem?_of_isPrefix {α : Type} {xs ys : List α} {i : Nat} {x : α} (h : xs <+: ys) (hx : xs[i]? = some x) : ys[i]? = some x := by
  obtain ⟨zs, rfl⟩ := h
  rw [List.getElem?_append_left (List.getElem?_eq_some_iff.1 hx).1]
  exact hx

theorem getElem?_concat_cases {α : Type} {xs : List α} {i : Nat} {x y : α} (h : (xs ++ [x])[i]? = some y) :
    i = xs.length ∧ x = y ∨ i ≠ xs.length ∧ xs[i]? = some y := by
  by_cases hi : i = xs.length
  · rw [hi, List.getElem?_concat_length] at h
    exact .inl ⟨hi, some.inj h⟩
  · have hlt := (List.getElem?_eq_some_iff.1 h).1
    rw [length_append, length_singleton] at hlt
    exact .inr ⟨hi, by rwa [List.getElem?_append_left (Nat.lt_of_le_of_ne (Nat.lt_succ_iff.1 hlt) hi)] at h⟩

theorem Entry.mono (h : m ≤ m') (he : m.Entry i c) : m'.Entry i c := getElem?_of_isPrefix h.1 he

theorem BoundOf.mono (h : m ≤ m') (hb : m.BoundOf b n) : m'.BoundOf b n := getElem?_of_isPrefix h.2.1 hb

theorem Tagged.mono {o : Outcome} (h : m ≤ m') (ht : m.Tagged o op) : m'.Tagged o op :=
  ht.imp_right fun ht => ⟨ht.1, getElem?_of_isPrefix h.2.2.1 ht.2⟩

/-- With one more bound. -/
def withBound (m : Meaning) (n : Int64) : Meaning := { m with bounds := m.bounds ++ [n] }

/-- With one more entry. -/
def withEntry (m : Meaning) (c : Const) (const : Prop) : Meaning :=
  { m with entries := m.entries ++ [c], consts := fun i => m.consts i ∨ i = m.entries.length ∧ const }

/-- With one more tag. -/
def withTag (m : Meaning) (xs : List Const) : Meaning := { m with tags := m.tags ++ [xs] }

theorem le_withBound (m : Meaning) (n : Int64) : m ≤ m.withBound n := ⟨prefix_refl _, prefix_append _ _, prefix_refl _, fun _ h => h⟩

theorem le_withEntry (m : Meaning) (c : Const) (const : Prop) : m ≤ m.withEntry c const :=
  ⟨prefix_append _ _, prefix_refl _, prefix_refl _, fun _ h => .inl h⟩

theorem le_withTag (m : Meaning) (xs : List Const) : m ≤ m.withTag xs := ⟨prefix_refl _, prefix_refl _, prefix_append _ _, fun _ h => h⟩

end Meaning

/-- What an entry holds is true of the constant that it stands for. -/
structure Describes (o : Outcome) (m : Meaning) (x : Info) (c : Const) : Prop where
  plain : c.Plain
  virt : x.virt = none
  box : ∃ v, x.box = some v ∧ o.val v = c
  const : x.level = .constant → x.box = some (.const c)
  nonNull : x.level = .nonNull ∨ x.level = .knownClass → ∃ r, c = .ptr (some r)
  cls : ∀ k, x.cls = some k → ∃ r, c = .ptr (some r) ∧ o.classOf r = some k
  bound : ∀ b, x.bound = some b → m.BoundOf b c.num
  len : ∀ b, x.len = some b → m.BoundOf b (o.length c)

theorem Describes.mono {o : Outcome} {m m' : Meaning} {x : Info} (h : m ≤ m') (hd : Describes o m x c) : Describes o m' x c :=
  { hd with bound := fun b hb => (hd.bound b hb).mono h, len := fun b hb => (hd.len b hb).mono h }

/-- What a state holds is true of the run. -/
structure Sound (o : Outcome) (m : Meaning) (s : OptimizeState) : Prop where
  infos_size : s.infos.size = m.entries.length
  bounds_size : s.bounds.size = m.bounds.length
  tags_eq : s.tags = m.tags.length
  ids : ∀ v i, s.ids[v]? = some i → m.Entry i (o.val v)
  constIds : ∀ c i, s.ids[Value.const c]? = some i → m.consts i
  entry : ∀ i c, m.Entry i c → Describes o m (s.info i) c
  consts : ∀ i, m.consts i → (s.info i).level = .constant
  bound : ∀ b n, m.BoundOf b n → (s.bound b).Holds n
  bools : ∀ i ∈ s.bools, m.Entry i (.int 0) ∨ m.Entry i (.int 1)
  once : ∀ p ∈ s.invariants, ∃ c, m.Entry p.1 c ∧ m.Entry p.2 (o.once c)
  producers : ∀ b op, s.producers[b]? = some op → op.result = some b ∧ o.Obeys op ∧ o.Exact op ∧ m.Tagged o op
  written : ∀ t args, s.written[t]? = some args → m.tags[t - 1]? = some (args.map o.val)
  store : ∃ gs, s.store = { o.store with guards := gs }
  remembersPure : s.remembersPure = false

/-! ## Changes of the state that keep it sound -/

section State

variable {o : Outcome} {m : Meaning} {s : OptimizeState}

theorem Sound.lt_of_entry (h : Sound o m s) (he : m.Entry i c) : i < s.infos.size := by
  rw [h.infos_size]
  exact (List.getElem?_eq_some_iff.1 he).1

theorem info_modify {i j : InfoId} (hi : i < s.infos.size) :
    ({ s with infos := s.infos.modify i f } : OptimizeState).info j = if i = j then f (s.info j) else s.info j := by
  simp only [OptimizeState.info, Array.getElem?_modify]
  split
  · subst_vars
    simp [hi]
  · rfl

theorem Sound.modify_info (h : Sound o m s) (he : m.Entry i c) (hf : Describes o m (f (s.info i)) c)
    (hc : (s.info i).level = .constant → (f (s.info i)).level = .constant) : Sound o m { s with infos := s.infos.modify i f } := by
  have hi := h.lt_of_entry he
  refine { h with infos_size := ?_, entry := ?_, consts := ?_ }
  · simpa using h.infos_size
  · intro j d hd
    rw [info_modify hi]
    split
    · rename_i e
      subst e
      cases he.symm.trans hd
      exact hf
    · exact h.entry j d hd
  · intro j hj
    rw [info_modify hi]
    split
    · rename_i e
      subst e
      exact hc (h.consts _ hj)
    · exact h.consts j hj

theorem bound_push : ({ s with bounds := s.bounds.push x } : OptimizeState).bound b = if b = s.bounds.size then x else s.bound b := by
  simp only [OptimizeState.bound, Array.getElem?_push]
  split <;> rfl

theorem Sound.push_bound (h : Sound o m s) {b : Bound} (hb : b.Holds n) : Sound o (m.withBound n) { s with bounds := s.bounds.push b } := by
  refine { h with bounds_size := ?_, entry := ?_, bound := ?_ }
  · simp [Meaning.withBound, h.bounds_size]
  · exact fun i c he => (h.entry i c he).mono (m.le_withBound n)
  · intro j k hk
    rw [bound_push, h.bounds_size]
    rcases Meaning.getElem?_concat_cases hk with ⟨e, rfl⟩ | ⟨hne, hk⟩
    · rwa [if_pos e]
    · rw [if_neg hne]
      exact h.bound j k hk

theorem info_push {x : Info} : ({ s with infos := s.infos.push x } : OptimizeState).info i = if i = s.infos.size then x else s.info i := by
  simp only [OptimizeState.info, Array.getElem?_push]
  split <;> rfl

theorem Sound.push_info (h : Sound o m s) {x : Info} {const : Prop} (hx : Describes o m x c)
    (hc : const → x.level = .constant) : Sound o (m.withEntry c const) { s with infos := s.infos.push x } := by
  have hle := m.le_withEntry c const
  refine { h with infos_size := ?_, ids := ?_, constIds := ?_, entry := ?_, consts := ?_, bools := ?_, once := ?_ }
  · simp [Meaning.withEntry, h.infos_size]
  · exact fun v i hi => (h.ids v i hi).mono hle
  · exact fun v i hi => .inl (h.constIds v i hi)
  · intro i d hd
    rw [info_push, h.infos_size]
    rcases Meaning.getElem?_concat_cases hd with ⟨e, rfl⟩ | ⟨hne, hd⟩
    · rw [if_pos e]
      exact hx.mono hle
    · rw [if_neg hne]
      exact (h.entry i d hd).mono hle
  · intro i hi
    rw [info_push, h.infos_size]
    split
    · rename_i e
      rcases hi with hi | hi
      · -- an entry that does not exist yet has the level of the default entry
        have := h.consts i hi
        rw [OptimizeState.info, Array.getElem?_eq_none (Nat.le_of_eq (by rw [h.infos_size, e]))] at this
        cases this
      · exact hc hi.2
    · rename_i hne
      exact h.consts i (hi.resolve_right fun hi => hne hi.1)
  · intro i hi
    exact (h.bools i hi).imp (·.mono hle) (·.mono hle)
  · intro p hp
    obtain ⟨d, h1, h2⟩ := h.once p hp
    exact ⟨d, h1.mono hle, h2.mono hle⟩

theorem Sound.insert_id (h : Sound o m s) (he : m.Entry i (o.val v))
    (hc : ∀ c, v = .const c → m.consts i) : Sound o m { s with ids := s.ids.insert v i } := by
  refine { h with ids := ?_, constIds := ?_ }
  · intro u j hj
    rw [Std.HashMap.getElem?_insert] at hj
    split at hj
    · rename_i e
      cases hj
      rw [← eq_of_beq e]
      exact he
    · exact h.ids u j hj
  · intro c j hj
    rw [Std.HashMap.getElem?_insert] at hj
    split at hj
    · rename_i e
      cases hj
      exact hc c (eq_of_beq e)
    · exact h.constIds c j hj

theorem Sound.set_bound (h : Sound o m s) (hb : m.BoundOf b n) (hx : x.Holds n) : Sound o m { s with bounds := s.bounds.setIfInBounds b x } := by
  refine { h with bounds_size := by simpa using h.bounds_size, bound := ?_ }
  intro j k hk
  have hbk := h.bound j k hk
  simp only [OptimizeState.bound, Array.getElem?_setIfInBounds] at hbk ⊢
  split
  · rename_i e
    subst e
    cases hb.symm.trans hk
    split
    · exact hx
    · rw [Array.getElem?_eq_none (by omega)] at hbk
      exact hbk
  · exact hbk

end State

end Bounds

/-! ## Finding and changing entries

What the operations on entries and bounds ensure in a sound state: the entry of a value stands for the value,
the bound of an entry is one of its number, and a constant that is found is the one of the run.
-/

namespace Bounds

open OptimizeM

variable {o : Outcome} {m : Meaning}

/-! ### Entries -/

theorem newBound_spec {b : Bound} (h : b.Holds n) : Preserves (Sound o) m (newBound b) fun i m' => m'.BoundOf i n := by
  refine .modifyGet fun s hs => ⟨m.withBound n, m.le_withBound n, hs.push_bound h, ?_⟩
  rw [Meaning.BoundOf, hs.bounds_size]
  exact getElem?_concat_length

theorem newInfo_spec {x : Info} (h : Describes o m x c) :
    Preserves (Sound o) m (newInfo x) fun i m' => m'.Entry i c ∧ (x.level = .constant → m'.consts i) := by
  refine .modifyGet fun s hs => ⟨m.withEntry c (x.level = .constant), m.le_withEntry _ _, hs.push_info h id, ?_, fun hc => .inr ⟨hs.infos_size, hc⟩⟩
  rw [Meaning.Entry, hs.infos_size]
  exact getElem?_concat_length

theorem update_spec (he : m.Entry i c) (hf : ∀ x, Describes o m x c → Describes o m (f x) c ∧ (x.level = .constant → (f x).level = .constant)) :
    Safe (Sound o) m (update i f) :=
  .modify fun s hs =>
    have h := hf (s.info i) (hs.entry i c he)
    ⟨m, le_refl m, hs.modify_info he h.1 h.2, trivial⟩

theorem info_spec (he : m.Entry i c) : Preserves (Sound o) m (info i) fun x m' => Describes o m' x c ∧ (m.consts i → x.level = .constant) :=
  .get fun _ hs => .pure ⟨hs.entry i c he, hs.consts i⟩

theorem describe_spec (hp : (o.val v).Plain) : Preserves (Sound o) m (describe v) fun x m' =>
      Describes o m' x (o.val v) ∧ ∀ c, v = .const c → x.level = .constant := by
  have basic (m : Meaning) : Describes o m { box := some v, key := v } (o.val v) :=
    { plain := hp, virt := rfl, box := ⟨v, rfl, rfl⟩, const := by simp, nonNull := by simp, cls := by simp,
      bound := by simp, len := by simp }
  unfold describe
  split
  · rename_i n
    refine (newBound_spec (Bound.holds_exactly n)).bind fun b m' _ hb => .pure ⟨?_, fun _ _ => rfl⟩
    exact { basic m' with const := fun _ => rfl, nonNull := by simp, bound := fun _ e => some.inj e ▸ hb }
  · exact .pure ⟨{ basic m with const := fun _ => rfl, nonNull := by simp }, fun _ _ => rfl⟩
  · rename_i p
    refine .get fun s hs => .pure ⟨?_, fun _ _ => rfl⟩
    refine { basic m with const := fun _ => rfl, nonNull := by simp, cls := ?_ }
    intro k hk
    obtain ⟨r, rfl, hr⟩ := bind_eq_some_iff.1 hk
    obtain ⟨gs, e⟩ := hs.store
    rw [e] at hr
    exact ⟨r, rfl, o.classOf_store r k hr⟩
  · rename_i b
    refine .ite (fun _ => ?_) fun _ => .pure ⟨basic m, by simp⟩
    refine (newBound_spec (Bound.holds_unbounded (o.value b).num)).bind fun b m' _ hb => .pure ⟨?_, by simp⟩
    exact { basic m' with bound := fun _ e => some.inj e ▸ hb }

theorem key?_eq {v k : Value} (hp : (o.val v).Plain) (h : v.key? = some k) : k = v := by
  rcases v with b | c | d | p <;> simp only [Value.key?, some.injEq] at h
  · exact h.symm
  · exact h.symm
  · split at h
    · cases h
    · split at h
      · rename_i hz
        cases h
        rw [hp d rfl hz]
      · cases h
        rfl
  · exact h.symm

theorem Sound.entry_of_id? {s : OptimizeState} (h : Sound o m s) (hp : (o.val v).Plain)
    (hi : s.id? v = some i) : m.Entry i (o.val v) ∧ ∀ c, v = .const c → m.consts i := by
  obtain ⟨k, hk, hids⟩ := bind_eq_some_iff.1 hi
  obtain rfl := key?_eq hp hk
  exact ⟨h.ids _ _ hids, fun c e => h.constIds c i (e ▸ hids)⟩

theorem idOf_spec (hp : (o.val v).Plain) : Preserves (Sound o) m (idOf v) fun i m' => m'.Entry i (o.val v) ∧ ∀ c, v = .const c → m'.consts i := by
  refine .get fun s hs => ?_
  split
  · rename_i i hi
    exact .pure (hs.entry_of_id? hp hi)
  · refine (describe_spec hp).bind fun x m₁ h₁ hx => ?_
    refine (newInfo_spec hx.1).bind fun i m₂ h₂ hi => ?_
    have hc : ∀ c, v = .const c → m₂.consts i := fun c e => hi.2 (hx.2 c e)
    split
    · rename_i k hk
      obtain rfl := key?_eq hp hk
      refine .bind (.modify fun s hs => ⟨m₂, le_refl _, hs.insert_id hi.1 hc, trivial⟩) fun _ m₃ h₃ (_ : True) => ?_
      exact .pure ⟨hi.1.mono h₃, fun c e => h₃.2.2.2 i (hc c e)⟩
    · exact .pure ⟨hi.1, hc⟩

theorem args_spec {β : Type} {f : InfoId → InfoId → OptimizeM β} {R : β → Meaning → Prop} (h : o.Obeys op)
    (hf : ∀ x y m', m ≤ m' → (m'.Entry x (o.val (op.arg 0)) ∧ ∀ c, op.arg 0 = .const c → m'.consts x) →
      (m'.Entry y (o.val (op.arg 1)) ∧ ∀ c, op.arg 1 = .const c → m'.consts y) → Preserves (Sound o) m' (f x y) R) :
    Preserves (Sound o) m (do let x ← idOf (op.arg 0); f x (← idOf (op.arg 1))) R :=
  (idOf_spec (h.plain_arg 0)).bind fun x _ h₁ hx => (idOf_spec (h.plain_arg 1)).bind fun y m' h' hy =>
    hf x y m' (le_trans h₁ h') ⟨hx.1.mono h', fun c e => h'.2.2.2 x (hx.2 c e)⟩ hy

theorem idOf_box_spec (b : Box) : Preserves (Sound o) m (idOf (.box b)) fun i m' => m'.Entry i (o.value b) :=
  (idOf_spec (v := .box b) (o.plain_value b)).mono fun _ _ _ h => h.1

theorem infoOf_spec (hp : (o.val v).Plain) :
    Preserves (Sound o) m (infoOf v) fun x m' => Describes o m' x (o.val v) ∧ ∀ c, v = .const c → x.level = .constant :=
  (idOf_spec hp).bind fun _ _ _ hi => (info_spec hi.1).mono fun _ _ _ h => ⟨h.1, fun c e => h.2 (hi.2 c e)⟩

theorem Describes.eq_of_constInt? {x : Info} (h : Describes o m x c) (hn : x.constInt? = some n) : c = .int n := by
  unfold Info.constInt? at hn
  split at hn
  · rename_i hc
    rw [h.const (by simpa [Info.isConst] using hc)] at hn
    rcases c with k | d | p <;> simp_all [Value.int?, Const.int?]
  · cases hn

theorem constIntOf_spec (hp : (o.val v).Plain) : Preserves (Sound o) m (constIntOf v) fun n _ => ∀ k, n = some k → o.val v = .int k :=
  (infoOf_spec hp).bind fun _ _ _ hx => .pure fun _ hk => hx.1.eq_of_constInt? hk

theorem setEqual_spec {b : Option Box} (he : m.Entry i c) (h : ∀ r ∈ b, o.value r = c) : Safe (Sound o) m (setEqual b i) := by
  unfold setEqual
  split
  · rename_i r
    obtain rfl := h r rfl
    exact .modify fun s hs => ⟨m, le_refl m, hs.insert_id he (by simp), trivial⟩
  · exact .pure trivial

theorem resultId_spec {r : Box} (h : op.result = some r) : Preserves (Sound o) m (resultId op) fun i m' => m'.Entry i (o.value r) := by
  rw [resultId, h]
  exact idOf_box_spec r

theorem becomeConst_spec (he : m.Entry i c) : Safe (Sound o) m (becomeConst i (some (.const c))) := by
  have hconst : ∀ x, Describes o m x c → Describes o m { x with box := some (.const c), level := .constant, virt := none } c ∧
        (x.level = .constant → Level.constant = .constant) := fun x hx =>
    ⟨{ hx with virt := rfl, box := ⟨.const c, rfl, rfl⟩, const := fun _ => rfl, nonNull := by simp }, fun _ => rfl⟩
  refine (update_spec he hconst).bind fun _ m₁ h₁ _ => ?_
  split
  · rename_i n e
    cases e
    refine (newBound_spec (Bound.holds_exactly n)).bind fun b m₂ h₂ hb => ?_
    refine update_spec ((he.mono h₁).mono h₂) fun x hx => ⟨{ hx with bound := ?_ }, id⟩
    exact fun _ e => some.inj e ▸ hb
  · rename_i r e
    cases e
    refine .get fun s hs => ?_
    obtain ⟨gs, es⟩ := hs.store
    refine .ite (fun _ => ?_) fun _ => .pure trivial
    refine update_spec (he.mono h₁) fun x hx => ⟨{ hx with cls := ?_ }, id⟩
    intro k hk
    rw [es] at hk
    exact ⟨r, rfl, o.classOf_store r k hk⟩
  · exact .pure trivial

theorem setConst_spec {b : Option Box} (h : ∀ r ∈ b, o.value r = c) : Safe (Sound o) m (setConst b (some (.const c))) := by
  unfold setConst
  split
  · exact .pure trivial
  · rename_i r
    have hr : o.value r = c := h r rfl
    have hp : (o.val (.const c)).Plain := hr ▸ o.plain_value r
    have hequal (m : Meaning) : Safe (Sound o) m (do setEqual (some r) (← idOf (.const c))) :=
      (idOf_spec hp).bind fun i m' _ hi => setEqual_spec hi.1 (by simpa using hr)
    refine .get fun s hs => ?_
    split
    · rename_i i hi
      refine .ite (fun _ => ?_) fun _ => hequal m
      have he : m.Entry i (o.value r) := hs.ids _ _ hi
      exact becomeConst_spec (hr ▸ he)
    · exact hequal m

theorem setConstInt_spec {b : Option Box} (h : ∀ r ∈ b, o.value r = .int n) : Safe (Sound o) m (setConstInt b n) := setConst_spec h

theorem ensureNonNull_spec {r : Ref} (he : m.Entry i (.ptr (some r))) : Safe (Sound o) m (ensureNonNull i) := by
  refine update_spec he fun x hx => ?_
  unfold Info.withNonNull
  split
  · rename_i hr
    exact ⟨{ hx with const := by simp, nonNull := fun _ => ⟨r, rfl⟩ }, fun e => by simp [e, Level.rank] at hr⟩
  · exact ⟨hx, id⟩

theorem withClass_spec {r k : Ref} (he : m.Entry i (.ptr (some r))) (hk : o.classOf r = some k) :
    Safe (Sound o) m (update i fun x => x.withClass k) := by
  refine update_spec he fun x hx => ?_
  unfold Info.withClass
  split
  · rename_i hr
    refine ⟨{ hx with const := by simp, nonNull := fun _ => ⟨r, rfl⟩, cls := ?_ }, fun e => by simp [e, Level.rank] at hr⟩
    exact fun _ e => some.inj e ▸ ⟨r, rfl, hk⟩
  · exact ⟨hx, id⟩

/-! ### Bounds -/

theorem getBound_spec (hb : m.BoundOf b n) : Preserves (Sound o) m (getBound b) fun x _ => x.Holds n := .get fun _ hs => .pure (hs.bound b n hb)

theorem boundId_spec (he : m.Entry i c) : Preserves (Sound o) m (boundId i) fun b m' => m'.BoundOf b c.num := by
  refine (info_spec he).bind fun x m₁ h₁ hx => ?_
  split
  · rename_i b hb
    exact .pure (hx.1.bound b hb)
  · refine (newBound_spec (Bound.holds_unbounded c.num)).bind fun b m₂ h₂ hb => ?_
    refine .bind (update_spec ((he.mono h₁).mono h₂) fun x hx => ⟨{ hx with bound := fun _ e => some.inj e ▸ hb }, id⟩) fun _ m₃ h₃ _ => ?_
    exact .pure (hb.mono h₃)

theorem boundOf_spec (he : m.Entry i c) : Preserves (Sound o) m (boundOf i) fun x _ => x.Holds c.num :=
  (boundId_spec he).bind fun _ _ _ hb => getBound_spec hb

theorem lenId_spec (he : m.Entry i c) : Preserves (Sound o) m (lenId i) fun b m' => m'.BoundOf b (o.length c) := by
  refine (info_spec he).bind fun x m₁ h₁ hx => ?_
  split
  · rename_i b hb
    exact .pure (hx.1.len b hb)
  · have hpos : (Bound.atLeast 0).Holds (o.length c) := Bound.holds_atLeast (by simpa [Int64.le_iff_toInt_le] using o.length_nonneg c)
    refine (newBound_spec hpos).bind fun b m₂ h₂ hb => ?_
    refine .bind (update_spec ((he.mono h₁).mono h₂) fun x hx => ⟨{ hx with len := fun _ e => some.inj e ▸ hb }, id⟩) fun _ m₃ h₃ _ => ?_
    exact .pure (hb.mono h₃)

theorem tighten_spec {f : Bound → Bound × Bool} (hb : m.BoundOf b n)
    (hf : ∀ x : Bound, x.Holds n → (f x).1.Holds n) : Safe (Sound o) m (tighten b f) := by
  refine (getBound_spec hb).bind fun x m₁ h₁ hx => ?_
  refine .bind (.modify fun s hs => ⟨m₁, le_refl _, hs.set_bound (hb.mono h₁) (hf x hx), trivial⟩) fun _ _ _ (_ : True) => .pure trivial

theorem intersect_spec (hb : m.BoundOf b n) (hx : x.Holds n) : Safe (Sound o) m (tighten b fun c => c.intersect x) :=
  tighten_spec hb fun _ hc => Bound.holds_intersect hc hx

theorem makeLt_spec {n k : Int64} (hb : m.BoundOf b n) (hx : x.Holds k) (h : n < k) : Safe (Sound o) m (tighten b fun c => c.makeLt x) :=
  tighten_spec hb fun _ hc => Bound.holds_makeLt hc hx h

theorem makeGt_spec {n k : Int64} (hb : m.BoundOf b n) (hx : x.Holds k) (h : k < n) : Safe (Sound o) m (tighten b fun c => c.makeGt x) :=
  tighten_spec hb fun _ hc => Bound.holds_makeGt hc hx h

theorem makeGe_spec (hb : m.BoundOf b n) (hx : ∀ lo ∈ x.lower, lo ≤ n) : Safe (Sound o) m (tighten b fun c => c.makeGe x) :=
  tighten_spec hb fun _ hc => Bound.holds_makeGe hc hx

theorem of_spec (hp : (o.val v).Plain) : Preserves (Sound o) m (Bounds.of v) fun b m' => m'.BoundOf b (o.val v).num :=
  (idOf_spec hp).bind fun _ _ _ hi => boundId_spec hi.1

theorem ofResult_spec {r : Box} (h : op.result = some r) : Preserves (Sound o) m (ofResult op) fun b m' => m'.BoundOf b (o.value r).num :=
  (resultId_spec h).bind fun _ _ _ hi => boundId_spec hi

/-! ### Operations -/

theorem tagged_spec (op : Op) : Preserves (Sound o) m (tagged op) fun op' m' =>
    m'.Tagged o op' ∧ ∃ t, op' = { op with tag := t } := by
  refine .modifyGet fun s hs => ⟨m.withTag (op.args.map o.val), m.le_withTag _, ?_, ?_, _, rfl⟩
  · refine { hs with tags_eq := ?_, entry := ?_, producers := ?_, written := ?_ }
    · simp [Meaning.withTag, hs.tags_eq]
    · exact fun i c he => (hs.entry i c he).mono (m.le_withTag _)
    · intro b p hb
      obtain ⟨h1, h2, h3, h4⟩ := hs.producers b p hb
      exact ⟨h1, h2, h3, h4.mono (m.le_withTag _)⟩
    · exact fun t args ht => Meaning.getElem?_of_isPrefix (prefix_append _ _) (hs.written t args ht)
  · right
    simp [Meaning.withTag, hs.tags_eq]

theorem current_spec (ht : m.Tagged o op) : Preserves (Sound o) m (current op) fun op' _ =>
    ∃ args, args.map o.val = op.args.map o.val ∧ op' = { op with args } := by
  refine .ite (fun _ => .pure ⟨op.args, rfl, rfl⟩) fun h0 => .get fun s hs => ?_
  split
  · rename_i args hw
    have := (ht.resolve_left h0).2.symm.trans (hs.written _ _ hw)
    exact .pure ⟨args, (some.inj this).symm, rfl⟩
  · exact .pure ⟨op.args, rfl, rfl⟩

theorem current_keeps (op : Op) : Safe (Sound o) m (current op) := by
  refine .ite (fun _ => .pure trivial) fun _ => .get fun s hs => ?_
  split
  · exact .pure trivial
  · exact .pure trivial

theorem rememberPure_spec {code : Opcode} {args : List Value} : Safe (Sound o) m (rememberPure code args v) := by
  refine .get fun s hs => .ite (fun h => ?_) fun _ => .pure trivial
  rw [hs.remembersPure] at h
  cases h

end Bounds
end FlowCompiler.Trace

/-! ## Bounds that flow backwards

When the bound of a value gets tighter, the bounds of what the value was computed from may do so too.  Every
rule for this is true as long as the operation it goes back through is exact: if `r = a + b` without wrapping
around, then `a = r - b`, and a bound of `r - b` is a bound of `a`. -/

namespace FlowCompiler.Trace.Bounds

open OptimizeM

variable {o : Outcome} {m : Meaning} {goOn : Value → OptimizeM Unit}

/-- Going on from a value keeps the state sound. -/
def GoesOn (o : Outcome) (goOn : Value → OptimizeM Unit) : Prop := ∀ m v, (o.val v).Plain → Safe (Sound o) m (goOn v)

theorem narrow_spec (hgo : GoesOn o goOn) {v : Value} {b : BoundId} {n : Int64} {f : Bound → Bound × Bool} (hp : (o.val v).Plain) (hb : m.BoundOf b n)
    (hf : ∀ x : Bound, x.Holds n → (f x).1.Holds n) : Safe (Sound o) m (narrow goOn v b f) :=
  (tighten_spec hb hf).bind fun _ _ _ _ => .ite (fun _ => hgo _ _ hp) fun _ => .pure trivial

/-! ### Comparisons -/

section Comparisons

variable {a b : Value}

section

variable (hgo : GoesOn o goOn) (ha : (o.val a).Plain) (hb : (o.val b).Plain)
include hgo ha hb

theorem narrowBoth_spec {f g : Bound → Bound → Bound × Bool} (hf : ∀ x y : Bound, x.Holds (o.val a).num → y.Holds (o.val b).num → (f x y).1.Holds
    (o.val a).num) (hg : ∀ x y : Bound, x.Holds (o.val a).num → y.Holds (o.val b).num → (g y x).1.Holds (o.val b).num) : Safe (Sound o) m (do
      let x ← Bounds.of a
      let y ← Bounds.of b
      let bound ← getBound y
      narrow goOn a x fun c => f c bound
      let bound ← getBound x
      narrow goOn b y fun c => g c bound) := by
  refine (of_spec ha).bind fun x m₁ h₁ hx => ?_
  refine (of_spec hb).bind fun y m₂ h₂ hy => ?_
  refine (getBound_spec hy).bind fun by' m₃ h₃ hby => ?_
  refine (narrow_spec hgo ha ((hx.mono h₂).mono h₃) fun c hc => hf c by' hc hby).bind fun _ m₄ h₄ _ => ?_
  refine (getBound_spec (((hx.mono h₂).mono h₃).mono h₄)).bind fun bx m₅ h₅ hbx => ?_
  exact narrow_spec hgo hb (((hy.mono h₃).mono h₄).mono h₅) fun c hc => hg bx c hbx hc

theorem assumeLt_spec (h : (o.val a).num < (o.val b).num) : Safe (Sound o) m (assumeLt goOn a b) :=
  narrowBoth_spec hgo ha hb (fun _ _ hx hy => Bound.holds_makeLt hx hy h) fun _ _ hx hy => Bound.holds_makeGt hy hx h

theorem assumeLe_spec (h : (o.val a).num ≤ (o.val b).num) : Safe (Sound o) m (assumeLe goOn a b) :=
  narrowBoth_spec hgo ha hb (fun _ _ hx hy => Bound.holds_makeLe hx fun hi hh => Int64.le_trans h (hy.2 hi hh))
    fun _ _ hx hy => Bound.holds_makeGe hy fun lo hl => Int64.le_trans (hx.1 lo hl) h

theorem assumeEq_spec (h : (o.val a).num = (o.val b).num) : Safe (Sound o) m (assumeEq goOn a b) :=
  narrowBoth_spec hgo ha hb (fun _ _ hx hy => Bound.holds_intersect hx (h ▸ hy)) fun _ _ hx hy => Bound.holds_intersect hy (h ▸ hx)

end

end Comparisons

section Operations

variable {op : Op}

theorem assumeZeroTest_spec (hgo : GoesOn o goOn) (h : o.Obeys op) {nonzero : Bool} (hz : (o.val (op.arg 0)).num = 0 ↔ nonzero = false) :
    Safe (Sound o) m (assumeZeroTest goOn op nonzero) := by
  have hp := h.plain_arg 0
  refine (of_spec hp).bind fun b m₁ h₁ hb => .ite (fun hn => ?_) fun hn => ?_
  · refine (getBound_spec hb).bind fun x m₂ h₂ hx => .ite (fun hge => ?_) fun _ => .pure trivial
    -- a number that is neither negative nor zero
    have hpos : (0 : Int64) < (o.val (op.arg 0)).num := by
      have hne : (o.val (op.arg 0)).num ≠ 0 := fun e => by simp [hz.1 e] at hn
      have hle : (0 : Int64) ≤ (o.val (op.arg 0)).num := Bound.le_of_knownLe hge (Bound.holds_exactly 0) hx
      exact Int64.lt_of_le_of_ne hle hne.symm
    exact (makeGt_spec (hb.mono h₂) (Bound.holds_exactly 0) hpos).bind fun _ _ _ _ => hgo _ _ hp
  · have hzero : (o.val (op.arg 0)).num = 0 := hz.2 (by simpa using hn)
    rw [hzero] at hb
    refine (makeGe_spec hb (Bound.holds_exactly 0).1).bind fun _ m₂ h₂ _ => ?_
    exact (makeLt_spec (hb.mono h₂) (Bound.holds_exactly 1) (by decide)).bind fun _ _ _ _ => hgo _ _ hp

theorem narrowBy_spec (hgo : GoesOn o goOn) {f : Bound → Bound → Bound → Option Bound} {x y r i : BoundId} {a b c n : Int64} {v : Value}
    (hx : m.BoundOf x a) (hy : m.BoundOf y b) (hr : m.BoundOf r c) (hi : m.BoundOf i n) (hv : (o.val v).Plain)
    (hf : ∀ x y z : Bound, x.Holds a → y.Holds b → z.Holds c → ∀ d ∈ f x y z, d.Holds n) : Safe (Sound o) m (do
      match f (← getBound x) (← getBound y) (← getBound r) with
      | some d => narrow goOn v i fun t => t.intersect d
      | none => pure ()) := by
  refine (getBound_spec hx).bind fun bx m₁ h₁ hbx => ?_
  refine (getBound_spec (hy.mono h₁)).bind fun by' m₂ h₂ hby => ?_
  refine (getBound_spec ((hr.mono h₁).mono h₂)).bind fun bz m₃ h₃ hbz => ?_
  split
  · rename_i d hd
    exact narrow_spec hgo hv (((hi.mono h₁).mono h₂).mono h₃) fun t ht => Bound.holds_intersect ht (hf bx by' bz hbx hby hbz d hd)
  · exact .pure trivial

theorem assumeArith_spec (hgo : GoesOn o goOn) (h : o.Obeys op) {r : Box} (hr : op.result = some r)
    {first second : Bound → Bound → Bound → Option Bound} (hfirst : ∀ x y z : Bound, x.Holds (o.val (op.arg 0)).num → y.Holds (o.val (op.arg 1)).num →
      z.Holds (o.value r).num → ∀ b ∈ first x y z, b.Holds (o.val (op.arg 0)).num) (hsecond : ∀ x y z : Bound, x.Holds (o.val (op.arg 0)).num →
      y.Holds (o.val (op.arg 1)).num → z.Holds (o.value r).num → ∀ b ∈ second x y z, b.Holds (o.val (op.arg 1)).num) :
    Safe (Sound o) m (assumeArith goOn op first second) := by
  refine (of_spec (h.plain_arg 0)).bind fun x m₁ h₁ hx => ?_
  refine (of_spec (h.plain_arg 1)).bind fun y m₂ h₂ hy => ?_
  refine (ofResult_spec hr).bind fun z m₃ h₃ hz => ?_
  replace hx := (hx.mono h₂).mono h₃
  replace hy := hy.mono h₃
  refine (getBound_spec hx).bind fun bx m₄ h₄ hbx => ?_
  refine (getBound_spec (hy.mono h₄)).bind fun by' m₅ h₅ hby => ?_
  refine (getBound_spec ((hz.mono h₄).mono h₅)).bind fun bz m₆ h₆ hbz => ?_
  have hm : m₃ ≤ m₆ := le_trans h₄ (le_trans h₅ h₆)
  split
  · rename_i d hd
    refine (narrow_spec hgo (h.plain_arg 0) (hx.mono hm) fun c hc =>
      Bound.holds_intersect hc (hfirst bx by' bz hbx hby hbz d hd)).bind fun _ m₇ h₇ _ => ?_
    -- the three bounds are read anew for the second argument
    have hm' := le_trans hm h₇
    exact narrowBy_spec hgo (hx.mono hm') (hy.mono hm') (hz.mono hm') (hy.mono hm') (h.plain_arg 1) hsecond
  · exact narrowBy_spec hgo (hx.mono hm) (hy.mono hm) (hz.mono hm) (hy.mono hm) (h.plain_arg 1) hsecond

/-! ### Going back -/

section Arithmetic

variable {r : Box}

section

variable (hgo : GoesOn o goOn) (h : o.Obeys op) (he : o.Exact op) (hr : op.result = some r)
include hgo h he hr

theorem assumeSum_spec (hc : op.code = .intAdd ∨ op.code = .intAddOvf) :
    Safe (Sound o) m (assumeArith goOn op (fun _ y r => some (r.sub y)) (fun x _ r => some (r.sub x))) := by
  have e := h.toInt_add he hr hc
  refine assumeArith_spec hgo h hr ?_ ?_
  · rintro x y z hx hy hz b ⟨⟩
    exact Bound.holds_sub hz hy (by omega)
  · rintro x y z hx hy hz b ⟨⟩
    exact Bound.holds_sub hz hx (by omega)

theorem assumeDifference_spec (hc : op.code = .intSub ∨ op.code = .intSubOvf) :
    Safe (Sound o) m (assumeArith goOn op (fun _ y r => some (r.add y)) (fun x _ r => some (x.sub r))) := by
  have e := h.toInt_sub he hr hc
  refine assumeArith_spec hgo h hr ?_ ?_
  · rintro x y z hx hy hz b ⟨⟩
    exact Bound.holds_add hz hy (by omega)
  · rintro x y z hx hy hz b ⟨⟩
    exact Bound.holds_sub hx hz (by omega)

theorem assumeProduct_spec (hc : op.code = .intMul ∨ op.code = .intMulOvf) :
    Safe (Sound o) m (assumeArith goOn op (fun _ y r => some (r.div y)) (fun x _ r => some (r.div x))) := by
  have e := h.toInt_mul he hr hc
  have hne {n : Int64} (hn : n ≠ 0) : n.toInt ≠ 0 := fun e => hn (Int64.toInt_inj.1 (e.trans Int64.toInt_zero.symm))
  refine assumeArith_spec hgo h hr ?_ ?_
  · rintro x y z hx hy hz b ⟨⟩
    refine Bound.holds_div hz hy fun hn => .inl ?_
    rw [e, Int.mul_tdiv_cancel _ (hne hn)]
  · rintro x y z hx hy hz b ⟨⟩
    refine Bound.holds_div hz hx fun hn => .inl ?_
    rw [e, Int.mul_tdiv_cancel_left _ (hne hn)]

end

end Arithmetic

theorem eq_one_iff_of_ofBool {t : Bool} {n : Int64} (h : Const.ofBool t = .int n) : (n = 1 ↔ t = true) ∧ (n = 0 ↔ t = false) := by
  cases t <;> cases h <;> decide

theorem decided_spec {known : Option Int64} {x : Const} {t : Bool} {p q : OptimizeM Unit} (hk : ∀ k, known = some k → x = .int k) (ht : x = .ofBool t)
    (hp : t = true → Safe (Sound o) m p) (hq : t = false → Safe (Sound o) m q) : Safe (Sound o) m (match known with
      | some n => if n = 1 then p else q
      | none => pure ()) := by
  split
  · rename_i n
    have he := eq_one_iff_of_ofBool (ht.symm.trans (hk n rfl))
    exact Preserves.ite (fun h1 => hp (he.1.1 h1)) fun h1 => hq (by simpa using fun e => h1 (he.1.2 e))
  · exact .pure trivial

theorem assumeResult_spec (hgo : GoesOn o goOn) (h : o.Obeys op) (he : o.Exact op) {r : Box} (hr : op.result = some r) :
    Safe (Sound o) m (assumeResult goOn op) := by
  unfold assumeResult
  rw [if_pos (by simp [hr])]
  refine (resultId_spec hr).bind fun i m₀ _ hi => (info_spec hi).bind fun x m₁ _ hx => ?_
  have hk : ∀ k, x.constInt? = some k → o.value r = .int k := fun k => hx.1.eq_of_constInt?
  rw [pure_bind]
  generalize x.constInt? = known at hk ⊢
  have ha := h.plain_arg 0
  have hb := h.plain_arg 1
  split
  · rename_i hc
    exact decided_spec hk (h.value_eq hr (hc ▸ rfl)) (fun t => assumeLt_spec hgo ha hb (of_decide_eq_true t))
      fun t => assumeLe_spec hgo hb ha (Int64.not_lt.1 (of_decide_eq_false t))
  · rename_i hc
    exact decided_spec hk (h.value_eq hr (hc ▸ rfl)) (fun t => assumeLt_spec hgo hb ha (of_decide_eq_true t))
      fun t => assumeLe_spec hgo ha hb (Int64.not_lt.1 (of_decide_eq_false t))
  · rename_i hc
    exact decided_spec hk (h.value_eq hr (hc ▸ rfl)) (fun t => assumeLe_spec hgo ha hb (of_decide_eq_true t))
      fun t => assumeLt_spec hgo hb ha (Int64.not_le.1 (of_decide_eq_false t))
  · rename_i hc
    exact decided_spec hk (h.value_eq hr (hc ▸ rfl)) (fun t => assumeLe_spec hgo hb ha (of_decide_eq_true t))
      fun t => assumeLt_spec hgo ha hb (Int64.not_le.1 (of_decide_eq_false t))
  · rename_i hc
    refine .ite (fun e => assumeEq_spec hgo ha hb ?_) fun _ => .pure trivial
    have ht : o.value r = .ofBool ((o.val (op.arg 0)).num == (o.val (op.arg 1)).num) := h.value_eq hr (hc ▸ rfl)
    exact eq_of_beq ((eq_one_iff_of_ofBool (ht.symm.trans (hk 1 e))).1.1 rfl)
  · rename_i hc
    refine Preserves.ite (fun e => assumeEq_spec hgo ha hb ?_) fun _ => .pure trivial
    have ht : o.value r = .ofBool ((o.val (op.arg 0)).num != (o.val (op.arg 1)).num) := h.value_eq hr (hc ▸ rfl)
    simpa using (eq_one_iff_of_ofBool (ht.symm.trans (hk 0 e))).2.1 rfl
  · rename_i hc
    have ht : o.value r = .int (if (o.val (op.arg 0)).num = 0 then 0 else 1) := h.value_eq hr (hc ▸ rfl)
    refine .ite (fun e => assumeZeroTest_spec hgo h ?_) fun _ => Preserves.ite (fun e => assumeZeroTest_spec hgo h ?_) fun _ => .pure trivial
    · have := ht.symm.trans (hk 1 e)
      simpa using this
    · have := ht.symm.trans (hk 0 e)
      simpa using this
  · rename_i hc
    have ht : o.value r = .int (if (o.val (op.arg 0)).num = 0 then 1 else 0) := h.value_eq hr (hc ▸ rfl)
    refine .ite (fun e => assumeZeroTest_spec hgo h ?_) fun _ => Preserves.ite (fun e => assumeZeroTest_spec hgo h ?_) fun _ => .pure trivial
    · have := ht.symm.trans (hk 0 e)
      simpa using this
    · have := ht.symm.trans (hk 1 e)
      simpa using this
  · rename_i hc
    exact assumeSum_spec hgo h he hr (.inl hc)
  · rename_i hc
    exact assumeSum_spec hgo h he hr (.inr hc)
  · rename_i hc
    exact assumeDifference_spec hgo h he hr (.inl hc)
  · rename_i hc
    exact assumeDifference_spec hgo h he hr (.inr hc)
  · rename_i hc
    exact assumeProduct_spec hgo h he hr (.inl hc)
  · rename_i hc
    exact assumeProduct_spec hgo h he hr (.inr hc)
  · rename_i hc
    refine assumeArith_spec hgo h hr ?_ ?_
    · rintro x y z hx hy hz b ⟨⟩
      refine Bound.holds_rshift hz hy fun hs => ?_
      rw [h.toInt_shiftLeft he hr hc hs, Int.mul_ediv_cancel _ (Int.ne_of_gt (Int.pow_pos (by decide)))]
    · rintro x y z hx hy hz b ⟨⟩
  · exact .pure trivial

theorem throughProducer_spec (hgo : GoesOn o goOn) (b : Box) : Safe (Sound o) m (do
    match (← get).producers[b]? with
    | some op => do assumeResult goOn (← current op)
    | none => pure ()) := by
  refine .get fun s hs => ?_
  split
  · rename_i op hop
    obtain ⟨hr, hobeys, hexact, htag⟩ := hs.producers b op hop
    refine (current_spec htag).bind fun op' m₁ _ h => ?_
    obtain ⟨args, ha, rfl⟩ := h
    exact assumeResult_spec hgo (hobeys.congr ha) (hexact.congr ha) hr
  · exact .pure trivial

/-- Going back from a value: one operation after another, as often as it is allowed. -/
theorem backward_spec (n : Nat) : GoesOn o (backward n) := by
  induction n with
  | zero => exact fun m v _ => .pure trivial
  | succ n ih =>
    intro m v hp
    refine (idOf_spec hp).bind fun i m₁ h₁ hi => .ite (fun _ => .pure trivial) fun hkind => ?_
    refine (boundOf_spec hi.1).bind fun x m₂ h₂ hx => ?_
    refine (info_spec (hi.1.mono h₂)).bind fun y m₃ h₃ hy => ?_
    -- the only number inside the bound is the value
    have hconst {c : Int64} (hc : x.const? = some c) : Safe (Sound o) m₃ (becomeConst i (some (.const (.int c)))) := by
      have hv : o.val v = .int c := by
        rw [Const.eq_int_num (o.kind_val (by simpa using hkind)), Bound.eq_of_const? hc hx]
      exact becomeConst_spec (hv ▸ (hi.1.mono h₂).mono h₃)
    dsimp only
    cases v with
    | const c =>
      split
      · rename_i hc _
        exact (hconst hc).bind fun _ _ _ _ => .pure trivial
      · exact .pure trivial
    | box b =>
      split
      · rename_i hc _
        exact (hconst hc).bind fun _ _ _ _ => throughProducer_spec ih b
      · exact throughProducer_spec ih b

theorem goBack_spec : GoesOn o goBack := fun _ v hp => .get fun _ _ => backward_spec _ _ v hp

end Operations
end FlowCompiler.Trace.Bounds
