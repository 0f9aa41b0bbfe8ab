import FlowCompiler.Proofs.Bounds.Forward

/-!
# Bounds that contain the numbers of a valuation

A valuation gives each box a constant, whatever the run does with memory, calls and guards.  `Within` says that the
bounds of a state contain the numbers of the valuation, that an entry known to be a number is that number, and that a
sum which a box is known to come from adds up to it.  The operations on entries and bounds keep this, so that a pass can
be judged by what it does to bounds alone, with virtual objects and remembered results in the state as they may be.
-/

namespace FlowCompiler.Trace

open Option List

variable {op : Op} {r : Box} {n : Int64} {i : InfoId} {args : List Value}

/-! ## Valuations -/

/-- A constant for each box. -/
abbrev Valuation := Box → Const

namespace Valuation

variable (ν : Valuation)

/-- The constant that a value stands for. -/
def val : Value → Const
  | .box b => ν b
  | .const c => c

/-- The number that the machine reads from a value. -/
def num (v : Value) : Int64 := (ν.val v).num

/-- An operation on two words gives its result the number that it computes. -/
def Computes (op : Op) : Prop :=
  ∃ r n, op.result = some r ∧ Exec.intBinary? op.code (ν.num (op.arg 0)) (ν.num (op.arg 1)) = some (.ok n) ∧ ν.num (.box r) = n

theorem val_arg_congr (h : args.map ν.val = op.args.map ν.val) (i : Nat) : ν.val (({ op with args } : Op).arg i) = ν.val (op.arg i) := by
  have hget (xs : List Value) : ν.val ((xs[i]?).getD default) = ((xs.map ν.val)[i]?).getD (ν.val default) := by
    rw [getElem?_map]
    cases xs[i]? <;> rfl
  rw [Op.arg, Op.arg, hget, hget, h]

theorem num_arg_congr (h : args.map ν.val = op.args.map ν.val) (i : Nat) : ν.num (({ op with args } : Op).arg i) = ν.num (op.arg i) :=
  congrArg Const.num (ν.val_arg_congr h i)

theorem num_of_key? {v k : Value} (h : v.key? = some k) : ν.num k = ν.num v := by
  rcases v with b | n | d | p <;> simp only [Value.key?, some.injEq] at h
  · rw [h]
  · rw [h]
  · split at h
    · cases h
    · split at h <;> cases h <;> rfl
  · rw [h]

end Valuation

variable (v : Value) {f : Info → Info}

namespace Bounds

open OptimizeM

namespace Meaning

variable {m m' : Meaning}

/-- An entry stands for a number. -/
def Number (m : Meaning) (i : InfoId) (n : Int64) : Prop := ∃ c, m.Entry i c ∧ c.num = n

theorem Number.mono (h : m ≤ m') : m.Number i n → m'.Number i n
  | ⟨c, hc, e⟩ => ⟨c, hc.mono h, e⟩

theorem Number.unique {n k : Int64} : m.Number i n → m.Number i k → n = k
  | ⟨_, hc, e⟩, ⟨_, hc', e'⟩ => by
    cases hc.symm.trans hc'
    rw [← e, e']

/-- What an entry says of numbers is true of a number. -/
structure Tells (m : Meaning) (x : Info) (n : Int64) : Prop where
  bound : ∀ b, x.bound = some b → m.BoundOf b n
  const : ∀ k, x.constInt? = some k → k = n

theorem Tells.mono {x : Info} (h : m ≤ m') (ht : m.Tells x n) : m'.Tells x n := ⟨fun b hb => (ht.bound b hb).mono h, ht.const⟩

/-- An operation has no tag, or one that stands for its arguments. -/
def TaggedBy (m : Meaning) (ν : Valuation) (op : Op) : Prop := op.tag = 0 ∨ 0 < op.tag ∧ m.tags[op.tag - 1]? = some (op.args.map ν.val)

theorem TaggedBy.mono {ν : Valuation} (h : m ≤ m') (ht : m.TaggedBy ν op) : m'.TaggedBy ν op :=
  ht.imp_right fun ht => ⟨ht.1, getElem?_of_isPrefix h.2.2.1 ht.2⟩

end Meaning

/-- What a state says of numbers is true of a valuation. -/
structure Within (ν : Valuation) (m : Meaning) (s : OptimizeState) : Prop where
  infos_size : s.infos.size = m.entries.length
  bounds_size : s.bounds.size = m.bounds.length
  ids : ∀ v i, s.ids[v]? = some i → m.Number i (ν.num v)
  entry : ∀ i n, m.Number i n → m.Tells (s.info i) n
  bound : ∀ b n, m.BoundOf b n → (s.bound b).Holds n
  /-- A sum that a box comes from, to which other constants may be added. -/
  sums : ∀ b op, s.producers[b]? = some op → op.code = .intAdd → m.TaggedBy ν op ∧ ν.num (.box b) = ν.num (op.arg 0) + ν.num (op.arg 1)
  written : ∀ t args, s.written[t]? = some args → m.tags[t - 1]? = some (args.map ν.val)

variable {b : BoundId} {x : Bound}

section Entries

variable {ν : Valuation} {m : Meaning} {s : OptimizeState}

section

variable (h : Within ν m s)
include h

theorem Within.lt_of_number (he : m.Number i n) : i < s.infos.size := by
  rw [h.infos_size]
  exact (List.getElem?_eq_some_iff.1 he.choose_spec.1).1

theorem Within.modify_info (he : m.Number i n) (hf : m.Tells (f (s.info i)) n) : Within ν m { s with infos := s.infos.modify i f } := by
  have hi := h.lt_of_number he
  refine { h with infos_size := by simpa using h.infos_size, entry := fun j k hk => ?_ }
  rw [info_modify hi]
  split
  · rename_i e
    subst e
    rwa [hk.unique he]
  · exact h.entry j k hk

theorem Within.push_bound {b : Bound} (hb : b.Holds n) : Within ν (m.withBound n) { s with bounds := s.bounds.push b } := by
  have hle := m.le_withBound n
  refine { h with bounds_size := by simp [Meaning.withBound, h.bounds_size], entry := ?_, bound := ?_ }
  · exact fun i k hk => (h.entry i k hk).mono hle
  · intro j k hk
    rw [bound_push, h.bounds_size]
    rcases Meaning.getElem?_concat_cases hk with ⟨e, rfl⟩ | ⟨hne, hk⟩
    · rwa [if_pos e]
    · rw [if_neg hne]
      exact h.bound j k hk

theorem Within.push_info {x : Info} {c : Const} (hx : m.Tells x c.num) : Within ν (m.withEntry c False) { s with infos := s.infos.push x } := by
  have hle := m.le_withEntry c False
  refine { h with infos_size := by simp [Meaning.withEntry, h.infos_size], ids := ?_, entry := ?_ }
  · exact fun v i hi => (h.ids v i hi).mono hle
  · intro i n hn
    obtain ⟨d, hd, rfl⟩ := hn
    rw [info_push, h.infos_size]
    rcases Meaning.getElem?_concat_cases hd with ⟨e, rfl⟩ | ⟨hne, hd⟩
    · rw [if_pos e]
      exact hx.mono hle
    · rw [if_neg hne]
      exact (h.entry i _ ⟨d, hd, rfl⟩).mono hle

theorem Within.insert_id {v : Value} (he : m.Number i (ν.num v)) : Within ν m { s with ids := s.ids.insert v i } := by
  refine { h with ids := fun u j hj => ?_ }
  rw [Std.HashMap.getElem?_insert] at hj
  split at hj
  · rename_i e
    cases hj
    rwa [← eq_of_beq e]
  · exact h.ids u j hj

theorem Within.set_bound (hb : m.BoundOf b n) (hx : x.Holds n) : Within ν m { s with bounds := s.bounds.setIfInBounds b x } := by
  refine { h with bounds_size := by simpa using h.bounds_size, bound := fun j k hk => ?_ }
  have hbk := h.bound j k hk
  simp only [OptimizeState.bound, Array.getElem?_setIfInBounds] at hbk ⊢
  split
  · rename_i e
    subst e
    cases hb.symm.trans hk
    split
    · exact hx
    · rw [Array.getElem?_eq_none (by omega)] at hbk
      exact hbk
  · exact hbk

end

/-! ## Finding and changing entries -/

theorem newBound_within {b : Bound} (h : b.Holds n) : Preserves (Within ν) m (newBound b) fun i m' => m'.BoundOf i n := by
  refine .modifyGet fun s hs => ⟨m.withBound n, m.le_withBound n, hs.push_bound h, ?_⟩
  rw [Meaning.BoundOf, hs.bounds_size]
  exact getElem?_concat_length

theorem newInfo_within {x : Info} {c : Const} (h : m.Tells x c.num) : Preserves (Within ν) m (newInfo x) fun i m' => m'.Number i c.num := by
  refine .modifyGet fun s hs => ⟨m.withEntry c False, m.le_withEntry _ _, hs.push_info h, c, ?_, rfl⟩
  rw [Meaning.Entry, hs.infos_size]
  exact getElem?_concat_length

theorem update_within (he : m.Number i n) (hf : ∀ x, m.Tells x n → m.Tells (f x) n) : Safe (Within ν) m (update i f) :=
  .modify fun _ hs => ⟨m, le_refl m, hs.modify_info he (hf _ (hs.entry i n he)), trivial⟩

theorem info_within (he : m.Number i n) : Preserves (Within ν) m (info i) fun x m' => m'.Tells x n := .get fun _ hs => .pure (hs.entry i n he)

theorem describe_within : Preserves (Within ν) m (describe v) fun x m' => m'.Tells x (ν.num v) := by
  unfold describe
  split
  · rename_i n
    refine (newBound_within (Bound.holds_exactly n)).bind fun b m' _ hb => .pure ⟨?_, ?_⟩
    · exact fun _ e => some.inj e ▸ hb
    · exact fun k e => (some.inj e).symm
  · exact .pure ⟨nofun, nofun⟩
  · exact .get fun _ _ => .pure ⟨nofun, nofun⟩
  · rename_i b
    refine .ite (fun _ => ?_) fun _ => .pure ⟨nofun, nofun⟩
    refine (newBound_within (Bound.holds_unbounded (ν b).num)).bind fun b m' _ hb => .pure ⟨?_, ?_⟩
    · exact fun _ e => some.inj e ▸ hb
    · exact nofun

theorem idOf_within : Preserves (Within ν) m (idOf v) fun i m' => m'.Number i (ν.num v) := by
  refine .get fun s hs => ?_
  split
  · rename_i i hi
    obtain ⟨k, hk, hids⟩ := bind_eq_some_iff.1 hi
    rw [← ν.num_of_key? hk]
    exact .pure (hs.ids k i hids)
  · refine (describe_within v).bind fun x m₁ h₁ hx => ?_
    refine (newInfo_within (c := ν.val v) hx).bind fun i m₂ h₂ hi => ?_
    split
    · rename_i k hk
      have hi' : m₂.Number i (ν.num k) := by rwa [ν.num_of_key? hk]
      refine .bind (.modify fun s hs => ⟨m₂, le_refl _, hs.insert_id hi', trivial⟩) fun _ m₃ h₃ (_ : True) => ?_
      exact .pure (hi.mono h₃)
    · exact .pure hi

theorem setEqual_within (he : m.Number i n) (h : ν.num (.box r) = n) : Safe (Within ν) m (setEqual (some r) i) :=
  .modify fun _ hs => ⟨m, le_refl m, hs.insert_id (h ▸ he), trivial⟩

theorem becomeConst_within (he : m.Number i n) : Safe (Within ν) m (becomeConst i (some (.const (.int n)))) := by
  refine .bind (update_within he fun x hx => ⟨hx.bound, fun k e => (some.inj e).symm⟩) fun _ m₁ h₁ _ => ?_
  refine (newBound_within (Bound.holds_exactly n)).bind fun b m₂ h₂ hb => ?_
  exact update_within ((he.mono h₁).mono h₂) fun x hx => ⟨fun _ e => some.inj e ▸ hb, hx.const⟩

theorem setConstInt_within (h : ν.num (.box r) = n) : Safe (Within ν) m (setConstInt (some r) n) := by
  have hequal (m : Meaning) : Safe (Within ν) m (do setEqual (some r) (← idOf (.const (.int n)))) :=
    (idOf_within _).bind fun i m' _ hi => setEqual_within hi h
  refine .get fun s hs => ?_
  split
  · rename_i i hi
    refine .ite (fun _ => ?_) fun _ => hequal m
    have he : m.Number i (ν.num (.box r)) := hs.ids _ _ hi
    exact becomeConst_within (h ▸ he)
  · exact hequal m

/-! ## Finding and tightening bounds -/

theorem getBound_within (hb : m.BoundOf b n) : Preserves (Within ν) m (getBound b) fun x _ => x.Holds n := .get fun _ hs => .pure (hs.bound b n hb)

theorem boundId_within (he : m.Number i n) : Preserves (Within ν) m (boundId i) fun b m' => m'.BoundOf b n := by
  refine (info_within he).bind fun x m₁ h₁ hx => ?_
  split
  · rename_i b hb
    exact .pure (hx.bound b hb)
  · refine (newBound_within (Bound.holds_unbounded n)).bind fun b m₂ h₂ hb => ?_
    refine .bind (update_within ((he.mono h₁).mono h₂) fun x hx => ⟨fun _ e => some.inj e ▸ hb, hx.const⟩) fun _ m₃ h₃ _ => ?_
    exact .pure (hb.mono h₃)

theorem tighten_within {f : Bound → Bound × Bool} (hb : m.BoundOf b n)
    (hf : ∀ x : Bound, x.Holds n → (f x).1.Holds n) : Safe (Within ν) m (tighten b f) := by
  refine (getBound_within hb).bind fun x m₁ h₁ hx => ?_
  refine .bind (.modify fun s hs => ⟨m₁, le_refl _, hs.set_bound (hb.mono h₁) (hf x hx), trivial⟩) fun _ _ _ (_ : True) => .pure trivial

/-! ## Operations -/

theorem current_within (ht : m.TaggedBy ν op) : Preserves (Within ν) m (current op) fun op' _ =>
    ∃ args, args.map ν.val = op.args.map ν.val ∧ op' = { op with args } := by
  refine .ite (fun _ => .pure ⟨op.args, rfl, rfl⟩) fun h0 => .get fun s hs => ?_
  split
  · rename_i args hw
    have := (ht.resolve_left h0).2.symm.trans (hs.written _ _ hw)
    exact .pure ⟨args, (some.inj this).symm, rfl⟩
  · exact .pure ⟨op.args, rfl, rfl⟩

theorem current_keeps_within (op : Op) : Safe (Within ν) m (current op) := by
  refine .ite (fun _ => .pure trivial) fun _ => .get fun s hs => ?_
  split
  · exact .pure trivial
  · exact .pure trivial

theorem rememberPure_within {code : Opcode} {v : Value} : Safe (Within ν) m (rememberPure code args v) := by
  have hids (m : Meaning) : Safe (Within ν) m (args.mapM idOf) :=
    (Preserves.mapM (P := fun _ _ _ => True) (fun _ _ _ _ _ h => h) fun u _ m' _ =>
      (idOf_within u).mono fun _ _ _ _ => trivial).mono fun _ _ _ _ => trivial
  refine .get fun s _ => .ite (fun _ => ?_) fun _ => .pure trivial
  have hkey : Safe (Within ν) m (pureKey? code args none) := by
    exact .ite (fun _ => .pure trivial) fun _ => (hids m).bind fun _ _ _ _ => .pure trivial
  refine .bind hkey fun k m₁ h₁ _ => ?_
  split
  · refine (idOf_within v).bind fun i m₂ h₂ _ => ?_
    exact .modify fun s hs => ⟨m₂, le_refl _, { hs with }, trivial⟩
  · exact .pure trivial

end Entries

end Bounds
end FlowCompiler.Trace
