import FlowCompiler.Proofs.Strings.Sheets

/-!
# Folding strings of constants

A string that is made, written, joined and cut with constants only stays virtual as long as it is made no longer than the limit says.  The
optimizer then knows all that is on the sheet of the trace, so it has nothing to write out, and when the string is needed it becomes a
constant with the characters that are on the sheet.
-/

namespace FlowCompiler.Trace

open OptimizeM Strings List

variable (restart next : Emit) (op : Op)

namespace Sheet

variable {k k' : Sheet} {b r : Box} {xs : List (Option Int)} {u : Bool} {st : Store} {last : Nat} {limit : Int} {s s' : OptimizeState}
  {cs : List Int} {m : StringMode}

namespace Held

/-! ## New strings -/

section
variable {y : Info}

theorem not_draft (h : k.Held st limit s) (hr : k.text r = none) : ¬ k.draft r := by
  intro hd
  obtain ⟨_, _, _, ht, -⟩ := h.drafts r hd
  cases hr.symm.trans ht

theorem carries_push (hp : s.Pushes (.box r) y s') (hdraft : ∀ b, b ≠ r → (k'.draft b ↔ k.draft b)) : s.Carries (k.Open s) s' (k'.Open s') where
  size := Scene.size_push hp ▸ Nat.le_succ _
  info i hi _ := Scene.info_there hp (Nat.ne_of_lt hi) ▸ .refl _
  ints i n hn := by rwa [Scene.info_there hp (Nat.ne_of_lt (OptimizeState.lt_of_constInt? hn))]
  strings := hp.store ▸ .refl _
  not_mem i hi hd := by
    obtain ⟨b, hb, hj⟩ := hd
    rw [Scene.ids_push hp] at hj
    split at hj
    · cases hj
      exact absurd hi (Nat.lt_irrefl _)
    · rename_i e
      exact ⟨b, (hdraft b fun e' => e (by rw [e'])).1 hb, hj⟩

theorem push (h : k.Held st limit s) (hp : s.Pushes (.box r) y s') (hr : k.text r = none) (htext : k'.text = Function.update k.text r (some (xs, u)))
    (hdraft : ∀ b, b ≠ r → (k'.draft b ↔ k.draft b)) (hnew : k'.draft r → s'.Drafted s.infos.size u xs)
    (hfold : ∀ cs, xs = cs.map some → ¬ k'.draft r → s'.Folded (k'.Open s') s.infos.size u cs) : k'.Held st limit s' := by
  have hcarries := carries_push hp hdraft
  have hhere : k'.text r = some (xs, u) := by rw [htext, Function.update_self]
  have hthere {b : Box} (hb : b ≠ r) : k'.text b = k.text b := by rw [htext, Function.update_of_ne hb]
  have hid : s'.ids[Value.box r]? = some s.infos.size := by rw [Scene.ids_push hp, if_pos rfl]
  have hids {b : Box} (hb : b ≠ r) : s'.ids[Value.box b]? = s.ids[Value.box b]? := by
    rw [Scene.ids_push hp, if_neg fun e => hb (Value.box.inj e).symm]
  have hsame {i : InfoId} (hi : i < s.infos.size) : s'.info i = s.info i := Scene.info_there hp (Nat.ne_of_lt hi)
  exact
    { store := hp.store.trans h.store
      ops := hp.ops.trans h.ops
      limit := by rw [hp.limits, h.limit]
      drafts := fun b hb => by
        by_cases e : b = r
        · subst e
          exact ⟨_, xs, u, hhere, hid, hnew hb⟩
        · obtain ⟨i, ys, w, ht, hi, hd⟩ := h.drafts b ((hdraft b e).1 hb)
          exact ⟨i, ys, w, (hthere e).trans ht, (hids e).trans hi, hd.similar (hsame (h.ids_lt _ i hi) ▸ .refl _) hcarries.ints⟩
      strings := fun b cs w ht hd => by
        by_cases e : b = r
        · subst e
          cases hhere.symm.trans ht
          exact ⟨_, hid, hfold cs rfl hd⟩
        · obtain ⟨i, hi, hf⟩ := h.strings b cs w ((hthere e).symm.trans ht) fun hd' => hd ((hdraft b e).2 hd')
          exact ⟨i, (hids e).trans hi, hf.carry hcarries⟩
      known := fun b hb => by
        by_cases e : b = r
        · rw [e, hhere]
          exact Option.some_ne_none _
        · rw [hthere e]
          exact h.known b (hids e ▸ hb)
      apart := fun b c i hb hi hc => by
        by_cases e : b = r <;> by_cases e' : c = r
        · rw [e, e']
        · subst e
          cases hid.symm.trans hi
          exact absurd (h.ids_lt _ _ ((hids e').symm.trans hc)) (Nat.lt_irrefl _)
        · subst e'
          cases hid.symm.trans hc
          exact absurd (h.ids_lt _ _ ((hids e).symm.trans hi)) (Nat.lt_irrefl _)
        · exact h.apart b c i ((hdraft b e).1 hb) ((hids e).symm.trans hi) ((hids e').symm.trans hc)
      consts := fun c i hi => by
        rw [Scene.ids_push hp, if_neg nofun] at hi
        rw [hsame (h.ids_lt _ i hi)]
        exact h.consts c i hi
      ids_lt := fun v i hi => by
        rw [Scene.ids_push hp] at hi
        rw [Scene.size_push hp]
        split at hi
        · cases hi
          exact Nat.lt_succ_self _
        · exact Nat.lt_succ_of_lt (h.ids_lt v i hi) }

end

theorem make (h : k.Held st limit s) {op : Op} {w : Virtual} (hr : op.result = some r) (hnew : k.text r = none)
    (hfold : ∀ s', s.Carries (k.Open s) s' ((k.bind r (cs.map some) u).Open s') →
      s'.Kept ((k.bind r (cs.map some) u).Open s') s.infos.size w → s'.Folded ((k.bind r (cs.map some) u).Open s') s.infos.size u cs) :
    ∃ s', Strings.make op w s = .ok () s' ∧ (k.bind r (cs.map some) u).Held st limit s' := by
  obtain ⟨s', e, hp⟩ := Scene.make_eq (w := w) hr s
  have hhere := Scene.info_here hp
  have hcarries : s.Carries (k.Open s) s' ((k.bind r (cs.map some) u).Open s') := carries_push hp fun _ _ => Iff.rfl
  refine ⟨s', e, h.push hp hnew rfl (fun _ _ => Iff.rfl) (fun hd => absurd hd (h.not_draft hnew)) fun ds hds _ => ?_⟩
  cases (map_inj_right fun _ _ => Option.some.inj).1 hds
  refine hfold s' hcarries
    { lt := Scene.size_push hp ▸ Nat.lt_succ_self _
      not_mem := ?_
      box := by rw [hhere]
      key := ⟨r, by rw [hhere]⟩
      virt := by rw [hhere]
      isConst := by rw [hhere]; rfl }
  rintro ⟨b, hb, hi⟩
  have e : b ≠ r := fun e => h.not_draft hnew (e ▸ hb)
  rw [Scene.ids_push hp, if_neg fun e' => e (Value.box.inj e').symm] at hi
  exact Nat.lt_irrefl _ (h.ids_lt _ _ hi)

/-! ## The operations -/

theorem step_fresh {n : Nat} (t : Nat) (h : k.Held st limit s) (hr : k.text r = none) (hn : n < 2 ^ 63) (hlimit : n ≤ limit) :
    ∃ s', newString next m (freshOp m n r t) s = .ok () s' ∧ ((k.bind r (List.replicate n none) m.unicode).opened r).Held st limit s' := by
  obtain ⟨s₁, e, hg⟩ := h.constIntOf n
  obtain ⟨s', e', hp⟩ := Scene.make_eq (w := .plain m.unicode (Array.replicate n none)) (show (freshOp m n r t).result = some r from rfl) s₁
  have hhere := Scene.info_here hp
  have hword : (Int64.ofInt n).toInt = n := toInt_ofInt_nat hn
  refine ⟨s', ?_, (h.grown hg).push hp hr rfl (fun b hb => or_iff_left hb) (fun _ => ?_) fun cs _ hd => absurd (.inr rfl) hd⟩
  · rw [Scene.newString_eq e, if_pos, hword, Int.toNat_natCast, e']
    rw [h.limit, hword, Bool.and_eq_true, decide_eq_true_eq, decide_eq_true_eq, Int64.le_iff_toInt_le, hword]
    exact ⟨Int.natCast_nonneg n, hlimit⟩
  · exact
      { box := by rw [hhere]
        key := ⟨r, by rw [hhere]⟩
        virt := ⟨_, by rw [hhere], by simpa using OptimizeState.forall₂_noted_none n⟩
        isConst := by rw [hhere]; rfl
        short := by simpa using hn }

theorem notes {i c p : Nat} {ch : Int} {chars : Array (Option InfoId)} (h : k.Held st limit s) (hd : k.draft b)
    (hi : s.ids[Value.box b]? = some i) (hdrafted : s.Drafted i u xs) (hvirt : (s.info i).virt = some (.plain u chars))
    (hchars : List.Forall₂ s.Noted chars.toList xs) (hc : (s.info c).constInt? = some (Int64.ofInt ch)) (hch : Store.isScalar ch = true) :
    ∃ s', noteChar i p c s = .ok () s' ∧ (k.bind b (xs.set p (some ch)) u).Held st limit s' := by
  have hlt := h.ids_lt _ i hi
  obtain ⟨f, hrun, hf⟩ := Scene.noteChar_eq (p := p) (c := c) hvirt
  have hhere : (s.modified i f).info i = { s.info i with virt := some (.plain u (chars.setIfInBounds p (some c))) } :=
    (OptimizeState.info_modified hlt).trans hf
  have hthere {j : InfoId} (hj : j ≠ i) : (s.modified i f).info j = s.info j := OptimizeState.info_modified_of_ne hj
  have hsame {j : InfoId} (hj : j ≠ i) : (s.info j).Similar ((s.modified i f).info j) := hthere hj ▸ .refl _
  have hconst {j : InfoId} (hj : (s.info j).isConst = true) : j ≠ i := by
    rintro rfl
    cases hdrafted.isConst.symm.trans hj
  have hints (j : InfoId) (n : Int64) (hn : (s.info j).constInt? = some n) : ((s.modified i f).info j).constInt? = some n :=
    (hsame (hconst (OptimizeState.isConst_of_constInt? hn))).constInt?.trans hn
  refine ⟨s.modified i f, hrun, ?_⟩
  exact
    { store := h.store
      ops := h.ops
      limit := h.limit
      drafts := fun b' hb' => by
        by_cases e : b' = b
        · subst e
          refine ⟨i, _, u, text_bind .., hi, ?_⟩
          exact
            { box := by rw [hhere, hdrafted.box]
              key := by rw [hhere]; exact hdrafted.key
              virt := by
                refine ⟨_, by rw [hhere], ?_⟩
                rw [Array.toList_setIfInBounds]
                exact forall₂_set (hchars.imp fun _ _ hx => hx.mono hints) p ⟨hints c _ hc, hch⟩
              isConst := by rw [hhere]; exact hdrafted.isConst
              short := by simpa using hdrafted.short }
        · obtain ⟨j, ys, w, ht, hj, hdj⟩ := h.drafts b' hb'
          have hne : j ≠ i := by
            rintro rfl
            exact e (h.apart b b' j hd hi hj)
          exact ⟨j, ys, w, (text_bind_of_ne e).trans ht, hj, hdj.similar (hsame hne) hints⟩
      strings := fun b' cs w ht hd' => by
        have e : b' ≠ b := by
          rintro rfl
          exact hd' hd
        obtain ⟨j, hj, hfold⟩ := h.strings b' cs w ((text_bind_of_ne e).symm.trans ht) hd'
        refine ⟨j, hj, hfold.carry ⟨by simp, fun j _ hj => hsame ?_, hints, .refl _, fun _ _ hd => hd⟩⟩
        rintro rfl
        exact hj ⟨b, hd, hi⟩
      known := fun b' hb' => by
        by_cases e : b' = b
        · rw [e, text_bind]
          exact Option.some_ne_none _
        · rw [text_bind_of_ne e]
          exact h.known b' hb'
      apart := h.apart
      consts := fun q j hj => by
        rw [hthere (hconst (h.consts q j hj).2)]
        exact h.consts q j hj
      ids_lt := fun v j hj => by
        rw [OptimizeState.size_modified]
        exact h.ids_lt v j hj }

theorem step_write {p : Nat} {ch : Int} (h : k.Held st limit s) (hargs : op.args = [.box b, .ofInt p, .ofInt ch])
    (hd : k.draft b) (hb : k.text b = some (xs, u)) (hp : p < xs.length) (hch : Store.isScalar ch = true) :
    ∃ s', setItem next op s = .ok () s' ∧ (k.bind b (xs.set p (some ch)) u).Held st limit s' := by
  obtain ⟨s₁, e₁, hg₁⟩ := h.constIntOf p
  obtain ⟨c, s₂, e₂, hg₂, -, -, hc⟩ := (h.grown hg₁).number ch
  have hg := hg₁.trans hg₂
  obtain ⟨i, _, _, ht, hi, hdrafted⟩ := h.drafts b hd
  cases hb.symm.trans ht
  have hsame := hg.info i (h.ids_lt _ i hi)
  obtain ⟨chars, hvirt, hchars⟩ := hdrafted.virt
  have hsize : chars.size = xs.length := hchars.length_eq
  obtain ⟨s₃, e₃, h₃⟩ := (h.grown hg).notes (p := p) hd (hg.ids _ i hi) (hdrafted.similar hsame hg.ints) (hsame.virt.trans hvirt)
    (hchars.imp fun _ _ hx => hx.mono hg.ints) hc hch
  refine ⟨s₃, ?_, h₃⟩
  rw [Scene.setItem_eq hargs hi hdrafted.box hvirt (hsize ▸ hp) (Nat.lt_trans hp hdrafted.short) e₁ e₂, e₃]

theorem step_concat {v a b : Value} {ds : List Int} (h : k.Held st limit s) (hargs : op.args = [v, a, b]) (hr : op.result = some r)
    (hnew : k.text r = none) (ha : k.Says st a cs m.unicode) (hb : k.Says st b ds m.unicode) (hshort : (cs ++ ds).length < 2 ^ 63) : ∃ s', (do
      let l ← idOf (op.arg 1)
      let r ← idOf (op.arg 2)
      ensureNonNull l
      ensureNonNull r
      Strings.make op (.concat m.unicode l r none)
      markRemoved
      pure true : OptimizeM Bool) s = .ok true s' ∧ ((k.closed [a, b]).bind r ((cs ++ ds).map some) m.unicode).Held st limit s' := by
  have hfirst : op.arg 1 = a := by rw [Op.arg, hargs]; rfl
  have hsecond : op.arg 2 = b := by rw [Op.arg, hargs]; rfl
  rw [hfirst, hsecond]
  replace h := h.closed [a, b]
  replace ha : (k.closed [a, b]).Says st a cs m.unicode := ha
  replace hb : (k.closed [a, b]).Says st b ds m.unicode := hb
  obtain ⟨i, s₁, e₁, hg₁, hi⟩ := h.operand ha fun c e hc => hc.2 (e ▸ mem_cons_self)
  obtain ⟨j, s₂, e₂, hg₂, hj⟩ := (h.grown hg₁).operand hb fun c e hc => hc.2 (by simp [e])
  replace hi := hi.carry (carries hg₂ _)
  obtain ⟨s₃, e₃, hg₃⟩ := OptimizeState.Grown.ensureNonNull hi.lt
  replace hi := hi.carry (carries hg₃ _)
  replace hj := hj.carry (carries hg₃ _)
  obtain ⟨s₄, e₄, hg₄⟩ := OptimizeState.Grown.ensureNonNull hj.lt
  replace hi := hi.carry (carries hg₄ _)
  replace hj := hj.carry (carries hg₄ _)
  have h₄ := h.grown (((hg₁.trans hg₂).trans hg₃).trans hg₄)
  obtain ⟨s₅, e₅, h₅⟩ := h₄.make hr hnew fun s' hc hk => .concat hk hi.lt hj.lt (hi.carry hc) (hj.carry hc) hshort
  obtain ⟨s₆, e₆, hg₆⟩ := OptimizeState.Grown.markRemoved s₅
  refine ⟨s₆, ?_, h₅.grown hg₆⟩
  exact (bind_eq e₁).trans ((bind_eq e₂).trans ((bind_eq e₃).trans ((bind_eq e₄).trans ((bind_eq e₅).trans (bind_eq e₆)))))

theorem subLengths_number {p q : Nat} (hpq : p ≤ q) (hq : q < 2 ^ 63) (emit : Emit) (s : OptimizeState) :
    subLengths emit (.ofInt q) (.ofInt p) s = .ok (.ofInt (q - p : Nat)) s := by
  unfold subLengths
  split
  · rename_i e
    have hword := congrArg Int64.toInt (Const.int.inj (Value.const.inj e))
    rw [toInt_ofInt_nat (Nat.lt_of_le_of_lt hpq hq)] at hword
    cases Int.ofNat_eq_zero.1 hword
    rfl
  · have hsub : Value.const (.int (Int64.ofInt q - Int64.ofInt p)) = .ofInt (q - p : Nat) := by rw [Value.ofInt, Int.ofNat_sub hpq, Int64.ofInt_sub]
    exact congrArg (EStateM.Result.ok · s) hsub

theorem addLengths_number (p q : Nat) (hq : p + q < 2 ^ 63) (emit : Emit) (s : OptimizeState) :
    addLengths emit (.ofInt p) (.ofInt q) s = .ok (.ofInt (p + q : Nat)) s := by
  have hadd : intAdd (some emit) (.ofInt p) (.ofInt q) s = .ok (some (.ofInt (p + q : Nat))) s := by
    unfold intAdd
    split
    · rename_i e
      have hword := congrArg Int64.toInt (Const.int.inj (Value.const.inj e))
      rw [toInt_ofInt_nat (by omega)] at hword
      cases Int.ofNat_eq_zero.1 hword
      rw [Nat.zero_add]
      rfl
    · split
      · rename_i e
        have hword := congrArg Int64.toInt (Const.int.inj (Value.const.inj e))
        rw [toInt_ofInt_nat (by omega)] at hword
        cases Int.ofNat_eq_zero.1 hword
        rfl
      · have hsum : Value.const (.int (Int64.ofInt p + Int64.ofInt q)) = .ofInt (p + q : Nat) := by
          rw [Value.ofInt, Int.natCast_add, Int64.ofInt_add]
        exact congrArg (EStateM.Result.ok · s) (congrArg some hsum)
  exact (bind_eq hadd).trans rfl

theorem box_of_constInt? {x : Info} {n : Int64} (h : x.constInt? = some n) : x.box = some (.const (.int n)) := by
  unfold Info.constInt? at h
  split at h
  · obtain ⟨v, hv, hn⟩ := Option.bind_eq_some_iff.1 h
    cases Value.of_int? hn
    exact hv
  · cases h

section

variable (h : k.Held st limit s)
include h

/-- The string that a part is taken of is one of constants. -/
theorem partOf {p n : Nat} {i j : InfoId} (hi : s.Folded (k.Open s) i u cs) (hj : (s.info j).constInt? = some (Int64.ofInt p))
    (hn : p + n ≤ cs.length) (emit : Emit) :
    ∃ w s' ds q, Scene.partOf emit i j (.ofInt p) s = .ok w s' ∧ s.Grown s' ∧ s'.Folded (k.Open s') w.1 u ds ∧
      (s'.info w.2).constInt? = some (Int64.ofInt (q : Nat)) ∧ q + n ≤ ds.length ∧ (cs.drop p).take n = (ds.drop q).take n := by
  have hself (hslice : slice? (s.info i) = none) : ∃ w s' ds q, Scene.partOf emit i j (.ofInt p) s = .ok w s' ∧ s.Grown s' ∧
      s'.Folded (k.Open s') w.1 u ds ∧ (s'.info w.2).constInt? = some (Int64.ofInt (q : Nat)) ∧ q + n ≤ ds.length ∧
      (cs.drop p).take n = (ds.drop q).take n := by
    refine ⟨(i, j), s, cs, p, ?_, .refl s, hi, hj, hn, rfl⟩
    refine (bind_eq rfl).trans ?_
    rw [hslice]
    rfl
  cases hi with
  | const _ hbox => exact hself (by rw [slice?, Info.isVirtual, hbox]; simp)
  | plain hk => exact hself (by rw [slice?, hk.virt]; simp)
  | concat hk => exact hself (by rw [slice?, hk.virt]; simp)
  | @slice _ str start len _ ds a l hk hstr hp hl hle hds =>
    have hshort := hds.valid.1
    rw [length_take, length_drop] at hn
    obtain ⟨c, s', e, hg, -, -, hc⟩ := h.number (a + p : Nat)
    refine ⟨(str, c), s', ds, a + p, ?_, hg, hds.carry (carries hg k), hc, by omega, ?_⟩
    · refine (bind_eq rfl).trans ?_
      rw [slice?, Info.isVirtual, hk.virt, hk.box]
      refine (bind_eq rfl).trans ?_
      rw [box_of_constInt? hp]
      exact (bind_eq (addLengths_number a p (by omega) emit s)).trans ((bind_eq e).trans rfl)
    · rw [drop_take, take_take, drop_drop, Nat.min_eq_left (by omega)]

theorem step_slice {v a : Value} {p q : Nat} (hargs : op.args = [v, a, .ofInt p, .ofInt q]) (hr : op.result = some r) (hnew : k.text r = none)
    (ha : k.Says st a cs m.unicode) (hpq : p ≤ q) (hq : q ≤ cs.length) : ∃ s', sliceCall next m op s = .ok () s' ∧
      ((k.closed [a, .ofInt p, .ofInt q]).bind r (((cs.drop p).take (q - p)).map some) m.unicode).Held st limit s' := by
  have hfirst : op.arg 1 = a := by rw [Op.arg, hargs]; rfl
  have hsecond : op.arg 2 = .ofInt p := by rw [Op.arg, hargs]; rfl
  have hthird : op.arg 3 = .ofInt q := by rw [Op.arg, hargs]; rfl
  rw [Scene.sliceCall_eq, hfirst, hsecond, hthird]
  replace h := h.closed [a, .ofInt p, .ofInt q]
  replace ha : (k.closed [a, .ofInt p, .ofInt q]).Says st a cs m.unicode := ha
  obtain ⟨i, s₁, e₁, hg₁, hi⟩ := h.operand ha fun c e hc => hc.2 (e ▸ mem_cons_self)
  replace h := h.grown hg₁
  obtain ⟨x, s₂, e₂, hg₂, -, hx, hxn⟩ := h.number p
  replace h := h.grown hg₂
  obtain ⟨y, s₃, e₃, hg₃, -, hy, -⟩ := h.number q
  replace h := h.grown hg₃
  replace hi := hi.carry (carries (hg₂.trans hg₃) _)
  obtain ⟨s₄, e₄, hg₄⟩ := OptimizeState.Grown.ensureNonNull hi.lt
  replace h := h.grown hg₄
  replace hi := hi.carry (carries hg₄ _)
  have hshort := hi.valid.1
  have hx₄ : (s₄.info x).box = some (.ofInt p) := ((hg₃.trans hg₄).info x (Scene.lt_of_box hx)).box.trans hx
  have hy₄ : (s₄.info y).box = some (.ofInt q) := (hg₄.info y (Scene.lt_of_box hy)).box.trans hy
  obtain ⟨w, s₅, ds, p', e₅, hg₅, hw, hwn, hle, hpart⟩ := h.partOf hi ((hg₃.trans hg₄).ints x _ hxn) (by omega : p + (q - p) ≤ cs.length) (give next)
  replace h := h.grown hg₅
  obtain ⟨l, s₆, e₆, hg₆, -, -, hl⟩ := h.number (q - p : Nat)
  replace h := h.grown hg₆
  replace hw := hw.carry (carries hg₆ _)
  rw [hpart]
  obtain ⟨s₇, e₇, h₇⟩ := h.make (w := .slice m.unicode w.1 w.2 l) hr hnew fun s' hc hk =>
    .slice hk hw.lt (hc.ints _ _ (hg₆.ints _ _ hwn)) (hc.ints _ _ hl) hle (hw.carry hc)
  obtain ⟨s₈, e₈, hg₈⟩ := OptimizeState.Grown.markRemoved s₇
  refine ⟨s₈, ?_, h₇.grown hg₈⟩
  refine (bind_eq e₁).trans ((bind_eq e₂).trans ((bind_eq e₃).trans ((bind_eq e₄).trans ?_)))
  refine (bind_eq (force_of_box hy₄)).trans ((bind_eq (force_of_box hx₄)).trans ?_)
  refine (bind_eq (subLengths_number hpq (by omega) (give next) s₄)).trans ((bind_eq e₅).trans ?_)
  exact (bind_eq e₆).trans ((bind_eq e₇).trans e₈)

theorem step {op : Op} (hstep : k.Step st last limit op k') : ∃ s', Strings.pass restart next op s = .ok () s' ∧ k'.Held st limit s' := by
  cases hstep with
  | @fresh m n t r hr hn hlimit =>
    obtain ⟨s', e, h'⟩ := step_fresh (m := m) next t h hr.1 hn hlimit
    rcases m with ⟨_ | _⟩ <;> exact ⟨s', e, h'⟩
  | @write m p t b xs u ch hd hb hp hch =>
    obtain ⟨s', e, h'⟩ := step_write next { code := m.setitem, args := [.box b, .ofInt p, .ofInt ch], tag := t } h rfl hd hb hp hch
    rcases m with ⟨_ | _⟩ <;> exact ⟨s', e, h'⟩
  | @concat m code t d f name r a b xs ys hc _ hd hr ha hb hshort =>
    obtain ⟨s', e, h'⟩ :=
      step_concat { code, args := [.ofRef f, a, b], result := some r, descr := some (.call d), tag := t } h rfl rfl hr.1 ha hb hshort
    refine ⟨s', ?_, h'⟩
    rw [Scene.settled_eq hc (Scene.specialCall_concat rfl (by rw [h.store, hd]))]
    exact (bind_eq e).trans rfl
  | @slice m code p q t d f name r a cs hc _ hd hr ha hpq hq =>
    obtain ⟨s', e, h'⟩ := step_slice next { code, args := [.ofRef f, a, .ofInt p, .ofInt q], result := some r, descr := some (.call d), tag := t } h
      rfl rfl hr.1 ha hpq hq
    refine ⟨s', ?_, h'⟩
    rw [Scene.settled_eq hc (Scene.specialCall_slice rfl (by rw [h.store, hd]))]
    have htrue : (do
        sliceCall next m { code, args := [.ofRef f, a, .ofInt p, .ofInt q], result := some r, descr := some (.call d), tag := t }
        pure true : OptimizeM Bool) s = .ok true s' := (bind_eq e).trans rfl
    exact (bind_eq htrue).trans rfl

theorem steps {ops : List Op} (hsteps : k.Steps st last limit ops k') :
    ∃ s', ops.forM (Strings.pass restart next) s = .ok () s' ∧ k'.Held st limit s' := by
  induction hsteps generalizing s with
  | nil => exact ⟨s, rfl, h⟩
  | cons hstep _ ih =>
    obtain ⟨s₁, e, h₁⟩ := step restart next h hstep
    obtain ⟨s₂, e', h₂⟩ := ih h₁
    exact ⟨s₂, (bind_eq e).trans e', h₂⟩

theorem forced (hi : st.Interned) (ht : k.text b = some (cs.map some, u)) (emit : Emit) :
    ∃ r s', (do force emit (← idOf (.box b))) s = .ok (.ofRef r) s' ∧ s'.ops = [] ∧ s'.store.str? r = some (cs, u) := by
  replace h := h.closed [.box b]
  obtain ⟨i, hid, hf⟩ := h.strings b cs u ht fun hd => hd.2 mem_cons_self
  have hentry := Scene.idOf_of_id? (s := s) (v := .box b) hid
  have hknown : OptimizeM.constString? s (4 * s.infos.size + 9) i = some cs :=
    hf.constString? (Nat.lt_of_lt_of_le hf.lt (by omega : s.infos.size ≤ 4 * s.infos.size + 9))
  have hvirtual {w : Virtual} (hk : s.Kept ((k.closed [.box b]).Open s) i w) (hw : Virtual.stringMode? w = some ⟨u⟩) :
      ∃ r s', (do force emit (← idOf (.box b))) s = .ok (.ofRef r) s' ∧ s'.ops = [] ∧ s'.store.str? r = some (cs, u) := by
    obtain ⟨c, hkey⟩ := hk.key
    obtain ⟨r, t, hrun, hint⟩ := Store.intern_ok (h.store ▸ hi : s.store.Interned) hf.valid.2 u
    let s₁ : OptimizeState := { s with store := t }
    obtain ⟨g, hg, hconst⟩ : ∃ g : Info → Info, (∀ x, (g x).box = some (.ofRef r)) ∧ becomeConst i (some (.ofRef r)) s₁ = .ok () (s₁.modified i g) :=
      ⟨_, fun _ => rfl, Scene.becomeConst_str hint.here⟩
    rw [OptimizeM.constString?, if_neg (by simp [hk.isConst]), hk.virt] at hknown
    dsimp only at hknown
    have hallocate : allocate emit (4 * s.infos.size + 7) i (.box c) w s = .ok () (s₁.modified i g) := by
      rw [Scene.allocate_eq hw]
      refine (bind_eq rfl).trans ?_
      refine (bind_eq rfl).trans ?_
      rw [hknown]
      exact (bind_eq (Scene.onStore_intern hrun)).trans hconst
    have hlt : i < s₁.infos.size := hk.lt
    refine ⟨r, s₁.modified i g, ?_, h.ops, hint.here⟩
    refine (bind_eq hentry).trans ((bind_eq rfl).trans ?_)
    rw [forceAux]
    refine (bind_eq rfl).trans ?_
    rw [hk.box, hk.virt, hkey]
    refine (bind_eq hallocate).trans ((bind_eq rfl).trans ?_)
    rw [OptimizeState.info_modified hlt, hg]
    rfl
  cases hf with
  | @const _ r _ _ _ hbox _ hr => exact ⟨r, s, (bind_eq hentry).trans (force_of_box hbox), h.ops, hr⟩
  | plain hk => exact hvirtual hk rfl
  | concat hk => exact hvirtual hk rfl
  | slice hk => exact hvirtual hk rfl

end

end Held

theorem held_blank (st : Store) (settings : TraceSettings) (table : CallTable) :
    blank.Held st (Limits.ofSettings settings).constLen (.start st settings table) := by
  have hids (v : Value) : (OptimizeState.start st settings table).ids[v]? = none := by simp [OptimizeState.start]
  exact
    { store := rfl
      ops := by simp [OptimizeState.ops, OptimizeState.start]
      limit := rfl
      drafts := fun _ hd => hd.elim
      strings := fun _ _ _ ht => by cases ht
      known := fun b hb => absurd (hids _) hb
      apart := fun _ _ _ hd => hd.elim
      consts := fun c i hi => by cases (hids _).symm.trans hi
      ids_lt := fun v i hi => by cases (hids _).symm.trans hi }

end Sheet

/-! ## A string of constants twice in a row -/

namespace Doubled

/-- As `ops`, with constants for what is given. -/
def constants : List Op :=
  [freshOp ⟨false⟩ 2 ⟨3, .ref⟩ 0, { code := .strsetitem, args := [.box ⟨3, .ref⟩, .ofInt 0, .ofInt 97] },
    { code := .strsetitem, args := [.box ⟨3, .ref⟩, .ofInt 1, .ofInt 98] },
    { code := .call, args := [.ofRef 0, .box ⟨3, .ref⟩, .box ⟨3, .ref⟩], result := some ⟨4, .ref⟩, descr := some (.call 0) },
    { code := .call, args := [.ofRef 1, .box ⟨4, .ref⟩, .ofInt 1, .ofInt 3], result := some ⟨5, .ref⟩, descr := some (.call 1) }]

theorem steps_constants : ∃ k, k.text ⟨5, .ref⟩ = some ([98, 97].map some, false) ∧
    Sheet.blank.Steps store 5 (Limits.ofSettings {}).constLen constants k := by
  refine ⟨_, ?_, .cons (.fresh ⟨rfl, by decide⟩ (by decide) (by decide)) <|
    .cons (.write (m := ⟨false⟩) (.inr rfl) rfl (by decide) rfl) <|
    .cons (.write (m := ⟨false⟩) (.inr rfl) rfl (by decide) rfl) <|
    .cons (.concat (m := ⟨false⟩) (.inl rfl) rfl rfl ⟨rfl, by decide⟩ (show Sheet.Says _ store _ [97, 98] false from rfl)
      (show Sheet.Says _ store _ [97, 98] false from rfl) (by decide)) <|
    .cons (.slice (m := ⟨false⟩) (p := 1) (q := 3) (.inl rfl) rfl rfl ⟨rfl, by decide⟩ rfl (by decide) (by decide)) .nil⟩
  rfl

end Doubled

/-- Strings that are made, written, joined and cut with constants only are not written out when none is made longer than the limit, and
when one is needed it is a constant with the characters of the string that the operations build. -/
theorem constant_strings_fold {store : Store} {settings : TraceSettings} {table : CallTable} {last : Nat} {ops : List Op} {k : Sheet}
    {restart next emit : Emit} (hstore : store.Interned) (hops : Sheet.blank.Steps store last (Limits.ofSettings settings).constLen ops k) :
    ∃ s, ops.forM (Strings.pass restart next) (.start store settings table) = .ok () s ∧ s.ops = [] ∧
      ∀ b cs u, k.text b = some (cs.map some, u) →
        (∃ r s', (do force emit (← idOf (.box b))) s = .ok (.ofRef r) s' ∧ s'.ops = [] ∧ s'.store.str? r = some (cs, u)) ∧
        ∀ start : Config, start.Given store (fun _ => none) → ∃ c, start.run ops = some c ∧ c.Shows (.box b) (.str cs u) := by
  obtain ⟨s, e, h⟩ := Sheet.Held.steps restart next (Sheet.held_blank store settings table) hops
  refine ⟨s, e, h.ops, fun b cs u ht => ⟨h.forced hstore ht emit, fun start hgiven => ?_⟩⟩
  obtain ⟨c, hrun, hbuilt⟩ := hgiven.built.steps hgiven.strings hgiven.functions hops.sketch
  exact ⟨c, hrun, hbuilt.shows b _ (Sheet.den_of_complete ht)⟩

theorem constant_strings_fold_doubled : ∃ s,
    Doubled.constants.forM (Strings.pass write (Simplify.pass write)) (.start Doubled.store {} []) = .ok () s ∧
    s.ops = [] ∧ (∃ r s', (do force write (← idOf (.box ⟨5, .ref⟩))) s = .ok (.ofRef r) s' ∧ s'.ops = [] ∧ s'.store.str? r = some ([98, 97], false)) ∧
    ∃ c, Doubled.start.run Doubled.constants = some c ∧ c.Shows (.box ⟨5, .ref⟩) (.str [98, 97] false) := by
  have hstore : Doubled.store.Interned := fun _ _ _ h => by cases h
  have hgiven : Doubled.start.Given Doubled.store (fun _ => none) :=
    { shows := fun _ _ h => by cases h
      valid := fun _ _ h => by cases h
      old := fun _ _ h => by cases h
      strings := .refl _
      functions := fun _ _ _ h => h
      interned := hstore }
  obtain ⟨k, hk, hsteps⟩ := Doubled.steps_constants
  obtain ⟨s, e, hs, hall⟩ := constant_strings_fold hstore hsteps
  obtain ⟨hforced, hruns⟩ := hall _ _ _ hk
  exact ⟨s, e, hs, hforced, hruns _ hgiven⟩

end FlowCompiler.Trace
