import FlowCompiler.Proofs.Strings.Reading

/-!
# Operands and results

What an operand of the trace stands for, whether it has an entry or not, and what the operations that read strings and make virtual ones
leave their results to stand for: one lemma for each operation says that the state stays sound, and that the result stands for the
character, the length or the string that the operation gives.
-/

namespace FlowCompiler.Trace

open OptimizeM Strings List

variable {emit : Emit} {args : List Value} {xs : List Content}

/-- A result has the entry of something that is there already. -/
def OptimizeState.equated (s : OptimizeState) (r : Box) (j : InfoId) : OptimizeState := { s with ids := s.ids.insert (.box r) j }

namespace Scene

variable {σ : Scene} {s s' : OptimizeState} {f : InfoId → Content} {next : Emit} {m : StringMode} {i : InfoId} {v : Value} {x : Content}
  {r : Box} {cs : List Int} {u : Bool}

/-- What an entry is for; a string that is still written is not for anything. -/
def Is (σ : Scene) (s : OptimizeState) (i : InfoId) : Content → Prop
  | .num n => σ.Num s i n
  | .str cs u => ¬ σ.draft i ∧ σ.content i = .str cs u

/-- What an entry of the state is for. -/
def Has (σ : Scene) (s : OptimizeState) (i : InfoId) (x : Content) : Prop := i < s.infos.size ∧ σ.Is s i x

/-- What an operand stands for; a string that has no entry yet was given or is a constant. -/
def Stands (σ : Scene) (s : OptimizeState) (v : Value) (x : Content) : Prop :=
  match s.id? v with
  | some i => σ.Has s i x
  | none => σ.Gives s v x ∧ x.Valid ∧ ∀ b cs u, v = .box b → x = .str cs u → σ.given b = some x

/-- Nothing is being allocated but drafts. -/
def Settled (σ : Scene) : Prop := ∀ i, σ.busy i → σ.draft i

theorem Settled.entry (h : σ.Settled) (hs : σ.Sound s) (hi : i < s.infos.size) (hd : ¬ σ.draft i) : Entry σ s i :=
  ⟨hs, hi, hd, fun j hj => .inl (h j hj)⟩

theorem Is.grows (h : σ.Is s i x) (hg : σ.Grows s f s') (hi : i < s.infos.size) : (σ.naming f).Is s' i x := by
  cases x with
  | num n => exact hg.num h
  | str cs u => exact ⟨h.1, (hg.agrees i hi).trans h.2⟩

theorem Has.grows (h : σ.Has s i x) (hg : σ.Grows s f s') : (σ.naming f).Has s' i x := ⟨Nat.lt_of_lt_of_le h.1 hg.size, h.2.grows hg h.1⟩

theorem Has.later (h : σ.Has s i x) (hl : σ.Later none s s') : σ.Has s' i x := h.grows (f := σ.content) hl.grows

theorem Has.entry (h : σ.Has s i (.str cs u)) (hset : σ.Settled) (hs : σ.Sound s) : Entry σ s i := hset.entry hs h.1 h.2.1

theorem Grows.stands (hg : σ.Grows s f s') (hs' : (σ.naming f).Sound s') (hs : σ.Sound s) (h : σ.Stands s v x) : (σ.naming f).Stands s' v x := by
  unfold Stands at h
  cases hi : s.id? v with
  | some i =>
    rw [hi] at h
    rw [Stands, hg.ids v i hi]
    exact .grows h hg
  | none =>
    rw [hi] at h
    obtain ⟨hv, hx, hgiven⟩ := h
    have hv' := hg.gives hv
    unfold Stands
    cases hi' : s'.id? v with
    | none => exact ⟨hv', hx, hgiven⟩
    | some i =>
      obtain hn | ⟨hle, hbox⟩ | hn := hg.fresh v i hi'
      · cases hi.symm.trans hn
      · have hd : ¬ σ.draft i := fun hd => Nat.not_lt.2 hle (hs.drafts i hd).2.1
        refine ⟨lt_of_box hbox, ?_⟩
        cases x with
        | num n => exact ⟨v, hbox, hv'⟩
        | str cs u =>
          cases v with
          | box b => exact ⟨hd, hs'.given b cs u i (hgiven b cs u rfl rfl) hi'⟩
          | const k =>
            have hbusy : ¬ σ.busy i := fun hb => Nat.not_lt.2 hle (hs.busy i hb).1
            exact ⟨hd, ((hs'.entry i _ (lt_of_box hbox) hbox hbusy).const k rfl).unique (hv'.const k rfl)⟩
      · exact absurd hv.defined hn

theorem Later.stands {t : Option Value} (hl : σ.Later t s s') (h : σ.Stands s v x) : σ.Stands s' v x := by
  unfold Stands at h ⊢
  rw [hl.id?]
  cases hi : s.id? v with
  | none =>
    rw [hi] at h
    exact ⟨hl.gives h.1, h.2⟩
  | some i =>
    rw [hi] at h
    refine ⟨hl.size ▸ h.1, ?_⟩
    cases x with
    | num n => exact hl.num h.2
    | str cs u => exact h.2

theorem idOf_stands (hs : σ.Sound s) (h : σ.Stands s v x) : σ.Makes (idOf v) s fun i f s' => (σ.naming f).Has s' i x ∧
      ∀ r, σ.Awaits s r → (σ.naming f).Awaits s' r := by
  unfold Stands at h
  cases hi : s.id? v with
  | some i =>
    rw [hi] at h
    exact ⟨i, s, σ.content, idOf_of_id? hi, hs, (Later.refl .none).grows, h, fun _ hr => hr⟩
  | none =>
    rw [hi] at h
    obtain ⟨hv, hx, -⟩ := h
    refine (idOf_makes hs hv hx).mono fun i f s' hs' hg hi' => ?_
    obtain ⟨hbox, hnew, hask, -⟩ := hi'
    obtain ⟨rfl, hf⟩ := hnew hi
    refine ⟨⟨lt_of_box hbox, ?_⟩, hask⟩
    cases x with
    | num n => exact ⟨v, hbox, hg.gives hv⟩
    | str cs u => exact ⟨fun hd => Nat.lt_irrefl _ (hs.drafts _ hd).2.1, hf⟩

/-! ### Results that have an entry -/

section
variable {j : InfoId}

theorem ids_equated (s : OptimizeState) (r : Box) (j : InfoId) (v : Value) : (s.equated r j).ids[v]? = if .box r = v then some j else s.ids[v]? := by
  rw [OptimizeState.equated, Std.HashMap.getElem?_insert]
  simp only [beq_iff_eq]

theorem Awaits.ids_old (ha : σ.Awaits s (some r)) (hv : s.ids[v]? ≠ .none) : (s.equated r j).ids[v]? = s.ids[v]? := by
  rw [ids_equated, if_neg]
  rintro rfl
  exact hv ha.id?_eq_none

theorem Awaits.ids_defined (ha : σ.Awaits s (some r)) (hv : σ.Defined s v) : (s.equated r j).ids[v]? = s.ids[v]? := by
  rw [ids_equated, if_neg]
  rintro rfl
  exact (ha r rfl).2.2 (.inl hv)

theorem known_equated {b : Box} (hb : σ.Known (s.equated r j) b) : σ.Known s b ∨ b = r := by
  rcases hb with hb | hb
  · exact .inl (.inl hb)
  · rw [ids_equated] at hb
    split at hb
    · rename_i e
      cases e
      exact .inr rfl
    · exact .inl (.inr hb)

theorem Grows.equated (ha : σ.Awaits s (some r)) (j : InfoId) : σ.Grows s σ.content (s.equated r j) where
  agrees _ _ := rfl
  strings := .refl _
  boxes := Nat.le_refl _
  calls := rfl
  size := Nat.le_refl _
  ids v i hi := by
    obtain ⟨k, hk, hi⟩ := Option.bind_eq_some_iff.1 hi
    refine Option.bind_eq_some_iff.2 ⟨k, hk, ?_⟩
    rw [ha.ids_old (by rw [hi]; exact Option.some_ne_none i), hi]
  fresh v i hi := by
    obtain ⟨k, hk, hi⟩ := Option.bind_eq_some_iff.1 hi
    rw [ids_equated] at hi
    split at hi
    · rename_i e
      subst e
      cases (Value.exact_box r).eq_of_key? hk
      exact .inr (.inr fun hd => (ha r rfl).2.2 (.inl hd))
    · exact .inl (Option.bind_eq_some_iff.2 ⟨k, hk, hi⟩)
  defined _ hv := hv
  known b _ hb := (known_equated hb).imp id fun (e : b = r) => by rw [e, (ha r rfl).1]
  box _ _ hv := hv
  drafts _ _ := rfl
  back c hc := ⟨c, hc, fun _ _ => rfl, fun _ _ _ hr => hr⟩

theorem Sound.equated (hs : σ.Sound s) (ha : σ.Awaits s (some r)) (hj : j < s.infos.size) : σ.Sound (s.equated r j) where
  entry i v hi hv hb := (Grows.equated ha j).gives (hs.entry i v hi hv hb)
  builds i w hi hw := (Grows.equated ha j).builds hi (hs.builds i w hi hw)
  virtual := hs.virtual
  hidden i hi hv := by
    obtain ⟨b, hk, hid, hd⟩ := hs.hidden i hi hv
    exact ⟨b, hk, (ha.ids_old (by rw [hid]; exact Option.some_ne_none i)).trans hid, hd⟩
  consts := hs.consts
  constIds k i hk := by
    rw [ha.ids_defined (v := .const k) trivial] at hk
    exact hs.constIds k i hk
  given b cs u i hb hi := by
    rw [ha.ids_defined (v := .box b) (.inl (Option.isSome_iff_exists.2 ⟨_, hb⟩))] at hi
    exact hs.given b cs u i hb hi
  ids_lt v i hi := by
    rw [ids_equated] at hi
    split at hi
    · cases hi
      exact hj
    · exact hs.ids_lt v i hi
  last := hs.last
  boxes b hb := (known_equated hb).elim (hs.boxes b) fun (e : b = r) => by rw [e]; exact Nat.le_trans (ha r rfl).2.1 hs.last
  valid := hs.valid
  busy := hs.busy
  unbound := hs.unbound
  drafts := hs.drafts
  plain := hs.plain
  interned := hs.interned
  runs := hs.runs
  kept := hs.kept
  locked := hs.locked

theorem setEqual_makes (hs : σ.Sound s) (ha : σ.Awaits s (some r)) (hj : j < s.infos.size) :
    σ.Makes (setEqual (some r) j) s fun _ f s' => f = σ.content ∧ s'.ids[Value.box r]? = some j :=
  ⟨(), s.equated r j, σ.content, rfl, hs.equated ha hj, .equated ha j, rfl, by rw [ids_equated, if_pos rfl]⟩

end

/-! ### Operands that are written out -/

theorem operand_does {n : Nat} (hs : σ.Sound s) (hset : σ.Settled) (h : σ.Stands s v x) :
    σ.Does none (operand (n + 1) v) s fun w s' => σ.Gives s' w x := by
  unfold Stands at h
  refine .get ?_
  cases hi : s.id? v with
  | none =>
    rw [hi] at h
    exact .pure hs .none h.1
  | some i =>
    rw [hi] at h
    obtain ⟨hlt, hx⟩ := h
    cases x with
    | num n =>
      obtain ⟨w, e, hw⟩ := force_num _ hx
      exact ⟨w, s, e, hs, .refl .none, hw⟩
    | str cs u =>
      refine (force_does (.writeOut n) (hset.entry hs hlt hx.1)).mono fun w s' _ _ hw => ?_
      rw [← hx.2]
      exact hw.1

/-- What an operand stands for is none of the strings that are locked since. -/
theorem Stands.altered {B U : InfoId → Prop} {L : Ref → Prop} {R : Option Box} (h : σ.Stands s v x) (hl : σ.Later none s s')
    (hL : ∀ r, L r → σ.locked r ∨ ∀ c, σ.Reaches s c → c.store.str? r = none) : (σ.altered B U L R).Stands s' v x := by
  have h' := hl.stands h
  unfold Stands at h h' ⊢
  rw [hl.id?] at h' ⊢
  cases hi : s.id? v with
  | none =>
    rw [hi] at h h'
    refine ⟨h'.1.altered fun c' r hc' hr hlock => (hL r hlock).resolve_right fun hnew => ?_, h.2⟩
    obtain ⟨c, hc, hlead⟩ := hl.back c' hc'
    exact (h.1.shows c hc).str?_ne_none ((hlead.val h.1.defined).symm.trans hr) (hnew c hc)
  | some i =>
    rw [hi] at h'
    refine ⟨h'.1, ?_⟩
    cases x with
    | num n => exact .altered h'.2
    | str cs u => exact h'.2

theorem Stands.asking (h : σ.Stands s v x) (R : Option Box) : (σ.asking R).Stands s v x := h.altered (.refl .none) fun _ hr => .inl hr

theorem operands_does {n : Nat} (hs : σ.Sound s) (hset : σ.Settled) (h : List.Forall₂ (σ.Stands s) args xs) :
    σ.Does none (args.mapM (operand (n + 1))) s fun vs s' => List.Forall₂ (σ.Gives s') vs xs := by
  induction args generalizing s xs with
  | nil =>
    cases h
    exact .pure hs .none .nil
  | cons v args ih =>
    cases h with
    | cons hv h =>
      rw [mapM_cons]
      refine (operand_does hs hset hv).bind fun w s₁ hs₁ hl₁ hw => ?_
      refine (ih hs₁ (h.imp fun _ _ hx => hl₁.stands hx)).bind fun ws s₂ hs₂ hl₂ hws => ?_
      exact .pure hs₂ .none (.cons (hl₂.gives hw) hws)

/-- An operation is written out with values that have the contents of its operands; those that stand for themselves stay. -/
theorem forced_writes (op : Op) (pre : List Value) (he : Forces emit) (hc : op.code.direct = true)
    (hargs : op.args = pre ++ args) (hs : σ.Sound s) (hset : σ.Settled) (hpre : ∀ v ∈ pre, s.Canon v) (h : List.Forall₂ (σ.Stands s) args xs) :
    ∃ vs s₁ s₂, emit op s = .ok () s₂ ∧ σ.Sound s₁ ∧ σ.Later none s s₁ ∧ (∀ r, σ.Awaits s r → σ.Awaits s₁ r) ∧
      List.Forall₂ (σ.Gives s₁) vs xs ∧ s₁.Writes { op with args := pre ++ vs } s₂ := by
  obtain ⟨l, n, hf⟩ := he s op hc
  let s₀ : OptimizeState := { s with lastString := l }
  obtain ⟨hs₀, hl₀⟩ := hs.alike (show Alike s s₀ from ⟨rfl, rfl, rfl, rfl⟩)
  have hstands : List.Forall₂ (σ.unasked.Stands s₀) args xs := h.imp fun _ _ hx => (hl₀.stands hx).asking none
  obtain ⟨vs, s₁, e₁, hs₁, hl₁, hvs, hask⟩ := (operands_does (n := n) hs₀.unasked hset hstands).ask
  have e : op.args.mapM (operand (n + 1)) s₀ = .ok (pre ++ vs) s₁ := by
    rw [hargs, mapM_append]
    exact (bind_eq (operands_eq (s := s₀) hpre)).trans ((bind_eq e₁).trans rfl)
  obtain ⟨s₂, e₂, hw⟩ := hf _ s₁ e
  exact ⟨vs, s₁, s₂, e₂, hs₁, hl₀.trans hl₁, fun r hr => hask _ (hr.quiet hl₀ rfl), hvs.imp fun _ _ hx => hx.asked, hw⟩

end Scene

/-! ## Results -/

namespace Scene

variable {σ : Scene} {s s' : OptimizeState} {f : InfoId → Content} {next : Emit} {m : StringMode} {op : Op} {r : Box} {a b : Value}
  {cs ds : List Int} {u : Bool} {k : Nat} {ch : Int} {x : Content}

theorem Makes.of_does {α : Type} {k : OptimizeM α} {P : α → OptimizeState → Prop} (h : σ.Does none k s P) :
    σ.Makes k s fun a f s' => f = σ.content ∧ P a s' := by
  obtain ⟨a, s', e, hs', hl, hP⟩ := h
  exact ⟨a, s', σ.content, e, hs', hl.grows, rfl, hP⟩

theorem stands_box {i : InfoId} (hs : σ.Sound s) (hid : s.ids[Value.box r]? = some i) (hx : σ.Is s i x) : σ.Stands s (.box r) x := by
  rw [Stands, OptimizeState.id?_box, hid]
  exact ⟨hs.ids_lt _ i hid, hx⟩

theorem Gives.stands {v : Value} {n : Int64} (hv : σ.Gives s v (.num n)) : σ.Stands s v (.num n) := by
  unfold Stands
  cases hi : s.id? v with
  | none => exact ⟨hv, trivial, nofun⟩
  | some i => exact ⟨lt_of_box (hv.canon i hi), v, hv.canon i hi, hv⟩

theorem setEqual_stands {j : InfoId} (hs : σ.Sound s) (ha : σ.Awaits s (some r)) (hj : j < s.infos.size) (hx : σ.Is s j x) :
    σ.Makes (setEqual (some r) j) s fun _ f s' => (σ.naming f).Stands s' (.box r) x :=
  (setEqual_makes hs ha hj).mono fun _ _ _ hs' hg hid => stands_box hs' hid.2 (hx.grows hg hj)

theorem constIntOf_makes (hs : σ.Sound s) (n : Int) :
    σ.Makes (constIntOf (.ofInt n)) s fun a _ s' => a = some (Int64.ofInt n) ∧ s'.ids[Value.ofInt n]? ≠ none := by
  rw [constIntOf, infoOf, bind_assoc]
  refine (idOf_num hs (hs.gives_int n)).bind fun i f s' hs' _ hi => ?_
  obtain ⟨-, -, hid⟩ := hi
  obtain ⟨hbox, hconst⟩ := hs'.constIds _ i hid
  refine .info (.pure hs' ⟨?_, by rw [hid]; exact Option.some_ne_none i⟩)
  rw [Info.constInt?, hconst, hbox]
  rfl

theorem getItem_makes (he : Emits (give next)) (hs : σ.Sound s) (hset : σ.Settled) (hargs : op.args = [a, b]) (hr : op.result = some r)
    (ha : σ.Awaits s (some r)) (hstr : σ.Stands s a (.str cs u)) (hindex : σ.Stands s b (.int k)) (hch : cs[k]? = some ch) :
    σ.Makes (getItem next m op) s fun _ f s' => (σ.naming f).Stands s' (.box r) (.int ch) := by
  have hfirst : op.arg 0 = a := by rw [Op.arg, hargs]; rfl
  have hsecond : op.arg 1 = b := by rw [Op.arg, hargs]; rfl
  unfold getItem
  rw [hfirst, hsecond, hr]
  refine (idOf_stands hs hstr).bind fun str f₁ s₁ hs₁ hg₁ hi => ?_
  obtain ⟨hi, hask₁⟩ := hi
  refine (idOf_stands hs₁ (hg₁.stands hs₁ hs hindex)).bind fun index f₂ s₂ hs₂ hg₂ hj => ?_
  obtain ⟨hj, hask₂⟩ := hj
  replace hi := hi.grows hg₂
  have hat : At (σ.naming f₂) s₂ str index ch := ⟨hi.entry hset hs₂, cs, u, k, hi.2.2, hj.2, hch⟩
  refine .bind (Q := Character (σ.naming f₂) s₂ ch) ?_ fun i f₃ s₃ hs₃ hg₃ hi => .get ?_
  · refine .look (a := 4 * s₂.infos.size + 8) rfl (charAt_makes he _ hat (hask₂ _ (hask₁ _ ha)) ?_)
    exact Nat.lt_of_lt_of_le hat.entry.lt (by omega : s₂.infos.size ≤ 4 * s₂.infos.size + 8)
  · obtain ⟨hn, hnext⟩ := hi
    change Makes _ (if (s₃.id? (.box r)).isNone then setEqual (some r) i else pure ()) _ _
    have hlt : i < s₃.infos.size := lt_of_box hn.choose_spec.1
    rcases hnext r (hask₂ _ (hask₁ _ ha)) with hr | hr
    · rw [if_pos (by rw [OptimizeState.id?_box, hr.id?_eq_none]; rfl)]
      exact setEqual_stands hs₃ hr hlt hn
    · rw [if_neg (by rw [OptimizeState.id?_box, hr]; exact Bool.false_ne_true)]
      exact .pure hs₃ (stands_box hs₃ hr hn)

theorem length_makes (he : Emits (give next)) (hs : σ.Sound s) (hset : σ.Settled) (hargs : op.args = [a]) (hr : op.result = some r)
    (ha : σ.Awaits s (some r)) (hstr : σ.Stands s a (.str cs u)) :
    σ.Makes (Strings.length next m op) s fun _ f s' => (σ.naming f).Stands s' (.box r) (.int cs.length) := by
  have hfirst : op.arg 0 = a := by rw [Op.arg, hargs]; rfl
  unfold Strings.length
  rw [hfirst, hr]
  refine (idOf_stands hs hstr).bind fun str f₁ s₁ hs₁ hg₁ hi => ?_
  obtain ⟨hi, hask₁⟩ := hi
  refine .after (stringLength_does he m (hi.entry hset hs₁) hi.2.2 (hask₁ _ ha)) fun v s₂ hs₂ hl₂ hv => ?_
  obtain ⟨hv, hnext⟩ := hv
  rcases hnext r (hask₁ _ ha) with rfl | hr
  · rw [if_neg (by simp)]
    exact .pure hs₂ hv.stands
  · have hne : v ≠ .box r := by
      rintro rfl
      exact (hr r rfl).2.2 (.inl hv.defined)
    rw [if_pos (by simpa using hne)]
    refine (idOf_num hs₂ hv).bind fun i f₃ s₃ hs₃ hg₃ hi => ?_
    exact setEqual_stands hs₃ (hi.2.1 _ hr) (lt_of_box hi.1.choose_spec.1) hi.1

theorem make_stands {w : Virtual} (hs : σ.Sound s) (hr : op.result = some r) (ha : σ.Awaits s (some r)) (hx : (Content.str cs u).Valid)
    (hw : ∀ s', σ.Grows s (σ.next s (.str cs u)) s' → (σ.naming (σ.next s (.str cs u))).Builds s' s.infos.size w) :
    σ.Makes (make op w) s fun _ f s' => (σ.naming f).Stands s' (.box r) (.str cs u) := by
  refine (make_makes hs hr ha hx hw).mono fun _ f s' hs' _ hi => ?_
  obtain ⟨rfl, hp⟩ := hi
  exact stands_box hs' (by rw [ids_push hp, if_pos rfl]) ⟨fun hd => Nat.lt_irrefl _ (hs.drafts _ hd).2.1, Function.update_self ..⟩

theorem markRemoved_does (hs : σ.Sound s) : σ.Does none markRemoved s fun _ s' => ∀ v x, σ.Stands s v x → σ.Stands s' v x := by
  obtain ⟨hs', hl⟩ := hs.alike (show Alike s { s with lastString := .removed } from ⟨rfl, rfl, rfl, rfl⟩)
  exact ⟨(), _, rfl, hs', hl, fun _ _ hv => hl.stands hv⟩

theorem concatCall_makes (hs : σ.Sound s) (hargs : op.args = [v, a, b]) (hr : op.result = some r) (ha : σ.Awaits s (some r))
    (hleft : σ.Stands s a (.str cs m.unicode)) (hright : σ.Stands s b (.str ds m.unicode)) (hshort : (cs ++ ds).length < 2 ^ 63) : σ.Makes (do
      let l ← idOf (op.arg 1)
      let r ← idOf (op.arg 2)
      ensureNonNull l
      ensureNonNull r
      make op (.concat m.unicode l r none)
      markRemoved
      pure true) s fun t f s' => t = true ∧ (σ.naming f).Stands s' (.box r) (.str (cs ++ ds) m.unicode) := by
  have hfirst : op.arg 1 = a := by rw [Op.arg, hargs]; rfl
  have hsecond : op.arg 2 = b := by rw [Op.arg, hargs]; rfl
  rw [hfirst, hsecond]
  refine (idOf_stands hs hleft).bind fun i f₁ s₁ hs₁ hg₁ hi => ?_
  obtain ⟨hi, hask₁⟩ := hi
  refine (idOf_stands hs₁ (hg₁.stands hs₁ hs hright)).bind fun j f₂ s₂ hs₂ hg₂ hj => ?_
  obtain ⟨hj, hask₂⟩ := hj
  refine .after (ensureNonNull_does hs₂ (hi.grows hg₂).1 hi.2.1) fun _ s₃ hs₃ hl₃ hsame₃ => ?_
  obtain ⟨-, -, hops₃, -⟩ := hsame₃
  refine .after (ensureNonNull_does hs₃ (hj.later hl₃).1 hj.2.1) fun _ s₄ hs₄ hl₄ hsame₄ => ?_
  obtain ⟨-, -, hops₄, -⟩ := hsame₄
  replace ha := ((hask₂ _ (hask₁ _ ha)).quiet hl₃ hops₃).quiet hl₄ hops₄
  replace hi := ((hi.grows hg₂).later hl₃).later hl₄
  replace hj := (hj.later hl₃).later hl₄
  refine (make_stands (u := m.unicode) hs₄ hr ha ⟨hshort, ?_⟩ fun s' hg => ?_).bind fun _ f₅ s₅ hs₅ hg₅ hstands => ?_
  · intro ch hch
    have hcs := hs₄.valid i hi.1
    have hds := hs₄.valid j hj.1
    rw [hi.2.2] at hcs
    rw [hj.2.2] at hds
    exact (mem_append.1 hch).elim (hcs.2 ch) (hds.2 ch)
  · exact ⟨⟨hi.1, hi.2.1⟩, ⟨hj.1, hj.2.1⟩, cs, ds, (hg.agrees i hi.1).trans hi.2.2, (hg.agrees j hj.1).trans hj.2.2, Function.update_self .., by simp⟩
  · exact .after (markRemoved_does hs₅) fun _ s₆ hs₆ _ hstands₆ => .pure hs₆ ⟨rfl, hstands₆ _ _ hstands⟩

/-- The string that a part is taken of, and the place where the part starts there. -/
def partOf (emit : Emit) (str start : InfoId) (first : Value) : OptimizeM (InfoId × InfoId) := do
  match slice? (← info str) with
  | some (whole, inner, _) => do
    let full ← addLengths emit (((← info inner).box).getD default) first
    pure (whole, ← idOf full)
  | none => pure (str, start)

theorem sliceCall_eq (next : Emit) (m : StringMode) (op : Op) : sliceCall next m op = (do
    let str ← idOf (op.arg 1)
    let start ← idOf (op.arg 2)
    let stop ← idOf (op.arg 3)
    ensureNonNull str
    let stopV ← force (give next) stop
    let startV ← force (give next) start
    let len ← subLengths (give next) stopV startV
    let part ← partOf (give next) str start startV
    make op (.slice m.unicode part.1 part.2 (← idOf len))
    markRemoved) := by
  unfold sliceCall
  refine bind_congr fun str => bind_congr fun start => bind_congr fun stop => bind_congr fun _ => ?_
  refine bind_congr fun stopV => bind_congr fun startV => bind_congr fun len => ?_
  rw [partOf, bind_assoc]
  refine bind_congr fun x => ?_
  cases slice? x with
  | none => simp only [pure_bind]
  | some p => simp only [bind_assoc, pure_bind]

/-- A part of a part of a string is a part of the string. -/
theorem drop_take_part {p n : Nat} {a l : Int} (h0 : 0 ≤ a) (h1 : 0 ≤ l) (h : a + l ≤ ds.length) (hn : p + n ≤ (StringFunction.part ds a l).length) :
    a.toNat + p + n ≤ ds.length ∧ ((StringFunction.part ds a l).drop p).take n = (ds.drop (a.toNat + p)).take n := by
  have hlen := StringFunction.length_part h0 h1 h
  refine ⟨by omega, ?_⟩
  rw [StringFunction.part, drop_take, take_take, drop_drop, Nat.min_eq_left (by omega)]

theorem partOf_makes {i j : InfoId} {p n : Nat} {v : Value} (he : Emits emit) (hs : σ.Sound s) (hi : σ.Has s i (.str cs u))
    (hj : σ.Num s j (Int64.ofInt p)) (hv : σ.Gives s v (.int p)) (hn : p + n ≤ cs.length) :
    σ.Makes (partOf emit i j v) s fun w f s' => (∃ ds p', (σ.naming f).Has s' w.1 (.str ds u) ∧ (σ.naming f).Num s' w.2 (Int64.ofInt (p' : Nat)) ∧
      p' + n ≤ ds.length ∧ (cs.drop p).take n = (ds.drop p').take n) ∧ ∀ r, σ.Awaits s r → (σ.naming f).Awaits s' r := by
  refine .info ?_
  split
  · rename_i hslice
    obtain ⟨u', hw⟩ := slice?_eq_some hslice
    obtain ⟨⟨hlt, hd⟩, ds, a, l, hds, ⟨x, hx, hgx⟩, -, h0, h1, hle, e⟩ := hs.builds i _ hi.1 hw
    cases hi.2.2.symm.trans e
    refine .info ?_
    rw [hx]
    rw [Content.num_eq_int h0] at hgx
    refine .after (addLengths_asked he hs hgx hv) fun full s₁ hs₁ hl₁ hfull => ?_
    obtain ⟨hfull, hask⟩ := hfull
    obtain ⟨hle', hpart⟩ := drop_take_part h0 h1 hle hn
    have hwhole : σ.Has s _ (.str ds u) := ⟨Nat.lt_trans hlt hi.1, hd, hds⟩
    refine (idOf_num hs₁ hfull).bind fun k f s₂ hs₂ hg hk => ?_
    exact .pure hs₂ ⟨⟨ds, a.toInt.toNat + p, (hwhole.later hl₁).grows hg, hk.1, hle', hpart⟩, fun r hr => hk.2.1 _ (hask _ hr)⟩
  · exact .pure hs ⟨⟨cs, p, hi, hj, hn, rfl⟩, fun _ hr => hr⟩

theorem sliceCall_makes {p q : Nat} {x y : Value} (he : Emits (give next)) (hs : σ.Sound s) (hargs : op.args = [v, a, x, y]) (hr : op.result = some r)
    (ha : σ.Awaits s (some r)) (hstr : σ.Stands s a (.str cs m.unicode)) (hx : σ.Stands s x (.int p)) (hy : σ.Stands s y (.int q)) (hpq : p ≤ q)
    (hq : q ≤ cs.length) :
    σ.Makes (sliceCall next m op) s fun _ f s' => (σ.naming f).Stands s' (.box r) (.str ((cs.drop p).take (q - p)) m.unicode) := by
  have hfirst : op.arg 1 = a := by rw [Op.arg, hargs]; rfl
  have hsecond : op.arg 2 = x := by rw [Op.arg, hargs]; rfl
  have hthird : op.arg 3 = y := by rw [Op.arg, hargs]; rfl
  rw [sliceCall_eq, hfirst, hsecond, hthird]
  refine (idOf_stands hs hstr).bind fun i f₁ s₁ hs₁ hg₁ hi => ?_
  obtain ⟨hi, hask₁⟩ := hi
  replace hx := hg₁.stands hs₁ hs hx
  refine (idOf_stands hs₁ hx).bind fun j f₂ s₂ hs₂ hg₂ hj => ?_
  obtain ⟨hj, hask₂⟩ := hj
  replace hy := hg₂.stands hs₂ hs₁ (hg₁.stands hs₁ hs hy)
  refine (idOf_stands hs₂ hy).bind fun k f₃ s₃ hs₃ hg₃ hk => ?_
  obtain ⟨hk, hask₃⟩ := hk
  replace hi := (hi.grows hg₂).grows hg₃
  replace hj := hj.grows hg₃
  refine .after (ensureNonNull_does hs₃ hi.1 hi.2.1) fun _ s₄ hs₄ hl₄ hsame => ?_
  obtain ⟨-, -, hops, -⟩ := hsame
  replace ha := (hask₃ _ (hask₂ _ (hask₁ _ ha))).quiet hl₄ hops
  obtain ⟨vq, eq, hvq⟩ := force_num (give next) (hk.later hl₄).2
  obtain ⟨vp, ep, hvp⟩ := force_num (give next) (hj.later hl₄).2
  refine .look eq (.look ep ?_)
  refine .after (subLengths_asked he hs₄ hvq hvp) fun len s₅ hs₅ hl₅ hlen => ?_
  obtain ⟨hlen, hask₅⟩ := hlen
  replace hi := (hi.later hl₄).later hl₅
  replace hj := (hj.later hl₄).later hl₅
  refine (partOf_makes (n := q - p) he hs₅ hi hj.2 (hl₅.gives hvp) (by omega)).bind fun w f₆ s₆ hs₆ hg₆ hw => ?_
  obtain ⟨⟨ds, p', hw, hp', hle, hpart⟩, hask₆⟩ := hw
  refine (idOf_num hs₆ (hg₆.gives hlen)).bind fun l f₇ s₇ hs₇ hg₇ hl => ?_
  replace ha := hl.2.1 _ (hask₆ _ (hask₅ _ ha))
  replace hw := hw.grows hg₇
  replace hp' := hg₇.num hp'
  replace hl : (((((σ.naming f₁).naming f₂).naming f₃).naming f₆).naming f₇).Num s₇ l (Int64.ofInt (q - p : Nat)) := by
    rw [Int.ofNat_sub hpq]
    exact hl.1
  have hvalid := hs₇.valid _ hw.1
  rw [hw.2.2] at hvalid
  have hword₁ : (Int64.ofInt p').toInt = p' := toInt_ofInt_nat (by have := hvalid.1; omega)
  have hword₂ : (Int64.ofInt (q - p : Nat)).toInt = (q - p : Nat) := toInt_ofInt_nat (by have := hvalid.1; omega)
  rw [hpart]
  refine (make_stands hs₇ hr ha (hvalid.part p' (q - p)) fun s' hg => ?_).bind fun _ f₈ s₈ hs₈ hg₈ hstands => ?_
  · refine ⟨⟨hw.1, hw.2.1⟩, ds, _, _, (hg.agrees w.1 hw.1).trans hw.2.2, hg.num hp', hg.num hl, by omega, by omega, by omega, ?_⟩
    rw [hword₁, hword₂]
    exact Function.update_self ..
  · exact (Makes.of_does (markRemoved_does hs₈)).mono fun _ f s' _ _ h => by
      obtain ⟨rfl, h⟩ := h
      exact h _ _ hstands

/-! ## Operations that are only written out -/

theorem word_makes {code : Opcode} {t : Nat} {p q n : Int64} (he : Forces emit) (hc : code.onWords = true) (hs : σ.Sound s) (hset : σ.Settled)
    (ha : σ.Awaits s (some r)) (hp : σ.Stands s a (.num p)) (hq : σ.Stands s b (.num q))
    (hn : Exec.compute? code (.int p) (.int q) = some (.ok (.int n))) :
    σ.Makes (emit { code, args := [a, b], result := some r, tag := t }) s fun _ f s' => (σ.naming f).Stands s' (.box r) (.num n) := by
  have hdirect : code.direct = true := by
    unfold Opcode.direct
    split <;> first | rfl | exact hc
  obtain ⟨vs, s₁, s₂, e, hs₁, hl₁, hask, hvs, hw⟩ := forced_writes { code, args := [a, b], result := some r, tag := t } [] he hdirect rfl
    hs hset nofun (.cons hp (.cons hq .nil))
  obtain ⟨v, w, rfl, hv, hw'⟩ : ∃ v w, vs = [v, w] ∧ σ.Gives s₁ v (.num p) ∧ σ.Gives s₁ w (.num q) := by
    rcases hvs with _ | ⟨hv, _ | ⟨hw', _ | _⟩⟩
    exact ⟨_, _, rfl, hv, hw'⟩
  obtain ⟨hnew, hid⟩ := (hask _ ha).new hs₁
  obtain ⟨hs₂, hl₂, hr⟩ := hs₁.writes_number hw .none rfl hnew hid fun c h =>
    Config.step_word (Opcode.reads?_of_onWords hc) (hv.shows c h) (hw'.shows c h) hn
  exact ⟨(), s₂, σ.content, e, hs₂, (hl₁.trans hl₂).grows, hr.stands⟩

theorem keepalive_does {t : Nat} (he : Forces emit) (hs : σ.Sound s) (hset : σ.Settled)
    (h : List.Forall₂ (σ.Stands s) args xs) : σ.Does none (emit { code := .keepalive, args, tag := t }) s fun _ _ => True := by
  obtain ⟨vs, s₁, s₂, e, hs₁, hl₁, -, -, hw⟩ := forced_writes { code := .keepalive, args, tag := t } [] he rfl rfl hs hset nofun h
  obtain ⟨hs₂, hl₂⟩ := hs₁.writes hw .none nofun fun c _ => ⟨c, Config.step_keepalive vs, fun _ _ => rfl, fun _ _ _ hx => hx, fun _ hx => hx⟩
  exact ⟨(), s₂, e, hs₂, hl₁.trans hl₂, trivial⟩

end Scene
end FlowCompiler.Trace
