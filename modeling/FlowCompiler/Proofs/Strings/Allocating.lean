import FlowCompiler.Proofs.Strings.Writing

/-!
# Making a string

A string whose characters are known becomes a constant.  Any other one is made by an operation and filled: from the moment when its
entry has a value until it is filled the scene is another one, in which the entry is busy and the new string is locked.
-/

namespace FlowCompiler.Trace

open OptimizeM Option

namespace OptimizeState

variable {s : OptimizeState} {i j : InfoId} {f : Info → Info}

/-- The state with one entry changed. -/
def modified (s : OptimizeState) (i : InfoId) (f : Info → Info) : OptimizeState := { s with infos := s.infos.modify i f }

@[simp] theorem size_modified (s : OptimizeState) (i : InfoId) (f : Info → Info) : (s.modified i f).infos.size = s.infos.size := Array.size_modify

theorem info_modified (h : i < s.infos.size) : (s.modified i f).info i = f (s.info i) := by
  simp only [OptimizeState.info, modified, Array.getElem?_modify, if_true, Array.getElem?_eq_getElem h, map_some, getD_some]

theorem info_modified_of_ne (h : j ≠ i) : (s.modified i f).info j = s.info j := by
  simp only [OptimizeState.info, modified, Array.getElem?_modify, if_neg (Ne.symm h)]

end OptimizeState

variable {r : Ref}

namespace Scene

variable {σ : Scene} {s s' : OptimizeState} {i : InfoId} {cs : List Int} {u : Bool}

/-! ## One entry -/

variable {f : Info → Info}

theorem Sound.modified (h : σ.Sound s) (hlt : i < s.infos.size) (hd : ¬ σ.draft i) (hbox : ∀ v, (s.info i).box = some v → (f (s.info i)).box = some v)
    (hkey : (f (s.info i)).key = (s.info i).key) (hvirt : (f (s.info i)).box = none → (s.info i).virt ≠ none → (f (s.info i)).virt ≠ none)
    (hkeep : (s.info i).isConst = true → (f (s.info i)).isConst = true)
    (hconst : (f (s.info i)).isConst = true → (s.info i).isConst = true ∨ ∃ k, (f (s.info i)).box = some (.const k) ∧ k.Means s.store (σ.content i))
    (hentry : ∀ v, (f (s.info i)).box = some v → (s.info i).box = none → ¬ σ.busy i → σ.Later none s (s.modified i f) →
      σ.Gives (s.modified i f) v (σ.content i))
    (hbuilds : ∀ w, (f (s.info i)).virt = some w → (s.info i).virt = some w ∨ σ.Builds s i w) :
    σ.Sound (s.modified i f) ∧ σ.Later none s (s.modified i f) := by
  have hi := OptimizeState.info_modified (f := f) hlt
  have hne {j : InfoId} (hj : j ≠ i) : (s.modified i f).info j = s.info j := OptimizeState.info_modified_of_ne hj
  have hq : σ.Quiet s (s.modified i f) :=
    { strings := .refl _, boxes := Nat.le_refl _, calls := rfl, ids := rfl, size := by simp, ops := rfl
      key := fun j => by
        by_cases hj : j = i
        · subst hj
          rw [hi]
          exact hkey
        · rw [hne hj]
      box := fun j v hv => by
        by_cases hj : j = i
        · subst hj
          rw [hi]
          exact hbox v hv
        · rwa [hne hj]
      const := fun j hj => by
        by_cases e : j = i
        · subst e
          rw [hi]
          exact hkeep hj
        · rwa [hne e]
      drafts := fun j hj => hne fun e => hd (e ▸ hj) }
  refine ⟨h.quiet hq h.interned (fun j => ?_) (fun j => ?_) (fun j v => ?_) fun j w => ?_, hq.later⟩
  all_goals by_cases hj : j = i
  all_goals first | (subst hj; rw [hi]) | rw [hne hj]
  · exact hvirt
  · exact fun _ hv => hv
  · exact hconst
  · exact .inl
  · exact fun hv hn hb => hentry v hv hn hb hq.later
  · exact fun hv hn => by cases hv.symm.trans hn
  · exact fun hw => (hbuilds w hw).imp id hq.later.builds
  · exact .inl

theorem update_does (h : σ.Sound s) (hlt : i < s.infos.size) (hd : ¬ σ.draft i) (hbox : (f (s.info i)).box = (s.info i).box)
    (hkey : (f (s.info i)).key = (s.info i).key) (hvirt : (s.info i).virt ≠ none → (f (s.info i)).virt ≠ none)
    (hconst : (f (s.info i)).isConst = (s.info i).isConst) (hbuilds : ∀ w, (f (s.info i)).virt = some w → (s.info i).virt = some w ∨ σ.Builds s i w) :
    σ.Does none (update i f) s fun _ s' => (s'.info i) = f (s.info i) ∧ s'.ops = s.ops ∧ s'.store = s.store := by
  obtain ⟨hs', hl⟩ := h.modified hlt hd (fun v hv => hbox.trans hv) hkey (fun _ hv => hvirt hv) hconst.trans (fun hc => .inl (hconst.symm.trans hc))
    (fun v hv hn => by cases (hbox.symm.trans hv).symm.trans hn) hbuilds
  exact ⟨(), _, rfl, hs', hl, OptimizeState.info_modified hlt, rfl, rfl⟩

theorem withNonNull_same (x : Info) :
    x.withNonNull.box = x.box ∧ x.withNonNull.key = x.key ∧ x.withNonNull.virt = x.virt ∧ x.withNonNull.isConst = x.isConst := by
  unfold Info.withNonNull
  split
  · refine ⟨rfl, rfl, rfl, ?_⟩
    unfold Info.isConst
    cases hx : x.level <;> simp_all [Level.rank]
  · exact ⟨rfl, rfl, rfl, rfl⟩

theorem ensureNonNull_does (h : σ.Sound s) (hlt : i < s.infos.size) (hd : ¬ σ.draft i) :
    σ.Does none (ensureNonNull i) s fun _ s' => (s'.info i).box = (s.info i).box ∧ (s'.info i).virt = (s.info i).virt ∧
      s'.ops = s.ops ∧ s'.store = s.store := by
  obtain ⟨hbox, hkey, hvirt, hconst⟩ := withNonNull_same (s.info i)
  refine (update_does h hlt hd hbox hkey (fun hv => hvirt ▸ hv) hconst fun w hw => .inl (hvirt ▸ hw)).mono fun _ s' _ _ hi => ?_
  obtain ⟨hi, ho, hst⟩ := hi
  exact ⟨hi ▸ hbox, hi ▸ hvirt, ho, hst⟩

/-! ## Constant strings -/

theorem Sound.gives_str (h : σ.Sound s) (hr : s.store.str? r = some (cs, u)) : σ.Gives s (.ofRef r) (.str cs u) where
  defined := trivial
  canon i hi := (h.constIds (.ptr (some r)) i hi).1
  const k hk := by
    cases hk
    exact hr
  given := nofun
  shows c hc := ⟨r, rfl, h.kept c hc r _ (hc.1 r _ hr)⟩
  unlocked c hc p hp hlock := by
    cases hp
    cases (h.locked r hlock).1.symm.trans (hc.1 r _ hr)

theorem onStore_intern {t : Store} (e : Store.intern cs u s.store = .ok r t) : onStore (Store.intern cs u) s = .ok r { s with store := t } := by
  rw [onStore, show (Store.intern cs u).run s.store = _ from e]

theorem intern_does (h : σ.Sound s) (hcs : ∀ c ∈ cs, Store.isScalar c = true) (u : Bool) :
    σ.Does none (onStore (Store.intern cs u)) s fun r s' => s'.store.str? r = some (cs, u) ∧ s'.infos = s.infos := by
  obtain ⟨r, t, e, hint⟩ := Store.intern_ok h.interned hcs u
  let s' : OptimizeState := { s with store := t }
  have hq : σ.Quiet s s' :=
    { strings := hint.strings, boxes := Nat.le_of_eq hint.boxes.symm, calls := hint.calls, ids := rfl, size := rfl, ops := rfl
      key := fun _ => rfl, box := fun _ _ hv => hv, const := fun _ hc => hc, drafts := fun _ _ => rfl }
  exact ⟨r, s', onStore_intern e, h.quiet hq hint.interned (fun _ _ hv => hv) (fun _ hc => .inl hc)
    (fun i v hv hn => by cases hv.symm.trans hn) (fun _ _ hw => .inl hw), hq.later, hint.here, rfl⟩

theorem becomeConst_str (hr : s.store.str? r = some (cs, u)) : becomeConst i (some (.ofRef r)) s =
    .ok () (s.modified i fun x => { x with box := some (.ofRef r), level := .constant, virt := none }) := by
  have hstruct : s.store.isStruct r = false := by rw [Store.isStruct, Store.object_of_str? hr]
  refine (bind_eq (show update i _ s = .ok () (s.modified i _) from rfl)).trans ?_
  refine (bind_eq (show (MonadState.get : OptimizeM OptimizeState) _ = .ok _ _ from rfl)).trans ?_
  rw [show (s.modified i _).store.isStruct r = s.store.isStruct r from rfl, hstruct]
  rfl

theorem becomeConst_does (h : σ.Sound s) (hlt : i < s.infos.size) (hd : ¬ σ.draft i) (hbox : (s.info i).box = none)
    (hcontent : σ.content i = .str cs u) (hr : s.store.str? r = some (cs, u)) :
    σ.Does none (becomeConst i (some (.ofRef r))) s fun _ s' => (s'.info i).box = some (.ofRef r) := by
  let f (x : Info) : Info := { x with box := some (.ofRef r), level := .constant, virt := none }
  have hi : (s.modified i f).info i = f (s.info i) := OptimizeState.info_modified hlt
  have hmeans : (Const.ptr (some r)).Means s.store (σ.content i) := by
    rw [hcontent]
    exact hr
  obtain ⟨hs', hl⟩ := h.modified hlt hd (f := f) (fun v hv => by cases hbox.symm.trans hv) rfl nofun (fun _ => rfl) (fun _ => .inr ⟨_, rfl, hmeans⟩)
    (fun v hv _ _ hl => by
      cases hv
      rw [hcontent]
      exact hl.gives (h.gives_str hr)) nofun
  exact ⟨(), _, becomeConst_str hr, hs', hl, congrArg Info.box hi⟩

/-! ## Other scenes -/

variable {B U : InfoId → Prop} {L : Ref → Prop}

/-- The scene with other strings being allocated. -/
abbrev allocating (σ : Scene) (B U : InfoId → Prop) (L : Ref → Prop) : Scene := σ.altered B U L σ.result

theorem Later.allocating (h : (σ.allocating B U L).Later none s s') : σ.Later none s s' :=
  { h with
    target := .none
    back := fun c' hc' => (h.back c' hc').imp fun _ hc => ⟨hc.1, hc.2.env, hc.2.strings⟩ }

/-- What is true of a string while it is filled is true without it when it is full. -/
theorem Later.filled {s'' : OptimizeState} {v : Value} (h : σ.Later none s s') (h' : (σ.allocating B U L).Later (some v) s' s'')
    (hnew : ∀ c c' r x, σ.Reaches s c → σ.Reaches s' c' → c.store.str? r = some x → c'.env.val v ≠ .ptr (some r)) : σ.Later none s s'' where
  target := .none
  strings := h.strings.trans h'.strings
  boxes := Nat.le_trans h.boxes h'.boxes
  calls := h'.calls.trans h.calls
  ids := h'.ids.trans h.ids
  size := h'.size.trans h.size
  defined v hv := h'.defined v (h.defined v hv)
  known b hb hk := (h'.known b hb hk).elim (h.known b hb) .inr
  key i := (h'.key i).trans (h.key i)
  box i v hv := h'.box i v (h.box i v hv)
  drafts i hi := (h'.drafts i hi).trans (h.drafts i hi)
  back c'' hc'' := by
    obtain ⟨c', hc', hl'⟩ := h'.back c'' hc''
    obtain ⟨c, hc, hl⟩ := h.back c' hc'
    refine ⟨c, hc, fun b hb => (hl'.env b (h.defined _ hb)).trans (hl.env b hb), fun r x _ hx => ?_⟩
    refine hl'.strings r x (fun w hw => ?_) (hl.strings r x nofun hx)
    cases hw
    exact hnew c c' r x hc hc' hx

/-! ## New strings -/

variable {emit : Emit} {b : Box}

theorem Sound.start_allocating (h : σ.Sound s) (hlt : i < s.infos.size) (hd : ¬ σ.draft i) (hbox : (s.info i).box = none)
    (hcontent : σ.content i = .str cs u) (hf : (f (s.info i)).box = some (.box b)) (hkey : (f (s.info i)).key = (s.info i).key)
    (hconst : (f (s.info i)).isConst = (s.info i).isConst) (hvirt : ∀ w, (f (s.info i)).virt = some w → (s.info i).virt = some w) :
    (σ.allocating (fun j => σ.busy j ∨ j = i) (fun j => σ.unbound j ∨ j = i) σ.locked).Sound (s.modified i f) ∧ σ.Later none s (s.modified i f) := by
  have hσ : (σ.allocating (fun j => σ.busy j ∨ j = i) (fun j => σ.unbound j ∨ j = i) σ.locked).Sound s := by
    refine h.altered ?_ ?_ ?_ ?_ ?_ h.locked
    · rintro j (hj | rfl)
      · exact h.busy j hj
      · exact ⟨hlt, _, _, hcontent⟩
    · exact fun j v hlt hv hj => (h.entry j v hlt hv fun hb => hj (.inl hb)).altered fun _ _ _ _ hl => hl
    · exact fun j hj => hj.imp (h.unbound j) id
    · rintro j (hj | rfl)
      · exact .inl hj
      · exact .inr hbox
    · exact fun j hj => (h.drafts j hj).2.2.imp id .inl
  obtain ⟨hs', hl⟩ := hσ.modified (f := f) hlt hd (fun v hv => by cases hbox.symm.trans hv) hkey (fun hn => by cases hf.symm.trans hn)
    hconst.trans (fun hc => .inl (hconst.symm.trans hc)) (fun v hv _ hb => absurd (.inr rfl) hb) fun w hw => .inl (hvirt w hw)
  exact ⟨hs', hl.allocating⟩

theorem Sound.start_filling {σ : Scene} {s s' : OptimizeState} {k : Nat} {m : StringMode} {length : Value}
    (h : (σ.allocating (fun j => σ.busy j ∨ j = i) (fun j => σ.unbound j ∨ j = i) σ.locked).Sound s) (hunbound : ¬ σ.unbound i)
    (hbox : (s.info i).box = some (.box b)) (hkey : (s.info i).key = .box b) (hlt : i < s.infos.size) (hk : k < 2 ^ 63)
    (hlength : (σ.allocating (fun j => σ.busy j ∨ j = i) (fun j => σ.unbound j ∨ j = i) σ.locked).Gives s length (.int k)) {t : Nat}
    (hw : s.Writes { code := m.newstr, args := [length], result := some b, tag := t } s') :
    ∃ L : Ref → Prop, (σ.allocating (fun j => σ.busy j ∨ j = i) σ.unbound L).Sound s' ∧ σ.Later none s s' ∧
      (∀ r, σ.locked r → L r) ∧ (∀ r, L r → σ.locked r ∨ ∀ c, σ.Reaches s c → c.store.str? r = none) ∧
      (∀ c c' r, σ.Reaches s c → σ.Reaches s' c' → c'.env b = .ptr (some r) → c.store.str? r = none) ∧
      (σ.allocating (fun j => σ.busy j ∨ j = i) σ.unbound L).Target s' (.box b) (blankAfter [] k) m.unicode := by
  obtain ⟨b', hb', hid, hundefined⟩ := h.hidden i hlt (.inr (.inr rfl))
  cases hkey.symm.trans hb'
  have hσ : (σ.allocating (fun j => σ.busy j ∨ j = i) σ.unbound σ.locked).Sound s :=
    h.altered h.busy (fun j v hlt hv hj => (h.entry j v hlt hv hj).altered fun _ _ _ _ hl => hl) (fun j hj => h.unbound j (.inl hj))
      (fun j hj => .inl (.inl hj)) (fun j hj => (h.drafts j hj).2.2) h.locked
  have hnew : (σ.allocating (fun j => σ.busy j ∨ j = i) σ.unbound σ.locked).New s b :=
    { undefined := hundefined
      id_le := h.boxes b (.inr (by rw [hid]; exact some_ne_none i))
      visible := fun j hj hid' => by
        cases hid.symm.trans hid'
        rcases hj with hj | hj
        · cases hbox.symm.trans hj
        · exact hunbound hj
      known := .inr (.inl (by rw [hid]; exact some_ne_none i)) }
  have hword : (Int64.ofInt k).toInt.toNat = k := by rw [toInt_ofInt_nat hk, Int.toNat_natCast]
  have hstep (c : Config) (hc : σ.Reaches s c) : ∃ store,
      c.step { code := m.newstr, args := [length], result := some b, tag := t } =
        some ⟨Function.update c.env b (.ptr (some c.store.objects.size)), store⟩ ∧
      c.store.Puts c.store.objects.size (blankAfter [] k) m.unicode store := by
    obtain ⟨store, e, hput⟩ := Config.step_newstr (m := m) (r := b) (hlength.shows c hc)
    rw [hword] at hput
    exact ⟨store, e, hput⟩
  have hreach (c' : Config) (hc' : σ.Reaches s' c') : ∃ c, σ.Reaches s c ∧ c'.env b = .ptr (some c.store.objects.size) ∧
      c'.store.str? c.store.objects.size = some (blankAfter [] k, m.unicode) := by
    obtain ⟨c, hc, e⟩ := (reaches_writes hw).1 hc'
    obtain ⟨store, e', hput⟩ := hstep c hc
    cases e.symm.trans e'
    exact ⟨c, hc, Function.update_self .., hput.str?⟩
  obtain ⟨hs', hl⟩ := hσ.writes (t := none) hw .none (fun b' hb' => by cases hb'; exact hnew) fun c hc => by
    obtain ⟨store, e, hput⟩ := hstep c hc
    have hstrings := hput.strings c.store.str?_size
    refine ⟨_, e, fun b' hb' => Function.update_of_ne (fun e => hb' (congrArg some e.symm)) _ _, fun r x _ hx => hstrings r x hx, fun r hx => ?_⟩
    obtain ⟨x, hx⟩ := ne_none_iff_exists'.1 hx
    rw [hstrings r x hx]
    exact some_ne_none x
  replace hl : σ.Later none s s' := hl.allocating
  refine ⟨fun r => σ.locked r ∨ ∃ c, σ.Reaches s c ∧ r = c.store.objects.size, ?_, hl, fun r hr => .inl hr, fun r hr => hr.imp id ?_,
    fun c c' r hc hc' hr => ?_, (defined_writes hw).2 (.inr ⟨b, rfl, rfl⟩), fun j hj => ?_, by simpa using hk, fun c' hc' => ?_⟩
  · refine hs'.altered hs'.busy (fun j v hlt hv hj => (hs'.entry j v hlt hv hj).altered ?_) hs'.unbound (fun j hj => .inl hj)
      (fun j hj => (hs'.drafts j hj).2.2) ?_
    · rintro c' r hc' hr (hr' | ⟨c, hc, rfl⟩)
      · exact hr'
      · -- what had a value before the string was made does not point to it
        have hgives := hσ.entry j v (by rwa [hw.infos] at hlt) (by rwa [OptimizeState.info, hw.infos] at hv) hj
        obtain ⟨c₁, hc₁, hlead⟩ := hl.back c' hc'
        cases hc.unique hc₁
        have hval := (hlead.val hgives.defined).symm.trans hr
        exact absurd c.store.str?_size ((hgives.shows c hc).str?_ne_none hval)
    · rintro r (hr | ⟨c, hc, rfl⟩)
      · exact hs'.locked r hr
      · constructor
        · by_contra hne
          obtain ⟨x, hx⟩ := ne_none_iff_exists'.1 hne
          cases (h.kept c hc _ x hx).symm.trans c.store.str?_size
        · intro c' hc'
          obtain ⟨c₁, hc₁, -, hs⟩ := hreach c' hc'
          cases hc.unique hc₁
          rw [hs]
          exact some_ne_none _
  · rintro ⟨c, hc, rfl⟩ c' hc'
    cases hc.unique hc'
    exact c.store.str?_size
  · obtain ⟨c₁, hc₁, hb, -⟩ := hreach c' hc'
    cases hc.unique hc₁
    cases hb.symm.trans hr
    exact c.store.str?_size
  · rw [OptimizeState.id?_box, hw.ids, hid] at hj
    cases hj
    rwa [OptimizeState.info, hw.infos]
  · obtain ⟨c, hc, hb, hs⟩ := hreach c' hc'
    exact ⟨_, .inr ⟨c, hc, rfl⟩, hb, hs⟩

theorem Sound.finish_filling {σ : Scene} {s₀ s : OptimizeState} {L : Ref → Prop} (h₀ : σ.Sound s₀) (hfree : σ.Free i)
    (h : (σ.allocating (fun j => σ.busy j ∨ j = i) σ.unbound L).Sound s) (hL : ∀ r, σ.locked r → L r)
    (ht : (σ.allocating (fun j => σ.busy j ∨ j = i) σ.unbound L).Target s (.box b) cs u) (hcontent : σ.content i = .str cs u)
    (hbox : (s.info i).box = some (.box b)) (hgiven : σ.given b = none) (hnew : ∀ c, σ.Reaches s c → ∀ r, c.env b = .ptr (some r) → ¬ σ.locked r) :
    σ.Sound s := by
  refine h.altered (fun j hj => h.busy j (.inl hj)) (fun j v hlt hv hj => ?_) h₀.unbound (fun j hj => .inl hj) (fun j hj => ?_) fun r hr =>
    h.locked r (hL r hr)
  · by_cases hji : j = i
    · subst hji
      cases hbox.symm.trans hv
      exact
        { defined := ht.defined
          canon := ht.canon
          const := nofun
          given := fun b' y e hy => by
            cases e
            cases hgiven.symm.trans hy
          shows := fun c hc => by
            obtain ⟨r, -, hr, hs⟩ := ht.shows c hc
            exact hcontent ▸ ⟨r, hr, hs⟩
          unlocked := hnew }
    · exact (h.entry j v hlt hv fun hb => hb.elim hj hji).altered fun c r _ _ hl => hL r hl
  · exact (h.drafts j hj).2.2.imp id fun hb => hb.resolve_right fun e => hfree.1 (e ▸ hj)

/-- An entry gets a new string, of a length that is worked out first, and the string is filled. -/
theorem makeString_does {σ : Scene} {s : OptimizeState} (he : Emits emit) (h : σ.Sound s) (hlt : i < s.infos.size) (hfree : σ.Free i) (hbox :
    (s.info i).box = none) (hcontent : σ.content i = .str cs u) (hkey : (s.info i).key = .box b) {length : OptimizeM (Option Value)} {fill :
    OptimizeM Value} (hlength : ∀ B U L s', (σ.allocating B U L).Sound s' → (∀ j < i, ¬ σ.draft j → (σ.allocating B U L).Free j) → σ.Later none s s' →
      (σ.allocating B U L).Does none length s' fun v s'' => ∃ x, v = some x ∧ (σ.allocating B U L).Gives s'' x (.int cs.length))
    (hfill : ∀ B U L s', (σ.allocating B U L).Sound s' → (∀ j < i, ¬ σ.draft j → (σ.allocating B U L).Free j) → σ.Later none s s' →
      (σ.allocating B U L).Target s' (.box b) (blankAfter [] cs.length) u →
      (σ.allocating B U L).Does (some (.box b)) fill s' fun _ s'' => (σ.allocating B U L).Target s'' (.box b) cs u) :
    σ.Does none (do
      update i fun x => { x with box := some (.box b) }
      let length := (← length).getD default
      emit { code := (⟨u⟩ : StringMode).newstr, args := [length], result := some b }
      let _ ← fill) s fun _ s' => (s'.info i).box = some (.box b) := by
  have hunbound : ¬ σ.unbound i := fun hu => hfree.not_busy (h.unbound i hu)
  have hparts (j : InfoId) (hj : j < i) (hd : ¬ σ.draft j) {U : InfoId → Prop} {L : Ref → Prop} :
      (σ.allocating (fun j => σ.busy j ∨ j = i) U L).Free j := by
    refine ⟨hd, ?_⟩
    rintro k (hk | rfl)
    · exact (hfree.2 k hk).imp id (Nat.lt_trans hj)
    · exact .inr hj
  have hvalid := h.valid i hlt
  rw [hcontent] at hvalid
  obtain ⟨hs₁, hl₁⟩ := h.start_allocating (f := fun x => { x with box := some (.box b) }) hlt hfree.1 hbox hcontent rfl rfl rfl fun _ hw => hw
  have hi₁ := OptimizeState.info_modified (s := s) (f := fun x => { x with box := some (.box b) }) hlt
  obtain ⟨v, s₂, e₂, hs₂, hl₂, x, rfl, hx⟩ := hlength _ _ _ _ hs₁ (fun j hj hd => hparts j hj hd) hl₁
  have hbox₂ : (s₂.info i).box = some (.box b) := hl₂.box i _ (congrArg Info.box hi₁)
  have hkey₂ : (s₂.info i).key = .box b := (hl₂.key i).trans ((congrArg Info.key hi₁).trans hkey)
  replace hl₂ : σ.Later none s s₂ := hl₁.trans hl₂.allocating
  obtain ⟨s₃, e₃, hw⟩ := he s₂ { code := (⟨u⟩ : StringMode).newstr, args := [x], result := some b } (by cases u <;> rfl)
    (by simp [hx.canon])
  obtain ⟨L, hs₃, hl₃, hL, -, hfresh, ht₃⟩ := hs₂.start_filling hunbound hbox₂ hkey₂ (hl₂.size ▸ hlt) hvalid.1 hx hw
  obtain ⟨v, s₄, e₄, hs₄, hl₄, ht₄⟩ := hfill _ _ _ _ hs₃ (fun j hj hd => hparts j hj hd) (hl₂.trans hl₃) ht₃
  have hbox₄ : (s₄.info i).box = some (.box b) := hl₄.box i _ (hl₃.box i _ hbox₂)
  refine ⟨(), s₄, ?_, ?_, ?_, hbox₄⟩
  · exact (bind_eq rfl).trans ((bind_eq e₂).trans ((bind_eq e₃).trans ((bind_eq e₄).trans rfl)))
  · obtain ⟨b', hb', -, hundefined⟩ := h.hidden i hlt (.inl hbox)
    cases hkey.symm.trans hb'
    have hgiven : σ.given b = none := by
      by_contra hne
      exact hundefined (.inl (isSome_iff_ne_none.2 hne))
    refine h.finish_filling hfree hs₄ hL ht₄ hcontent hbox₄ hgiven fun c₄ hc₄ r hr hlock => ?_
    obtain ⟨c₃, hc₃, hlead₃⟩ := hl₄.back c₄ hc₄
    obtain ⟨c₂, hc₂, -⟩ := hl₃.back c₃ hc₃
    exact (hs₂.locked r hlock).2 c₂ hc₂ (hfresh c₂ c₃ r hc₂ hc₃ ((hlead₃.env b ht₃.defined).symm.trans hr))
  · refine (hl₂.trans hl₃).filled hl₄ fun c c₃ r y hc hc₃ hy hr => ?_
    obtain ⟨c₂, hc₂, -⟩ := hl₃.back c₃ hc₃
    obtain ⟨c₁, hc₁, hlead⟩ := hl₂.back c₂ hc₂
    cases hc.unique hc₁
    cases (hlead.strings r y nofun hy).symm.trans (hfresh c₂ c₃ r hc₂ hc₃ hr)

end Scene
end FlowCompiler.Trace
