import FlowCompiler.Proofs.Strings.Building

/-!
# Strings of constants

A trace may make, write, join and cut strings with constants only.  A sheet says which characters of its strings are written so far, and it
is a sketch of what the operations build.  The optimizer knows all that is on a sheet: the entry of a string that is complete can be read
off down to constants, and that stays so when more entries are made.
-/

namespace FlowCompiler.Trace

open OptimizeM Strings Option

/-- The strings of a trace, with the characters that are written so far, and which of them it still writes. -/
structure Sheet where
  text : Box → Option (List (Option Int) × Bool)
  draft : Box → Prop

namespace Sheet

variable {k k' : Sheet} {b r : Box} {xs : List (Option Int)} {u : Bool} {st : Store} {last : Nat} {limit : Int}

/-- The sheet of a trace that has not started. -/
def blank : Sheet := { text := fun _ => none, draft := fun _ => False }

/-- A box is a string from now on. -/
def bind (k : Sheet) (b : Box) (xs : List (Option Int)) (u : Bool) : Sheet := { k with text := Function.update k.text b (some (xs, u)) }

theorem text_bind (k : Sheet) (b : Box) (xs : List (Option Int)) (u : Bool) : (k.bind b xs u).text b = some (xs, u) := Function.update_self ..

theorem text_bind_of_ne {c : Box} (h : c ≠ b) : (k.bind b xs u).text c = k.text c := Function.update_of_ne h _ _

/-- A string is written from now on. -/
def opened (k : Sheet) (b : Box) : Sheet := { k with draft := fun c => k.draft c ∨ c = b }

/-- The strings among some operands are not written any more. -/
def closed (k : Sheet) (vs : List Value) : Sheet := { k with draft := fun c => k.draft c ∧ .box c ∉ vs }

/-- What an operand is: a string all of whose characters are written, or a constant. -/
def Says (k : Sheet) (st : Store) : Value → List Int → Bool → Prop
  | .box b, cs, u => k.text b = some (cs.map some, u)
  | .const c, cs, u => c.Means st (.str cs u) ∧ (Content.str cs u).Valid

/-- A box that a trace has not bound yet. -/
def New (k : Sheet) (last : Nat) (r : Box) : Prop := k.text r = none ∧ r.id ≤ last

/-- What an operation with constants makes of a sheet.  What is joined and cut is complete. -/
inductive Step (st : Store) (last : Nat) (limit : Int) (k : Sheet) : Op → Sheet → Prop
  | fresh {m : StringMode} {n t : Nat} {r : Box} (hr : k.New last r) (hn : n < 2 ^ 63) (hlimit : n ≤ limit) :
    k.Step st last limit (freshOp m n r t) ((k.bind r (List.replicate n none) m.unicode).opened r)
  | write {m : StringMode} {p t : Nat} {b : Box} {xs : List (Option Int)} {u : Bool} {ch : Int} (hd : k.draft b)
    (hb : k.text b = some (xs, u)) (hp : p < xs.length) (hch : Store.isScalar ch = true) :
    k.Step st last limit { code := m.setitem, args := [.box b, .ofInt p, .ofInt ch], tag := t } (k.bind b (xs.set p (some ch)) u)
  | concat {m : StringMode} {code : Opcode} {t : Nat} {d : CallId} {f : Ref} {name : String} {r : Box} {a b : Value} {xs ys : List Int}
    (hc : code = .call ∨ code = .callPure) (hf : st.object f = .func name (some (.string .concat)))
    (hd : (st.call d).effect.special = Special.concat + m.offset) (hr : k.New last r) (ha : k.Says st a xs m.unicode)
    (hb : k.Says st b ys m.unicode) (hshort : (xs ++ ys).length < 2 ^ 63) :
    k.Step st last limit { code, args := [.ofRef f, a, b], result := some r, descr := some (.call d), tag := t }
      ((k.closed [a, b]).bind r ((xs ++ ys).map some) m.unicode)
  | slice {m : StringMode} {code : Opcode} {p q t : Nat} {d : CallId} {f : Ref} {name : String} {r : Box} {a : Value} {cs : List Int}
    (hc : code = .call ∨ code = .callPure) (hf : st.object f = .func name (some (.string .slice)))
    (hd : (st.call d).effect.special = Special.slice + m.offset) (hr : k.New last r) (ha : k.Says st a cs m.unicode)
    (hpq : p ≤ q) (hq : q ≤ cs.length) :
    k.Step st last limit { code, args := [.ofRef f, a, .ofInt p, .ofInt q], result := some r, descr := some (.call d), tag := t }
      ((k.closed [a, .ofInt p, .ofInt q]).bind r (((cs.drop p).take (q - p)).map some) m.unicode)

/-- What operations with constants make of a sheet. -/
inductive Steps (st : Store) (last : Nat) (limit : Int) : Sheet → List Op → Sheet → Prop
  | nil {k : Sheet} : k.Steps st last limit [] k
  | cons {k k' k'' : Sheet} {op : Op} {ops : List Op} (h : k.Step st last limit op k') (h' : k'.Steps st last limit ops k'') :
    k.Steps st last limit (op :: ops) k''

/-! ## A sheet is a sketch -/

/-- The sketch of a sheet; what is not written yet is zero. -/
def sketch (k : Sheet) : Sketch where
  den b := (k.text b).map fun x => .str (x.1.map fun c => c.getD 0) x.2
  draft := k.draft

theorem den_sketch (k : Sheet) (b : Box) : k.sketch.den b = (k.text b).map fun x => .str (x.1.map fun c => c.getD 0) x.2 := rfl

theorem written_map_some (cs : List Int) : (cs.map some).map (fun c => c.getD 0) = cs := List.map_map.trans (List.map_id cs)

theorem den_of_complete {cs : List Int} (h : k.text b = some (cs.map some, u)) : k.sketch.den b = some (.str cs u) := by
  rw [den_sketch, h]
  exact congrArg (fun ds => some (Content.str ds u)) (written_map_some cs)

theorem sketch_bind (k : Sheet) (b : Box) (xs : List (Option Int)) (u : Bool) :
    (k.bind b xs u).sketch = k.sketch.bind b (.str (xs.map fun c => c.getD 0) u) := by
  have hden : (k.bind b xs u).sketch.den = (k.sketch.bind b (.str (xs.map fun c => c.getD 0) u)).den := by
    funext c
    by_cases e : c = b
    · subst e
      rw [den_sketch, text_bind, Sketch.den_bind]
      rfl
    · rw [den_sketch, text_bind_of_ne e, Sketch.den_bind_of_ne e, den_sketch]
  exact congrArg (Sketch.mk · k.draft) hden

theorem sketch_bind_complete (k : Sheet) (b : Box) (cs : List Int) (u : Bool) : (k.bind b (cs.map some) u).sketch = k.sketch.bind b (.str cs u) := by
  rw [sketch_bind, written_map_some]

theorem sketch_closed (k : Sheet) (vs : List Value) : (k.closed vs).sketch = k.sketch.closed vs := by
  have hden : (k.closed vs).sketch.den = (k.sketch.closed vs).den := (Sketch.den_closed k.sketch vs).symm
  have hdraft : (k.closed vs).sketch.draft = (k.sketch.closed vs).draft :=
    funext fun c => propext (show k.sketch.draft c ∧ .box c ∉ vs ↔ (k.sketch.closed vs).draft c from Sketch.draft_closed.symm)
  exact congr (congrArg Sketch.mk hden) hdraft

theorem Says.sketch {v : Value} {cs : List Int} (h : k.Says st v cs u) : k.sketch.Says st v (.str cs u) := by
  cases v with
  | box b => exact den_of_complete h
  | const c => exact h

theorem New.sketch (h : k.New last r) : k.sketch.New last r := ⟨by rw [den_sketch, h.1]; rfl, h.2⟩

theorem says_ofInt (k : Sketch) (n : Int) : k.Says st (.ofInt n) (.int n) := ⟨rfl, trivial⟩

theorem Step.sketch {op : Op} (h : k.Step st last limit op k') : k.sketch.Step st last op k'.sketch := by
  cases h with
  | @fresh m n t r hr hn _ =>
    change k.sketch.Step st last _ ((k.bind r _ _).sketch.opened r)
    rw [sketch_bind, List.map_replicate]
    exact .fresh hr.sketch hn
  | @write m p t b xs u ch hd hb hp hch =>
    have hden : k.sketch.den b = some (.str (xs.map fun c => c.getD 0) u) := by rw [den_sketch, hb]; rfl
    rw [sketch_bind, List.map_set]
    exact .write hd hden (by simpa using hp) (says_ofInt _ ch) hch
  | concat hc hf hd hr ha hb hshort =>
    rw [sketch_bind_complete, sketch_closed]
    exact .concat hc hf hd hr.sketch ha.sketch hb.sketch hshort
  | @slice m code p q t d f name r a cs hc hf hd hr ha hpq hq =>
    rw [sketch_bind_complete, sketch_closed]
    exact .slice hc hf hd hr.sketch ha.sketch (says_ofInt _ p) (says_ofInt _ q) hpq hq

theorem Steps.sketch {ops : List Op} (h : k.Steps st last limit ops k') : k.sketch.Steps st last ops k'.sketch := by
  induction h with
  | nil => exact .nil
  | cons h _ ih => exact .cons h.sketch ih

end Sheet

/-! ## Known strings -/

/-- An entry says what it said of a string or of a constant. -/
structure Info.Similar (x y : Info) : Prop where
  box : y.box = x.box
  key : y.key = x.key
  virt : y.virt = x.virt
  isConst : y.isConst = x.isConst

theorem Info.Similar.refl (x : Info) : x.Similar x := ⟨rfl, rfl, rfl, rfl⟩

theorem Info.Similar.trans {x y z : Info} (h : x.Similar y) (h' : y.Similar z) : x.Similar z :=
  ⟨h'.box.trans h.box, h'.key.trans h.key, h'.virt.trans h.virt, h'.isConst.trans h.isConst⟩

theorem Info.Similar.constInt? {x y : Info} (h : x.Similar y) : y.constInt? = x.constInt? := by
  rw [Info.constInt?, Info.constInt?, h.box, h.isConst]

variable {chars : List (Option InfoId)} {n : Int64}

theorem Info.constInt?_of_box {x : Info} (hbox : x.box = some (.const (.int n))) (hc : x.isConst = true) : x.constInt? = some n := by
  rw [Info.constInt?, hc, hbox]
  rfl

namespace OptimizeState

variable {s s' : OptimizeState} {D D' : InfoId → Prop} {i : InfoId} {u : Bool} {cs : List Int}

theorem isConst_of_constInt? (h : (s.info i).constInt? = some n) : (s.info i).isConst = true := by
  by_contra hc
  rw [Info.constInt?, if_neg hc] at h
  cases h

theorem lt_of_constInt? (h : (s.info i).constInt? = some n) : i < s.infos.size := by
  rw [Info.constInt?, if_pos (isConst_of_constInt? h)] at h
  obtain ⟨v, hv, -⟩ := bind_eq_some_iff.1 h
  exact Scene.lt_of_box hv

/-- The entry of a virtual string that is not among some entries. -/
structure Kept (s : OptimizeState) (D : InfoId → Prop) (i : InfoId) (w : Virtual) : Prop where
  lt : i < s.infos.size
  not_mem : ¬ D i
  box : (s.info i).box = none
  key : ∃ b, (s.info i).key = .box b
  virt : (s.info i).virt = some w
  isConst : (s.info i).isConst = false

/-- The entry of a character that is written is a constant. -/
def Noted (s : OptimizeState) : Option InfoId → Option Int → Prop
  | some c, some x => (s.info c).constInt? = some (Int64.ofInt x) ∧ Store.isScalar x = true
  | none, none => True
  | _, _ => False

/-- A string all of whose parts are constants in the end, and none of whose parts is among some entries. -/
inductive Folded (s : OptimizeState) (D : InfoId → Prop) : InfoId → Bool → List Int → Prop
  | const {i : InfoId} {r : Ref} {u : Bool} {cs : List Int} (hd : ¬ D i) (hbox : (s.info i).box = some (.ofRef r))
    (hc : (s.info i).isConst = true) (hr : s.store.str? r = some (cs, u)) (hvalid : (Content.str cs u).Valid) : s.Folded D i u cs
  | plain {i : InfoId} {u : Bool} {chars : Array (Option InfoId)} {cs : List Int} (h : s.Kept D i (.plain u chars))
    (hchars : List.Forall₂ s.Noted chars.toList (cs.map some)) (hshort : cs.length < 2 ^ 63) : s.Folded D i u cs
  | concat {i l r : InfoId} {u : Bool} {len : Option Value} {xs ys : List Int} (h : s.Kept D i (.concat u l r len)) (hl : l < i)
    (hr : r < i) (hxs : s.Folded D l u xs) (hys : s.Folded D r u ys) (hshort : (xs ++ ys).length < 2 ^ 63) : s.Folded D i u (xs ++ ys)
  | slice {i str start len : InfoId} {u : Bool} {cs : List Int} {p n : Nat} (h : s.Kept D i (.slice u str start len)) (hstr : str < i)
    (hp : (s.info start).constInt? = some (Int64.ofInt p)) (hn : (s.info len).constInt? = some (Int64.ofInt n)) (hle : p + n ≤ cs.length)
    (hcs : s.Folded D str u cs) : s.Folded D i u ((cs.drop p).take n)

theorem forall₂_noted_valid (h : List.Forall₂ s.Noted chars (cs.map some)) : ∀ z ∈ cs, Store.isScalar z = true := by
  induction cs generalizing chars with
  | nil => simp
  | cons x cs ih =>
    rcases h with _ | @⟨c, _, _, _, hx, h⟩
    cases c with
    | none => exact hx.elim
    | some c => exact List.forall_mem_cons.2 ⟨hx.2, ih h⟩

theorem forall₂_noted_none (n : Nat) : List.Forall₂ s.Noted (List.replicate n none) (List.replicate n none) := by
  induction n with
  | zero => exact .nil
  | succ n ih => exact .cons trivial ih

namespace Folded

theorem lt (h : s.Folded D i u cs) : i < s.infos.size := by
  cases h with
  | const _ hbox => exact Scene.lt_of_box hbox
  | plain h | concat h | slice h => exact h.lt

theorem valid (h : s.Folded D i u cs) : (Content.str cs u).Valid := by
  induction h with
  | const _ _ _ _ hvalid => exact hvalid
  | plain _ hchars hshort => exact ⟨hshort, forall₂_noted_valid hchars⟩
  | concat _ _ _ _ _ hshort ihx ihy => exact ⟨hshort, fun z hz => (List.mem_append.1 hz).elim (ihx.2 z) (ihy.2 z)⟩
  | @slice _ _ _ _ _ _ p n _ _ _ _ _ _ ih => exact ih.part p n

theorem mapM_noted (h : List.Forall₂ s.Noted chars (cs.map some)) : chars.mapM (fun c => do
      let c ← c
      let code ← (s.info c).constInt?
      pure (Reader.toChar code)) = some cs := by
  induction cs generalizing chars with
  | nil =>
    cases h
    rfl
  | cons x cs ih =>
    rcases h with _ | @⟨c, _, _, _, hx, h⟩
    cases c with
    | none => exact hx.elim
    | some c =>
      rw [List.mapM_cons, ih h]
      simp only [bind_eq_bind, bind_some, hx.1, Config.toChar_ofInt hx.2, pure_def]

theorem constString? (h : s.Folded D i u cs) {n : Nat} (hn : i < n) : OptimizeM.constString? s n i = some cs := by
  induction h generalizing n with
  | @const i r u cs _ hbox hc hr _ =>
    obtain ⟨n, rfl⟩ := Nat.exists_eq_succ_of_ne_zero (Nat.ne_of_gt (Nat.zero_lt_of_lt hn))
    rw [OptimizeM.constString?, if_pos hc, Info.constRef?, if_pos hc, hbox]
    exact congrArg (Option.map Prod.fst) hr
  | plain h hchars _ =>
    obtain ⟨n, rfl⟩ := Nat.exists_eq_succ_of_ne_zero (Nat.ne_of_gt (Nat.zero_lt_of_lt hn))
    rw [OptimizeM.constString?, if_neg (by simp [h.isConst]), h.virt]
    dsimp only
    rw [constString?.virtualString?]
    exact mapM_noted hchars
  | concat h hl hr _ _ _ ihx ihy =>
    obtain ⟨n, rfl⟩ := Nat.exists_eq_succ_of_ne_zero (Nat.ne_of_gt (Nat.zero_lt_of_lt hn))
    rw [OptimizeM.constString?, if_neg (by simp [h.isConst]), h.virt]
    dsimp only
    rw [constString?.virtualString?, ihx (Nat.lt_of_lt_of_le hl (Nat.lt_succ_iff.1 hn)), ihy (Nat.lt_of_lt_of_le hr (Nat.lt_succ_iff.1 hn))]
    rfl
  | @slice i str start len u cs p q h hstr hp hq hle hcs ih =>
    obtain ⟨n, rfl⟩ := Nat.exists_eq_succ_of_ne_zero (Nat.ne_of_gt (Nat.zero_lt_of_lt hn))
    have hshort := hcs.valid.1
    have hwordp : (Int64.ofInt p).toInt = p := toInt_ofInt_nat (by omega)
    have hwordq : (Int64.ofInt q).toInt = q := toInt_ofInt_nat (by omega)
    rw [OptimizeM.constString?, if_neg (by simp [h.isConst]), h.virt]
    dsimp only
    rw [constString?.virtualString?, hp, hq, ih (Nat.lt_of_lt_of_le hstr (Nat.lt_succ_iff.1 hn))]
    simp only [bind_eq_bind, bind_some, Int64.lt_iff_toInt_lt, hwordp, hwordq]
    rw [if_neg]
    · rfl
    · simp
      omega

end Folded

/-- What a step leaves as it was of the strings without some entries. -/
structure Carries (s : OptimizeState) (D : InfoId → Prop) (s' : OptimizeState) (D' : InfoId → Prop) : Prop where
  size : s.infos.size ≤ s'.infos.size
  info : ∀ i, i < s.infos.size → ¬ D i → (s.info i).Similar (s'.info i)
  ints : ∀ i n, (s.info i).constInt? = some n → (s'.info i).constInt? = some n
  strings : s.store.Strings s'.store
  not_mem : ∀ i, i < s.infos.size → D' i → D i

theorem Kept.carry {w : Virtual} (h : s.Kept D i w) (hc : s.Carries D s' D') : s'.Kept D' i w := by
  have hsame := hc.info i h.lt h.not_mem
  exact
    { lt := Nat.lt_of_lt_of_le h.lt hc.size
      not_mem := fun hd => h.not_mem (hc.not_mem i h.lt hd)
      box := hsame.box.trans h.box
      key := h.key.imp fun _ hk => hsame.key.trans hk
      virt := hsame.virt.trans h.virt
      isConst := hsame.isConst.trans h.isConst }

theorem Noted.mono (hc : ∀ i n, (s.info i).constInt? = some n → (s'.info i).constInt? = some n) {c : Option InfoId} {x : Option Int}
    (h : s.Noted c x) : s'.Noted c x := by
  rcases c with - | c <;> rcases x with - | x <;> try exact h
  exact ⟨hc c _ h.1, h.2⟩

theorem Folded.carry (h : s.Folded D i u cs) (hc : s.Carries D s' D') : s'.Folded D' i u cs := by
  induction h with
  | @const i r u cs hd hbox hconst hr hvalid =>
    have hlt := Scene.lt_of_box hbox
    have hsame := hc.info i hlt hd
    exact .const (fun hd' => hd (hc.not_mem i hlt hd')) (hsame.box.trans hbox) (hsame.isConst.trans hconst) (hc.strings r _ hr) hvalid
  | plain h hchars hshort => exact .plain (h.carry hc) (hchars.imp fun _ _ hx => hx.mono hc.ints) hshort
  | concat h hl hr _ _ hshort ihx ihy => exact .concat (h.carry hc) hl hr ihx ihy hshort
  | slice h hstr hp hn hle _ ih => exact .slice (h.carry hc) hstr (hc.ints _ _ hp) (hc.ints _ _ hn) hle ih

/-- The entry of a string that is still written. -/
structure Drafted (s : OptimizeState) (i : InfoId) (u : Bool) (xs : List (Option Int)) : Prop where
  box : (s.info i).box = none
  key : ∃ b, (s.info i).key = .box b
  virt : ∃ chars, (s.info i).virt = some (.plain u chars) ∧ List.Forall₂ s.Noted chars.toList xs
  isConst : (s.info i).isConst = false
  short : xs.length < 2 ^ 63

theorem Drafted.similar {xs : List (Option Int)} (h : s.Drafted i u xs) (hsame : (s.info i).Similar (s'.info i))
    (hc : ∀ i n, (s.info i).constInt? = some n → (s'.info i).constInt? = some n) : s'.Drafted i u xs := by
  obtain ⟨chars, hvirt, hchars⟩ := h.virt
  exact
    { box := hsame.box.trans h.box
      key := h.key.imp fun _ hk => hsame.key.trans hk
      virt := ⟨chars, hsame.virt.trans hvirt, hchars.imp fun _ _ hx => hx.mono hc⟩
      isConst := hsame.isConst.trans h.isConst
      short := h.short }

/-- A step that only makes entries for constants. -/
structure Grown (s s' : OptimizeState) : Prop where
  size : s.infos.size ≤ s'.infos.size
  info : ∀ i, i < s.infos.size → (s.info i).Similar (s'.info i)
  ids : ∀ (v : Value) i, s.ids[v]? = some i → s'.ids[v]? = some i
  fresh : ∀ (v : Value) i, s'.ids[v]? = some i → s.ids[v]? = some i ∨
    i < s'.infos.size ∧ ∃ c, v = .const c ∧ (s'.info i).box = some (.const c) ∧ (s'.info i).isConst = true
  store : s'.store = s.store
  ops : s'.ops = s.ops
  limits : s'.limits = s.limits

namespace Grown

theorem refl (s : OptimizeState) : s.Grown s := ⟨Nat.le_refl _, fun _ _ => .refl _, fun _ _ h => h, fun _ _ h => .inl h, rfl, rfl, rfl⟩

theorem trans {s'' : OptimizeState} (h : s.Grown s') (h' : s'.Grown s'') : s.Grown s'' where
  size := Nat.le_trans h.size h'.size
  info i hi := (h.info i hi).trans (h'.info i (Nat.lt_of_lt_of_le hi h.size))
  ids v i hi := h'.ids v i (h.ids v i hi)
  fresh v i hi := by
    obtain hi | hnew := h'.fresh v i hi
    · obtain hi | ⟨hlt, c, hv, hbox, hc⟩ := h.fresh v i hi
      · exact .inl hi
      · have hsame := h'.info i hlt
        exact .inr ⟨Nat.lt_of_lt_of_le hlt h'.size, c, hv, hsame.box.trans hbox, hsame.isConst.trans hc⟩
    · exact .inr hnew
  store := h'.store.trans h.store
  ops := h'.ops.trans h.ops
  limits := h'.limits.trans h.limits

theorem ints (h : s.Grown s') (i : InfoId) (n : Int64) (hn : (s.info i).constInt? = some n) : (s'.info i).constInt? = some n :=
  (h.info i (lt_of_constInt? hn)).constInt?.trans hn

theorem ids_box (h : s.Grown s') (b : Box) : s'.ids[Value.box b]? = s.ids[Value.box b]? := by
  cases hi : s.ids[Value.box b]? with
  | some i => exact h.ids _ i hi
  | none =>
    cases hi' : s'.ids[Value.box b]? with
    | none => rfl
    | some i =>
      obtain hold | ⟨-, c, hv, -⟩ := h.fresh _ i hi'
      · cases hi.symm.trans hold
      · cases hv

theorem idOf {c : Const} (hexact : (Value.const c).Exact)
    (hold : ∀ i, s.ids[Value.const c]? = some i → (s.info i).box = some (.const c) ∧ (s.info i).isConst = true) :
    ∃ i s', OptimizeM.idOf (.const c) s = .ok i s' ∧ s.Grown s' ∧ s'.ids[Value.const c]? = some i ∧ (s'.info i).box = some (.const c) ∧
      (s'.info i).isConst = true := by
  have hid : s.id? (.const c) = s.ids[Value.const c]? := by rw [id?, hexact.key?_eq, bind_some]
  cases hi : s.ids[Value.const c]? with
  | some i => exact ⟨i, s, Scene.idOf_of_id? (hid.trans hi), .refl s, hi, hold i hi⟩
  | none =>
    obtain ⟨y, s', e, hp, hbox, -, -, hc⟩ := Scene.idOf_eq (hid.trans hi) hexact
    have hhere := Scene.info_here hp
    have hsize := Scene.size_push hp
    have hids (w : Value) (j : InfoId) (hj : s'.ids[w]? = some j) : s.ids[w]? = some j ∨ w = .const c ∧ j = s.infos.size := by
      rw [Scene.ids_push hp] at hj
      split at hj
      · rename_i e
        cases hj
        exact .inr ⟨e.symm, rfl⟩
      · exact .inl hj
    refine ⟨_, s', e, ?_, by rw [Scene.ids_push hp, if_pos rfl], by rw [hhere, hbox], by rw [hhere, hc]; rfl⟩
    exact
      { size := hsize ▸ Nat.le_succ _
        info := fun j hj => Scene.info_there hp (Nat.ne_of_lt hj) ▸ .refl _
        ids := fun w j hj => by
          rw [Scene.ids_push hp, if_neg, hj]
          rintro rfl
          cases hi.symm.trans hj
        fresh := fun w j hj => (hids w j hj).imp id fun h => by
          obtain ⟨rfl, rfl⟩ := h
          exact ⟨hsize ▸ Nat.lt_succ_self _, c, rfl, by rw [hhere, hbox], by rw [hhere, hc]; rfl⟩
        store := hp.store
        ops := hp.ops
        limits := hp.limits }

theorem ensureNonNull (hi : i < s.infos.size) : ∃ s', OptimizeM.ensureNonNull i s = .ok () s' ∧ s.Grown s' := by
  refine ⟨s.modified i .withNonNull, rfl, ?_⟩
  exact
    { size := by simp
      info := fun j _ => by
        by_cases e : j = i
        · subst e
          rw [info_modified hi]
          obtain ⟨hbox, hkey, hvirt, hc⟩ := Scene.withNonNull_same (s.info j)
          exact ⟨hbox, hkey, hvirt, hc⟩
        · rw [info_modified_of_ne e]
          exact .refl _
      ids := fun _ _ h => h
      fresh := fun _ _ h => .inl h
      store := rfl
      ops := rfl
      limits := rfl }

theorem markRemoved (s : OptimizeState) : ∃ s', Strings.markRemoved s = .ok () s' ∧ s.Grown s' :=
  ⟨{ s with lastString := .removed }, rfl, Nat.le_refl _, fun _ _ => .refl _, fun _ _ h => h, fun _ _ h => .inl h, rfl, rfl, rfl⟩

end Grown

end OptimizeState

/-! ## Sheets that the optimizer knows -/

namespace Sheet

variable {k k' : Sheet} {b r : Box} {xs : List (Option Int)} {u : Bool} {st : Store} {last : Nat} {limit : Int} {s s' : OptimizeState}
  {cs : List Int} {v : Value} {m : StringMode}

/-- The entries of the strings that are still written. -/
def Open (k : Sheet) (s : OptimizeState) (i : InfoId) : Prop := ∃ b, k.draft b ∧ s.ids[Value.box b]? = some i

/-- The optimizer knows all that is on a sheet, and nothing is written out. -/
structure Held (k : Sheet) (st : Store) (limit : Int) (s : OptimizeState) : Prop where
  store : s.store = st
  ops : s.ops = []
  limit : s.limits.constLen = limit
  drafts : ∀ b, k.draft b → ∃ i xs u, k.text b = some (xs, u) ∧ s.ids[Value.box b]? = some i ∧ s.Drafted i u xs
  strings : ∀ b cs u, k.text b = some (cs.map some, u) → ¬ k.draft b → ∃ i, s.ids[Value.box b]? = some i ∧ s.Folded (k.Open s) i u cs
  known : ∀ b, s.ids[Value.box b]? ≠ none → k.text b ≠ none
  /-- A string that is still written has an entry of its own. -/
  apart : ∀ b c i, k.draft b → s.ids[Value.box b]? = some i → s.ids[Value.box c]? = some i → c = b
  consts : ∀ c i, s.ids[Value.const c]? = some i → (s.info i).box = some (.const c) ∧ (s.info i).isConst = true
  ids_lt : ∀ (v : Value) i, s.ids[v]? = some i → i < s.infos.size

namespace Held

theorem not_open (h : k.Held st limit s) {i : InfoId} (hc : (s.info i).isConst = true) : ¬ k.Open s i := by
  rintro ⟨b, hb, hi⟩
  obtain ⟨j, _, _, -, hj, hd⟩ := h.drafts b hb
  cases hi.symm.trans hj
  cases hd.isConst.symm.trans hc

theorem carries (h : s.Grown s') (k : Sheet) : s.Carries (k.Open s) s' (k.Open s') where
  size := h.size
  info i hi _ := h.info i hi
  ints := h.ints
  strings := h.store ▸ .refl _
  not_mem _ _ hd := hd.imp fun b hb => ⟨hb.1, (h.ids_box b).symm.trans hb.2⟩

section

variable (h : k.Held st limit s)
include h

theorem grown (hg : s.Grown s') : k.Held st limit s' where
  store := hg.store.trans h.store
  ops := hg.ops.trans h.ops
  limit := by rw [hg.limits, h.limit]
  drafts b hb := by
    obtain ⟨i, xs, u, htext, hi, hd⟩ := h.drafts b hb
    exact ⟨i, xs, u, htext, hg.ids _ i hi, hd.similar (hg.info i (h.ids_lt _ i hi)) hg.ints⟩
  strings b cs u ht hd := (h.strings b cs u ht hd).imp fun _ hi => ⟨hg.ids _ _ hi.1, hi.2.carry (carries hg k)⟩
  known b hb := h.known b (hg.ids_box b ▸ hb)
  apart b c i hd hb hc := h.apart b c i hd (hg.ids_box b ▸ hb) (hg.ids_box c ▸ hc)
  consts c i hi := by
    obtain hi | ⟨-, d, hv, hbox, hc⟩ := hg.fresh _ i hi
    · have hsame := hg.info i (h.ids_lt _ i hi)
      exact (h.consts c i hi).imp hsame.box.trans hsame.isConst.trans
    · cases hv
      exact ⟨hbox, hc⟩
  ids_lt v i hi := (hg.fresh v i hi).elim (fun hi => Nat.lt_of_lt_of_le (h.ids_lt v i hi) hg.size) And.left

theorem closed (vs : List Value) : (k.closed vs).Held st limit s where
  store := h.store
  ops := h.ops
  limit := h.limit
  drafts b hb := h.drafts b hb.1
  strings b cs u ht hd := by
    have hcarries : s.Carries (k.Open s) s ((k.closed vs).Open s) :=
      ⟨Nat.le_refl _, fun _ _ _ => .refl _, fun _ _ hn => hn, .refl _, fun _ _ hd => hd.imp fun _ hb => ⟨hb.1.1, hb.2⟩⟩
    by_cases hb : k.draft b
    · obtain ⟨i, xs, w, ht', hi, hdrafted⟩ := h.drafts b hb
      cases ht.symm.trans ht'
      obtain ⟨chars, hvirt, hchars⟩ := hdrafted.virt
      have hnot : ¬ (k.closed vs).Open s i := by
        rintro ⟨c, hc, hi'⟩
        cases h.apart b c i hb hi hi'
        exact hd hc
      exact ⟨i, hi, .plain ⟨h.ids_lt _ i hi, hnot, hdrafted.box, hdrafted.key, hvirt, hdrafted.isConst⟩ hchars (by simpa using hdrafted.short)⟩
    · exact (h.strings b cs u ht hb).imp fun i hi => ⟨hi.1, hi.2.carry hcarries⟩
  known := h.known
  apart b c i hd := h.apart b c i hd.1
  consts := h.consts
  ids_lt := h.ids_lt

theorem operand (hv : k.Says st v cs u) (hd : ∀ b, v = .box b → ¬ k.draft b) :
    ∃ i s', idOf v s = .ok i s' ∧ s.Grown s' ∧ s'.Folded (k.Open s') i u cs := by
  cases v with
  | box b =>
    obtain ⟨i, hi, hf⟩ := h.strings b cs u hv (hd b rfl)
    exact ⟨i, s, Scene.idOf_of_id? hi, .refl s, hf⟩
  | const c =>
    obtain ⟨hmeans, hvalid⟩ := hv
    rcases c with _ | _ | _ | r <;> try cases hmeans
    obtain ⟨i, s', e, hg, -, hbox, hc⟩ := OptimizeState.Grown.idOf (c := .ptr (some r)) (by rintro d ⟨⟩) (h.consts _)
    have hs' := h.grown hg
    exact ⟨i, s', e, hg, .const (hs'.not_open hc) hbox hc (by rw [hs'.store]; exact hmeans) hvalid⟩

theorem number (n : Int) : ∃ i s', idOf (.ofInt n) s = .ok i s' ∧ s.Grown s' ∧ s'.ids[Value.ofInt n]? = some i ∧ (s'.info i).box = some (.ofInt n) ∧
      (s'.info i).constInt? = some (Int64.ofInt n) := by
  obtain ⟨i, s', e, hg, hi, hbox, hc⟩ := OptimizeState.Grown.idOf (c := .int (Int64.ofInt n)) (by rintro d ⟨⟩) (h.consts _)
  exact ⟨i, s', e, hg, hi, hbox, Info.constInt?_of_box hbox hc⟩

theorem constIntOf (n : Int) : ∃ s', OptimizeM.constIntOf (.ofInt n) s = .ok (some (Int64.ofInt n)) s' ∧ s.Grown s' := by
  obtain ⟨i, s', e, hg, -, -, hn⟩ := h.number n
  refine ⟨s', ?_, hg⟩
  have hinfo : infoOf (.ofInt n) s = .ok (s'.info i) s' := (bind_eq e).trans rfl
  refine (bind_eq hinfo).trans ?_
  rw [hn]
  rfl

end

end Held
end Sheet
end FlowCompiler.Trace
