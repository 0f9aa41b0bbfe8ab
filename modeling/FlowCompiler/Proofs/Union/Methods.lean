import FlowCompiler.Proofs.Steps.Unions
import FlowCompiler.Proofs.Union.Join

/-!
# Sets of methods

A set of methods is simplified: all its methods get the flags that they have in common, and those that another
one with a wider class covers are dropped.  Joining the result with a part of the set changes nothing, since what
is dropped is covered by something that is kept.
-/

namespace FlowCompiler

open List

variable {ms : List MethodDesc}

/-- Methods are found by what they are, and a method has one description. -/
structure World.MethodsIndexed (w : World) : Prop where
  found : ∀ {m : MethodDesc} {d : Nat}, w.methodIndex[m]? = some d → 0 < d ∧ w.descs[d - 1]? = some (.method m)
  indexed : ∀ {m : MethodDesc} {d : Nat}, 0 < d → w.descs[d - 1]? = some (.method m) → w.methodIndex[m]? = some d

/-- The description of a method, where a description is one. -/
def World.methodOf? (w : World) (d : DescId) : Option MethodDesc :=
  match w.desc d with
  | .method m => some m
  | _ => none

/-- A later state in which all methods have the descriptions that they had. -/
structure World.Names (w w' : World) : Prop where
  classDefs : w'.classDefs = w.classDefs
  indexed : w.MethodsIndexed → w'.MethodsIndexed
  index : ∀ {m : MethodDesc} {d : Nat}, w.methodIndex[m]? = some d → w'.methodIndex[m]? = some d

namespace World

variable {w w' w'' : World}

theorem Names.refl (w : World) : w.Names w := ⟨rfl, id, id⟩

theorem Names.trans (h : w.Names w') (h' : w'.Names w'') : w.Names w'' := ⟨h'.classDefs.trans h.classDefs, h'.indexed ∘ h.indexed, h'.index ∘ h.index⟩

theorem MethodsIndexed.methodOf? (h : w.MethodsIndexed) {m : MethodDesc} {d : Nat} (hd : w.methodIndex[m]? = some d) : w.methodOf? d = some m := by
  rw [World.methodOf?, World.desc, (h.found hd).2]
  rfl

theorem MethodsIndexed.index (h : w.MethodsIndexed) {m : MethodDesc} {d : Nat} (hd : 0 < d) (hm : w.methodOf? d = some m) :
    w.methodIndex[m]? = some d := by
  refine h.indexed hd ?_
  rw [World.methodOf?, World.desc] at hm
  cases e : w.descs[d - 1]? with
  | none =>
    rw [e] at hm
    cases hm
  | some t =>
    rw [e] at hm
    cases t <;> cases hm
    rfl

theorem MethodsIndexed.push (h : w.MethodsIndexed) {m : MethodDesc} (hm : w.methodIndex[m]? = none) (order : Array DescId) :
    MethodsIndexed { w with descs := w.descs.push (.method m), methodIndex := w.methodIndex.insert m (w.descs.size + 1), descOrder := order } := by
  constructor
  · intro m' d hd
    rw [Std.HashMap.getElem?_insert] at hd
    split at hd
    · rename_i e
      cases hd
      refine ⟨Nat.succ_pos _, ?_⟩
      simpa using eq_of_beq e
    · obtain ⟨hpos, hd⟩ := h.found hd
      refine ⟨hpos, ?_⟩
      have hlt := (Array.getElem?_eq_some_iff.1 hd).1
      rw [Array.getElem?_push_lt hlt, ← hd, Array.getElem?_eq_getElem hlt]
  · intro m' d hpos hd
    rw [Std.HashMap.getElem?_insert]
    rw [Array.getElem?_push] at hd
    split at hd
    · rename_i e
      cases hd
      have hnext : w.descs.size + 1 = d := by omega
      rw [if_pos (beq_self_eq_true m), hnext]
    · have hfound := h.indexed hpos hd
      rw [if_neg]
      · exact hfound
      · intro e
        rw [eq_of_beq e, hfound] at hm
        cases hm

end World

namespace Ana

open World

variable {k : Knot} {w : World} {m : MethodDesc} {d : DescId}

/-! ## Describing methods -/

theorem methodDesc_of_found (h : w.methodIndex[m]? = some d) : methodDesc m k w = .ok d w := by
  refine (bind_of_ok (m := get) rfl).trans ?_
  rw [h]
  rfl

theorem methodDesc_ok (h : w.MethodsIndexed) (m : MethodDesc) (k : Knot) :
    ∃ d w', methodDesc m k w = .ok d w' ∧ w.Names w' ∧ w'.methodIndex[m]? = some d := by
  cases hm : w.methodIndex[m]? with
  | some d => exact ⟨d, w, methodDesc_of_found hm, .refl w, hm⟩
  | none =>
    let w' : World := { w with descs := w.descs.push (.method m), methodIndex := w.methodIndex.insert m (w.descs.size + 1),
                               descOrder := w.descOrder.push (w.descs.size + 1) }
    have hw' : w'.methodIndex = w.methodIndex.insert m (w.descs.size + 1) := rfl
    refine ⟨w.descs.size + 1, w', ?_, ⟨rfl, fun _ => h.push hm _, fun {m' d} hd => ?_⟩, ?_⟩
    · unfold methodDesc
      refine (bind_of_ok (m := get) rfl).trans ?_
      rw [hm]
      rfl
    · rw [hw', Std.HashMap.getElem?_insert, if_neg]
      · exact hd
      · intro e
        rw [eq_of_beq e, hd] at hm
        cases hm
    · rw [hw', Std.HashMap.getElem?_insert_self]

/-- Several methods and their descriptions. -/
abbrev Described (w : World) : List MethodDesc → List DescId → Prop := List.Forall₂ fun m d => w.methodIndex[m]? = some d

theorem Described.exists_of_mem {ds : List DescId} (h : Described w ms ds) (hm : m ∈ ms) : ∃ d, w.methodIndex[m]? = some d := by
  induction h with
  | nil => cases hm
  | cons h _ ih =>
    rcases mem_cons.1 hm with rfl | hm
    · exact ⟨_, h⟩
    · exact ih hm

theorem mapM_methodDesc_of_described {ds : List DescId} (h : Described w ms ds) (k : Knot) : ms.mapM methodDesc k w = .ok ds w := by
  induction h with
  | nil => rfl
  | cons h _ ih =>
    rw [mapM_cons, bind_of_ok (methodDesc_of_found h), bind_of_ok ih]
    rfl

theorem mapM_methodDesc_ok (h : w.MethodsIndexed) (ms : List MethodDesc) (k : Knot) :
    ∃ ds w', ms.mapM methodDesc k w = .ok ds w' ∧ w.Names w' ∧ Described w' ms ds := by
  induction ms generalizing w with
  | nil => exact ⟨[], w, rfl, .refl w, .nil⟩
  | cons m ms ih =>
    obtain ⟨d, w₁, h₁, n₁, hd⟩ := methodDesc_ok h m k
    obtain ⟨ds, w₂, h₂, n₂, hds⟩ := ih (n₁.indexed h)
    refine ⟨d :: ds, w₂, ?_, n₁.trans n₂, .cons (n₂.index hd) hds⟩
    rw [mapM_cons, bind_of_ok h₁, bind_of_ok h₂]
    rfl

/-! ## Methods that cover others -/

/-- A method covers another one of the same function with a narrower class. -/
def Covers (w : World) (n m : MethodDesc) : Prop :=
  n.func = m.func ∧ n.origin = m.origin ∧ n.name = m.name ∧ ∃ c c', m.self = some c ∧ n.self = some c' ∧ c ≠ c' ∧ c' ∈ w.mro c

theorem isCovered_iff : isCovered w ms m = true ↔ ∃ n ∈ ms, Covers w n m := by
  unfold isCovered Covers
  cases hm : m.self with
  | none => simp
  | some c =>
    simp only [any_eq_true, Bool.and_eq_true, beq_iff_eq]
    refine exists_congr fun n => and_congr_right fun _ => ?_
    cases hn : n.self with
    | none => simp
    | some c' => simp [isSubclass, and_assoc]

theorem Covers.trans (h : w.Ordered) {m n l : MethodDesc} (hm : Covers w n m) (hn : Covers w l n) : Covers w l m := by
  obtain ⟨hf, ho, hname, c, c', hc, hc', hne, hmem⟩ := hm
  obtain ⟨hf', ho', hname', b, b', hb, hb', hne', hmem'⟩ := hn
  cases hc'.symm.trans hb
  refine ⟨hf'.trans hf, ho'.trans ho, hname'.trans hname, c, b', hc, hb', ?_, mem_mro_trans h hmem hmem'⟩
  rintro rfl
  exact hne (eq_of_mem_mro h hmem' hmem)

/-- The number of the class of a method, which is smaller for wider classes. -/
theorem Covers.lt (h : w.Ordered) {m n : MethodDesc} (hm : Covers w n m) : n.self.getD 0 < m.self.getD 0 := by
  obtain ⟨-, -, -, c, c', hc, hc', hne, hmem⟩ := hm
  rw [hc, hc']
  exact Nat.lt_of_le_of_ne (le_of_mem_mro h hmem) (Ne.symm hne)

/-- **What is covered is covered by something that is not.** -/
theorem exists_widest (h : w.Ordered) {m : MethodDesc} (hm : m ∈ ms) : ∃ n ∈ ms, (n = m ∨ Covers w n m) ∧ ∀ l ∈ ms, ¬ Covers w l n := by
  induction hc : m.self.getD 0 using Nat.strongRecOn generalizing m with
  | _ c ih =>
    by_cases hcov : ∃ l ∈ ms, Covers w l m
    · obtain ⟨l, hl, hlm⟩ := hcov
      obtain ⟨n, hn, hnl, hmax⟩ := ih _ (hc ▸ hlm.lt h) hl rfl
      refine ⟨n, hn, .inr ?_, hmax⟩
      rcases hnl with rfl | hnl
      · exact hlm
      · exact hlm.trans h hnl
    · exact ⟨m, hm, .inl rfl, fun l hl hlm => hcov ⟨l, hl, hlm⟩⟩

theorem covers_congr {w' : World} {n m : MethodDesc} (h : w'.classDefs = w.classDefs) : Covers w' n m ↔ Covers w n m := by
  have hm := mro_congr (congrArg Array.size h) fun c => by rw [classDef, classDef, h]
  simp only [Covers, hm]

theorem not_covers_self : ¬ Covers w m m := by
  rintro ⟨-, -, -, c, c', hc, hc', hne, -⟩
  exact hne (Option.some.inj (hc.symm.trans hc'))

/-! ## Flags in common -/

theorem mem_commonFlags (hne : ms ≠ []) {f : String} : f ∈ commonFlags ms ↔ ∀ m ∈ ms, f ∈ m.flags := by
  cases ms with
  | nil => exact absurd rfl hne
  | cons m ms => simp [commonFlags]

/-- Flags are sorted, so that they are known by their members. -/
theorem pairwise_commonFlags (h : ∀ m ∈ ms, m.flags.Pairwise (· < ·)) : (commonFlags ms).Pairwise (· < ·) := by
  cases ms with
  | nil => exact .nil
  | cons m ms => exact (h m mem_cons_self).filter _

/-- A method with other flags. -/
def flagged (flags : List String) (m : MethodDesc) : MethodDesc := { m with flags }

/-- The methods of a set with the flags that they have in common. -/
def levelled (ms : List MethodDesc) : List MethodDesc := ms.map (flagged (commonFlags ms))

/-- The methods that are left of a set when it is simplified. -/
def Widest (w : World) (ms : List MethodDesc) (m : MethodDesc) : Prop := m ∈ levelled ms ∧ ∀ n ∈ levelled ms, ¬ Covers w n m

theorem levelled_ne_nil (h : ms ≠ []) : levelled ms ≠ [] := by simpa [levelled] using h

theorem flags_of_mem_levelled {m : MethodDesc} (h : m ∈ levelled ms) : m.flags = commonFlags ms := by
  obtain ⟨m', -, rfl⟩ := mem_map.1 h
  rfl

theorem flagged_self (m : MethodDesc) : flagged m.flags m = m := rfl

/-- Which methods are left depends only on what the methods are with the flags in common. -/
theorem widest_congr (ho : w.Ordered) {ns : List MethodDesc} (sub : levelled ns ⊆ levelled ms) (sup : ∀ m, Widest w ms m → m ∈ levelled ns)
    (m : MethodDesc) : Widest w ns m ↔ Widest w ms m := by
  constructor
  · rintro ⟨hm, hmax⟩
    obtain ⟨n, hn, hnm, hn'⟩ := exists_widest ho (sub hm)
    rcases hnm with rfl | hnm
    · exact ⟨hn, hn'⟩
    · exact absurd hnm (hmax n (sup n ⟨hn, hn'⟩))
  · intro hm
    exact ⟨sup m hm, fun n hn => hm.2 n (sub hn)⟩

/-- **What is left of a set stands for the set** when other methods join it. -/
theorem widest_append (ho : w.Ordered) {ns ls : List MethodDesc} (hne : ms ≠ []) (hs : ∀ m ∈ ms ++ ls, m.flags.Pairwise (· < ·))
    (left : ∀ n, n ∈ ns ↔ Widest w ms n) (m : MethodDesc) : Widest w (ns ++ ls) m ↔ Widest w (ms ++ ls) m := by
  have flags (n : MethodDesc) (hn : n ∈ ns) : n.flags = commonFlags ms := flags_of_mem_levelled ((left n).1 hn).1
  obtain ⟨m₀, hm₀⟩ := exists_mem_of_ne_nil _ (levelled_ne_nil hne)
  obtain ⟨n₀, hn₀, -, hmax⟩ := exists_widest ho hm₀
  have hn₀ : n₀ ∈ ns := (left n₀).2 ⟨hn₀, hmax⟩
  have common : commonFlags (ns ++ ls) = commonFlags (ms ++ ls) := by
    have sorted : ∀ n ∈ ns ++ ls, n.flags.Pairwise (· < ·) := by
      intro n hn
      rcases mem_append.1 hn with hn | hn
      · exact flags n hn ▸ pairwise_commonFlags fun m hm => hs m (mem_append_left _ hm)
      · exact hs n (mem_append_right _ hn)
    refine (pairwise_commonFlags sorted).eq_of_mem_iff (pairwise_commonFlags hs) fun f => ?_
    rw [mem_commonFlags (ne_nil_of_mem (mem_append_left _ hn₀)), mem_commonFlags (append_ne_nil_of_left_ne_nil hne _)]
    simp only [mem_append, or_imp, forall_and]
    refine and_congr_left fun _ => ⟨fun h => ?_, fun h n hn => ?_⟩
    · exact (mem_commonFlags hne).1 (flags n₀ hn₀ ▸ h n₀ hn₀)
    · exact flags n hn ▸ (mem_commonFlags hne).2 h
  refine widest_congr ho (fun n hn => ?_) (fun n hn => ?_) m
  · obtain ⟨n', hn', rfl⟩ := mem_map.1 hn
    rw [common]
    rcases mem_append.1 hn' with hn' | hn'
    · obtain ⟨m', hm', rfl⟩ := mem_map.1 ((left n').1 hn').1
      exact mem_map.2 ⟨m', mem_append_left _ hm', rfl⟩
    · exact mem_map_of_mem (mem_append_right _ hn')
  · obtain ⟨m', hm', rfl⟩ := mem_map.1 hn.1
    rw [levelled, common]
    rcases mem_append.1 hm' with hm' | hm'
    · -- no flag matters to what covers what
      refine mem_map.2 ⟨flagged (commonFlags ms) m', mem_append_left _ ((left _).2 ⟨mem_map_of_mem hm', fun l hl hc => ?_⟩), rfl⟩
      obtain ⟨l', hl', rfl⟩ := mem_map.1 hl
      exact hn.2 _ (mem_map_of_mem (mem_append_left _ hl')) hc
    · exact mem_map_of_mem (mem_append_right _ hm')

theorem widest_of_mem_iff {ns : List MethodDesc} (hs : ∀ m ∈ ms, m.flags.Pairwise (· < ·)) (same : ∀ m, m ∈ ns ↔ m ∈ ms) (m : MethodDesc) :
    Widest w ns m ↔ Widest w ms m := by
  have common : commonFlags ns = commonFlags ms := by
    refine (pairwise_commonFlags fun n hn => hs n ((same n).1 hn)).eq_of_mem_iff (pairwise_commonFlags hs) fun f => ?_
    by_cases none : ms = []
    · have none' : ns = [] := eq_nil_iff_forall_not_mem.2 fun n hn => not_mem_nil (none ▸ (same n).1 hn)
      rw [none, none']
    · obtain ⟨n, hn⟩ := exists_mem_of_ne_nil _ none
      rw [mem_commonFlags (ne_nil_of_mem ((same n).2 hn)), mem_commonFlags none]
      simp only [same]
  have levelled (n : MethodDesc) : n ∈ levelled ns ↔ n ∈ levelled ms := by simp only [Ana.levelled, common, mem_map, same]
  simp only [Widest, levelled]

theorem commonFlags_of_same {flags : List String} (hne : ms ≠ []) (h : ∀ m ∈ ms, m.flags = flags) : commonFlags ms = flags := by
  cases ms with
  | nil => exact absurd rfl hne
  | cons m ms =>
    rw [← h m mem_cons_self]
    refine filter_eq_self.2 fun f hf => all_eq_true.2 fun n hn => ?_
    rw [h n (mem_cons_of_mem _ hn), ← h m mem_cons_self]
    simpa using hf

theorem widest_iff_of_same {flags : List String} (hf : ∀ m ∈ ms, m.flags = flags)
    (hc : ∀ m ∈ ms, ∀ n ∈ ms, ¬ Covers w n m) : Widest w ms m ↔ m ∈ ms := by
  have hlev : levelled ms = ms := by
    refine (map_congr_left fun m hm => ?_).trans (map_id _)
    rw [commonFlags_of_same (ne_nil_of_mem hm) hf, ← hf m hm, flagged_self, id]
  rw [Widest, hlev]
  exact ⟨And.left, fun hm => ⟨hm, hc m hm⟩⟩

/-! ## Simplified sets -/

/-- The methods of a set of descriptions. -/
def methodsOf (w : World) (ds : List DescId) : List MethodDesc := ds.filterMap w.methodOf?

theorem mem_methodsOf {ds : List DescId} : m ∈ methodsOf w ds ↔ ∃ d ∈ ds, w.methodOf? d = some m := mem_filterMap

/-- The descriptions of the methods that are left. -/
def keptIds (w : World) (ms : List MethodDesc) (ids : List DescId) : List DescId := ((ms.zip ids).filter fun x => !isCovered w ms x.1).map Prod.snd

theorem mem_keptIds {ids : List DescId} (h : Described w ms ids) :
    d ∈ keptIds w ms ids ↔ ∃ m ∈ ms, (∀ n ∈ ms, ¬ Covers w n m) ∧ w.methodIndex[m]? = some d := by
  have hcov (m : MethodDesc) : (!isCovered w ms m) = true ↔ ∀ n ∈ ms, ¬ Covers w n m := by
    rw [Bool.not_eq_true', ← Bool.not_eq_true, isCovered_iff]
    push Not
    rfl
  have hzip (m : MethodDesc) (e : DescId) : (m, e) ∈ ms.zip ids ↔ m ∈ ms ∧ w.methodIndex[m]? = some e := by
    clear hcov
    induction h with
    | nil => simp
    | cons h hs ih =>
      rw [zip_cons_cons, mem_cons, mem_cons, ih, Prod.mk.injEq]
      constructor
      · rintro (⟨rfl, rfl⟩ | ⟨hm, he⟩)
        · exact ⟨.inl rfl, h⟩
        · exact ⟨.inr hm, he⟩
      · rintro ⟨rfl | hm, he⟩
        · exact .inl ⟨rfl, Option.some.inj (he.symm.trans h)⟩
        · exact .inr ⟨hm, he⟩
  constructor
  · intro hd
    obtain ⟨⟨m, e⟩, hx, rfl⟩ := mem_map.1 hd
    obtain ⟨hx, hc⟩ := mem_filter.1 hx
    exact ⟨m, ((hzip m e).1 hx).1, (hcov m).1 hc, ((hzip m e).1 hx).2⟩
  · rintro ⟨m, hm, hc, hd⟩
    exact mem_map.2 ⟨(m, d), mem_filter.2 ⟨(hzip m d).2 ⟨hm, hd⟩, (hcov m).2 hc⟩, rfl⟩

/-- A set of at least two methods is simplified once its methods with the common flags are described. -/
theorem simplifyMethods_eq {ds ids : List DescId} {w' : World} (hlen : ¬ (methodsOf w ds).length < 2)
    (h : (levelled (methodsOf w ds)).mapM methodDesc k w = .ok ids w') :
    simplifyMethods ds k w = .ok (ds.filter (fun d => (w.methodOf? d).isNone) ++ keptIds w' (levelled (methodsOf w ds)) ids) w' := by
  change (if (methodsOf w ds).length < 2 then pure ds
    else do
      let ids ← (levelled (methodsOf w ds)).mapM methodDesc
      let w' ← get
      pure (ds.filter (fun d => (w.methodOf? d).isNone) ++ keptIds w' (levelled (methodsOf w ds)) ids) : Ana (List DescId)) k w = _
  rw [if_neg hlen, bind_of_ok h]
  rfl

/-- All descriptions of a set are of methods, whose flags are sorted. -/
def AllMethods (w : World) (ds : List DescId) : Prop := ∀ d ∈ ds, 0 < d ∧ ∃ m, w.methodOf? d = some m ∧ m.flags.Pairwise (· < ·)

theorem newPbc_of_pair {d e : DescId} {ds rest : List DescId} (b : Bool) (hds : sortDescs ds = d :: e :: rest) :
    newPbc ds b k w = (match w.methodOf? d with
      | some _ => do return .pbc (sortDescs (← simplifyMethods (d :: e :: rest))) b
      | none => pure (.pbc (d :: e :: rest) b) : Ana Annot) k w := by
  unfold newPbc
  rw [hds]
  change (match w.desc d with
    | .method _ => do return .pbc (sortDescs (← simplifyMethods (d :: e :: rest))) b
    | _ => pure (.pbc (d :: e :: rest) b) : Ana Annot) k w = _
  unfold methodOf?
  cases w.desc d <;> rfl

theorem newPbc_of_short {ds : List DescId} (b : Bool) (h : (sortDescs ds).length < 2) : newPbc ds b k w = .ok (.pbc (sortDescs ds) b) w := by
  unfold newPbc
  match hs : sortDescs ds with
  | [] => rfl
  | [_] => rfl
  | _ :: _ :: _ =>
    rw [hs, length_cons, length_cons] at h
    omega

theorem AllMethods.length_methodsOf {ds : List DescId} (h : AllMethods w ds) : (methodsOf w ds).length = ds.length := by
  induction ds with
  | nil => rfl
  | cons d ds ih =>
    obtain ⟨-, m, hm, -⟩ := h d mem_cons_self
    rw [methodsOf, filterMap_cons_some hm]
    exact congrArg (· + 1) (ih fun e he => h e (mem_cons_of_mem _ he))

theorem AllMethods.filter_isNone {ds : List DescId} (h : AllMethods w ds) : ds.filter (fun d => (w.methodOf? d).isNone) = [] := by
  refine filter_eq_nil_iff.2 fun d hd => ?_
  obtain ⟨-, m, hm, -⟩ := h d hd
  simp [hm]

theorem AllMethods.names {w' : World} {ds : List DescId} (h : AllMethods w ds) (hw : w.MethodsIndexed) (n : w.Names w') (hd : d ∈ ds) :
    w'.methodOf? d = w.methodOf? d := by
  obtain ⟨hpos, m, hm, -⟩ := h d hd
  rw [hm]
  exact (n.indexed hw).methodOf? (n.index (hw.index hpos hm))

theorem AllMethods.later {w' : World} {ds : List DescId} (h : AllMethods w ds) (hw : w.MethodsIndexed) (n : w.Names w') : AllMethods w' ds := by
  intro d hd
  rw [h.names hw n hd]
  exact h d hd

theorem AllMethods.append {ds es : List DescId} (h : AllMethods w ds) (h' : AllMethods w es) : AllMethods w (ds ++ es) :=
  fun d hd => (mem_append.1 hd).elim (h d) (h' d)

theorem newPbc_of_methods {ds ids : List DescId} {w' : World} (b : Bool) (hds : AllMethods w (sortDescs ds))
    (hlen : 2 ≤ (sortDescs ds).length) (h : (levelled (methodsOf w (sortDescs ds))).mapM methodDesc k w = .ok ids w') :
    newPbc ds b k w = .ok (.pbc (sortDescs (keptIds w' (levelled (methodsOf w (sortDescs ds))) ids)) b) w' := by
  match hs : sortDescs ds with
  | [] | [_] =>
    rw [hs] at hlen
    simp at hlen
  | d :: e :: rest =>
    rw [hs] at hds h
    obtain ⟨-, m, hm, -⟩ := hds d mem_cons_self
    have hlen' : ¬ (methodsOf w (d :: e :: rest)).length < 2 := by simp [hds.length_methodsOf]
    rw [newPbc_of_pair b hs, hm]
    dsimp only
    rw [bind_of_ok (simplifyMethods_eq hlen' h), hds.filter_isNone]
    rfl

/-- A set of methods, when it has been simplified. -/
structure Simplified (w : World) (ds rs : List DescId) : Prop where
  indexed : w.MethodsIndexed
  methods : AllMethods w ds
  sorted : rs.Pairwise (· < ·)
  known : ∀ m, Widest w (methodsOf w ds) m → ∃ d, w.methodIndex[m]? = some d
  mem : ∀ {d : DescId}, d ∈ rs ↔ ∃ m, Widest w (methodsOf w ds) m ∧ w.methodIndex[m]? = some d

theorem AllMethods.flags {ds : List DescId} (h : AllMethods w ds) : ∀ m ∈ methodsOf w ds, m.flags.Pairwise (· < ·) := by
  intro m hm
  obtain ⟨d, hd, hdm⟩ := mem_filterMap.1 hm
  obtain ⟨-, m', hm', hs⟩ := h d hd
  cases hdm.symm.trans hm'
  exact hs

namespace Simplified

variable {ds rs es : List DescId} {w' : World}

theorem of_widest (h : Simplified w ds rs) (methods : AllMethods w es)
    (same : ∀ m, Widest w (methodsOf w es) m ↔ Widest w (methodsOf w ds) m) : Simplified w es rs :=
  ⟨h.indexed, methods, h.sorted, fun m hm => h.known m ((same m).1 hm), h.mem.trans (exists_congr fun m => and_congr_left' (same m).symm)⟩

theorem congr (h : Simplified w ds rs) (same : ∀ d, d ∈ es ↔ d ∈ ds) : Simplified w es rs :=
  h.of_widest (fun d hd => h.methods d ((same d).1 hd)) (widest_of_mem_iff h.methods.flags fun m => by simp only [mem_methodsOf, same])

/-- A set of one method is simplified as it is. -/
theorem of_short (hw : w.MethodsIndexed) (h : AllMethods w ds) (hs : ds.Pairwise (· < ·)) (hlen : ds.length < 2) : Simplified w ds ds := by
  have single {m n : MethodDesc} (hm : m ∈ methodsOf w ds) (hn : n ∈ methodsOf w ds) : m = n := by
    rw [← h.length_methodsOf] at hlen
    rcases hms : methodsOf w ds with _ | ⟨_, _ | _⟩ <;> rw [hms] at hlen hm hn
    · cases hm
    · exact (mem_singleton.1 hm).trans (mem_singleton.1 hn).symm
    · simp only [length_cons] at hlen
      omega
  have widest (m : MethodDesc) : Widest w (methodsOf w ds) m ↔ m ∈ methodsOf w ds := by
    have same {n : MethodDesc} (hn : n ∈ methodsOf w ds) : n.flags = commonFlags (methodsOf w ds) :=
      (commonFlags_of_same (ne_nil_of_mem hn) fun n' hn' => congrArg _ (single hn' hn)).symm
    refine widest_iff_of_same (fun _ => same) fun m hm n hn => ?_
    rw [single hm hn]
    exact not_covers_self
  refine ⟨hw, h, hs, fun m hm => ?_, fun {d} => ?_⟩
  · obtain ⟨d, hd, hm⟩ := mem_methodsOf.1 ((widest m).1 hm)
    exact ⟨d, hw.index (h d hd).1 hm⟩
  · simp only [widest]
    constructor
    · intro hd
      obtain ⟨hpos, m, hm, -⟩ := h d hd
      exact ⟨m, mem_methodsOf.2 ⟨d, hd, hm⟩, hw.index hpos hm⟩
    · rintro ⟨m, hm, hi⟩
      obtain ⟨e, he, hm⟩ := mem_methodsOf.1 hm
      rwa [← Option.some.inj ((hw.index (h e he).1 hm).symm.trans hi)]

theorem names (h : Simplified w ds rs) (n : w.Names w') : Simplified w' ds rs := by
  have old : methodsOf w' ds = methodsOf w ds := filterMap_congr fun d hd => h.methods.names h.indexed n hd
  have widest (m : MethodDesc) : Widest w' (methodsOf w' ds) m ↔ Widest w (methodsOf w ds) m := by
    simp only [old, Widest, covers_congr n.classDefs]
  refine ⟨n.indexed h.indexed, h.methods.later h.indexed n, h.sorted, fun m hm => ?_, fun {d} => ?_⟩
  · exact (h.known m ((widest m).1 hm)).imp fun d hd => n.index hd
  · rw [h.mem]
    refine exists_congr fun m => ?_
    rw [widest]
    refine and_congr_right fun hm => ⟨n.index, fun hd => ?_⟩
    obtain ⟨e, he⟩ := h.known m hm
    rwa [← Option.some.inj ((n.index he).symm.trans hd)]

theorem unique (h : Simplified w ds rs) (h' : Simplified w ds es) : rs = es := h.sorted.eq_of_mem_iff h'.sorted fun _ => h.mem.trans h'.mem.symm

theorem methods_left (h : Simplified w ds rs) (m : MethodDesc) : m ∈ methodsOf w rs ↔ Widest w (methodsOf w ds) m := by
  rw [mem_methodsOf]
  constructor
  · rintro ⟨d, hd, hm⟩
    obtain ⟨m', hm', hi⟩ := h.mem.1 hd
    rwa [← Option.some.inj ((h.indexed.methodOf? hi).symm.trans hm)]
  · intro hm
    obtain ⟨d, hd⟩ := h.known m hm
    exact ⟨d, h.mem.2 ⟨m, hm, hd⟩, h.indexed.methodOf? hd⟩

theorem allMethods (h : Simplified w ds rs) : AllMethods w rs := by
  intro d hd
  obtain ⟨m, hm, hdm⟩ := h.mem.1 hd
  refine ⟨(h.indexed.found hdm).1, m, h.indexed.methodOf? hdm, ?_⟩
  rw [flags_of_mem_levelled hm.1]
  exact pairwise_commonFlags h.methods.flags

end Simplified

theorem newPbc_simplified (hw : w.MethodsIndexed) {ds : List DescId} (hds : AllMethods w ds) (b : Bool) (k : Knot) :
    ∃ rs w', newPbc ds b k w = .ok (.pbc rs b) w' ∧ w.Names w' ∧ Simplified w' ds rs := by
  have hsort : AllMethods w (sortDescs ds) := fun d hd => hds d (Annot.mem_sortDescs.1 hd)
  suffices ∃ rs w', newPbc ds b k w = .ok (.pbc rs b) w' ∧ w.Names w' ∧ Simplified w' (sortDescs ds) rs by
    obtain ⟨rs, w', h, n, hs⟩ := this
    exact ⟨rs, w', h, n, hs.congr fun _ => Annot.mem_sortDescs.symm⟩
  rcases Nat.lt_or_ge (sortDescs ds).length 2 with hlen | hlen
  · exact ⟨_, w, newPbc_of_short b hlen, .refl w, .of_short hw hsort (Annot.pairwise_sortDescs _) hlen⟩
  · obtain ⟨ids, w', hmap, n, hids⟩ := mapM_methodDesc_ok hw (levelled (methodsOf w (sortDescs ds))) k
    have hsame : methodsOf w' (sortDescs ds) = methodsOf w (sortDescs ds) := filterMap_congr fun d hd => hsort.names hw n hd
    refine ⟨_, w', newPbc_of_methods b hsort hlen hmap, n, n.indexed hw, hsort.later hw n, Annot.pairwise_sortDescs _, fun m hm => ?_, fun {d} => ?_⟩
    · exact hids.exists_of_mem (hsame ▸ hm.1)
    · rw [Annot.mem_sortDescs, mem_keptIds hids, hsame]
      exact exists_congr fun m => and_assoc.symm

/-- **Simplified sets are simplified together** as the sets themselves are. -/
theorem Simplified.append {ds rs es : List DescId} (h : Simplified w ds rs) (ho : w.Ordered) (hes : AllMethods w es) (b : Bool) (k : Knot) :
    ∃ ts w', newPbc (rs ++ es) b k w = .ok (.pbc ts b) w' ∧ w.Names w' ∧ Simplified w' (ds ++ es) ts := by
  obtain ⟨ts, w', hts, n, hs⟩ := newPbc_simplified h.indexed (h.allMethods.append hes) b k
  have h' := h.names n
  have hall := (h.methods.append hes).later h.indexed n
  refine ⟨ts, w', hts, n, hs.of_widest hall fun m => ?_⟩
  by_cases none : methodsOf w' ds = []
  · have none' : methodsOf w' rs = [] := eq_nil_iff_forall_not_mem.2 fun m hm => by
      have := ((h'.methods_left m).1 hm).1
      rw [none] at this
      cases this
    simp only [methodsOf, filterMap_append] at none none' ⊢
    rw [none, none']
  · have flags := hall.flags
    simp only [methodsOf, filterMap_append] at flags ⊢
    exact (widest_append (ho.congr n.classDefs) none flags h'.methods_left m).symm

/-- A set in which the description of the least number is not of a method, or all are of methods. -/
def Regular (w : World) (ds : List DescId) : Prop := AllMethods w ds ∨ ∃ d rest, sortDescs ds = d :: rest ∧ w.methodOf? d = none

/-- **A set takes a part of itself in.** -/
theorem newPbc_absorb (hw : w.MethodsIndexed) (ho : w.Ordered) {ds : List DescId} (hds : Regular w ds) (b : Bool) (k : Knot) :
    ∃ rs w', newPbc ds b k w = .ok (.pbc rs b) w' ∧ ∀ es ⊆ ds, ∀ b', ∃ w'', newPbc (rs ++ es) b' k w' = .ok (.pbc rs b') w'' := by
  rcases hds with hds | ⟨d, rest, hd, hm⟩
  · obtain ⟨rs, w', h, n, hs⟩ := newPbc_simplified hw hds b k
    refine ⟨rs, w', h, fun es hes b' => ?_⟩
    obtain ⟨ts, w'', h', n', hs'⟩ := hs.append (ho.congr n.classDefs) (fun d hd => hs.methods d (hes hd)) b' k
    have same := (hs.names n').unique (hs'.congr fun d => by simpa using fun h => hes h)
    exact ⟨w'', same ▸ h'⟩
  · -- nothing is simplified
    have hsame {es : List DescId} (hes : es ⊆ ds) : sortDescs (sortDescs ds ++ es) = sortDescs ds := by
      refine Annot.sortDescs_congr fun d => ?_
      simp only [mem_append, Annot.mem_sortDescs]
      exact ⟨fun hd => hd.elim id (hes ·), .inl⟩
    cases rest with
    | nil =>
      have hlen : (sortDescs ds).length < 2 := by simp [hd]
      refine ⟨sortDescs ds, w, newPbc_of_short b hlen, fun es hes b' => ⟨w, ?_⟩⟩
      have hshort := newPbc_of_short (k := k) (w := w) b' ((hsame hes).symm ▸ hlen)
      rwa [hsame hes] at hshort
    | cons e rest =>
      refine ⟨sortDescs ds, w, ?_, fun es hes b' => ⟨w, ?_⟩⟩
      · rw [newPbc_of_pair b hd, hm, hd]
        rfl
      · rw [newPbc_of_pair b' ((hsame hes).trans hd), hm, hd]
        rfl

end Ana
end FlowCompiler
