import FlowCompiler.Proofs.Lowering.Runs
import FlowCompiler.Proofs.Types.Shapes
import FlowCompiler.Proofs.Union.Order

/-!
# Functions of the runtime system

The table of `helper` has the first type of a name under the name, and later ones under the name followed by the text of the type.
What is found under such a key is taken without comparing the types (`helpers_mistaken`).  Where the keys tell the requests apart
(`Distinguished`), the table is coherent (`helpers_coherent`): no two of its entries answer one request.
-/

namespace FlowCompiler.Typing

open List

/-- A name and the type of a function. -/
abbrev Request := String × NodeId

variable {k : Knot} {t : Typer} {w : World} {s : Types} {low : LowStore} {key : String} {p : PtrValue} {r : Request} {qs : List Request}
variable {ps : List PtrValue} {hs : List (String × PtrValue)}

/-- The pointer that a table has under a key. -/
def foundUnder (hs : List (String × PtrValue)) (key : String) : Option PtrValue := (hs.find? (·.1 == key)).map Prod.snd

/-- The key of the later types of a name. -/
def typedKey (s : Types) (r : Request) : String := r.1 ++ s.text (.node r.2)

/-- Requests for the same function. -/
abbrev Same (s : Types) (r r' : Request) : Prop := r.1 = r'.1 ∧ s.equal (.node r.2) (.node r'.2) = true

/-- What a pointer to a function is the answer to. -/
def requestOf (low : LowStore) (p : PtrValue) : Request := ((low.get (p.obj.getD 0)).name, p.pointee)

/-- The low-level objects with one more function. -/
def withFunction (low : LowStore) (r : Request) : LowStore :=
  { low with containers := low.containers.push { type := r.2, name := r.1, immortal := true } }

/-- The outcome of a request that adds a function under a key. -/
def added (r : Request) (key : String) (t : Typer) (w : World) : EStateM.Result Failure World (PtrValue × Typer) :=
  let p : PtrValue := ⟨r.2, some w.prog.low.containers.size⟩
  .ok (p, { t with helpers := t.helpers.push (key, p) }) { w with prog := { w.prog with low := withFunction w.prog.low r } }

/-- Requests one after the other. -/
def helpersFor (rs : List Request) : Typing (List PtrValue) := rs.mapM fun r => helper r.1 r.2

theorem helper_run (r : Request) (t : Typer) (k : Knot) (w : World) : helper r.1 r.2 t k w =
    match foundUnder t.helpers.toList r.1 with
    | none => added r r.1 t w
    | some p =>
      if w.prog.low.types.equal (.node p.pointee) (.node r.2) then .ok (p, t) w
      else
        match foundUnder t.helpers.toList (typedKey w.prog.low.types r) with
        | some p => .ok (p, t) w
        | none => added r (typedKey w.prog.low.types r) t w := by
  have find (key : String) : (t.helpers.find? (·.1 == key)).map Prod.snd = foundUnder t.helpers.toList key := by
    rw [foundUnder, Array.find?_toList]
  unfold helper
  refine (bind_run (a := w.prog.low.types) rfl).trans ((bind_run (a := t) rfl).trans ?_)
  simp only [find, typedKey]
  cases foundUnder t.helpers.toList r.1 with
  | none => rfl
  | some p =>
    dsimp only
    split
    · rfl
    · cases foundUnder t.helpers.toList (r.1 ++ w.prog.low.types.text (.node r.2)) <;> rfl

theorem mem_of_foundUnder (h : foundUnder hs key = some p) : (key, p) ∈ hs := by
  obtain ⟨e, he, rfl⟩ := Option.map_eq_some_iff.1 h
  obtain rfl : e.1 = key := by simpa using find?_some he
  exact mem_of_find?_eq_some he

theorem ne_of_foundUnder (h : foundUnder hs key = none) : ∀ e ∈ hs, e.1 ≠ key := by simpa [foundUnder] using h

theorem same_equivalence (s : Types) : Equivalence (Same s) where
  refl _ := ⟨rfl, (Types.equal_equivalence s).refl _⟩
  symm h := ⟨h.1.symm, (Types.equal_equivalence s).symm h.2⟩
  trans h h' := ⟨h.1.trans h'.1, (Types.equal_equivalence s).trans h.2 h'.2⟩

/-- Requests that the keys of the table tell apart. -/
structure Distinguished (s : Types) (rs : List Request) : Prop where
  typed : ∀ a ∈ rs, ∀ b ∈ rs, typedKey s a = typedKey s b ↔ Same s a b
  plain : ∀ a ∈ rs, ∀ b ∈ rs, a.1 ≠ typedKey s b

/-- The table after the requests `qs` have been answered by `ps`: the first type of a name stands under the name, and no two entries
answer one request. -/
structure Table (s : Types) (qs : List Request) (ps : List PtrValue) (low : LowStore) (hs : List (String × PtrValue)) : Prop where
  types : low.types = s
  made : ∀ e ∈ hs, ∃ c < low.containers.size, e.2.obj = some c
  asked : ∀ e ∈ hs, requestOf low e.2 ∈ qs
  listed : ∀ e ∈ hs, e.2 ∈ ps
  keyed : ∀ e ∈ hs, e.1 = (requestOf low e.2).1 ∨ e.1 = typedKey s (requestOf low e.2)
  first : ∀ e ∈ hs, ∃ d ∈ hs, d.1 = (requestOf low e.2).1
  keys : (hs.map Prod.fst).Nodup
  apart : ∀ d ∈ hs, ∀ e ∈ hs, Same s (requestOf low d.2) (requestOf low e.2) → d = e
  answers : Forall₂ (fun r p => (∃ e ∈ hs, e.2 = p) ∧ Same s (requestOf low p) r) qs ps

namespace Table

variable (h : Table s qs ps low hs)
include h

theorem find (hp : (key, p) ∈ hs) (hr : Same s (requestOf low p) r) : Table s (qs ++ [r]) (ps ++ [p]) low hs :=
  { h with
    asked := fun e he => mem_append_left _ (h.asked e he)
    listed := fun e he => mem_append_left _ (h.listed e he)
    answers := rel_append h.answers (.cons ⟨⟨_, hp, rfl⟩, hr⟩ .nil) }

theorem add (free : ∀ e ∈ hs, e.1 ≠ key) (new : ∀ e ∈ hs, ¬ Same s (requestOf low e.2) r)
    (hk : key = r.1 ∨ key = typedKey s r ∧ ∃ d ∈ hs, d.1 = r.1) :
    Table s (qs ++ [r]) (ps ++ [⟨r.2, some low.containers.size⟩]) (withFunction low r) (hs ++ [(key, ⟨r.2, some low.containers.size⟩)]) := by
  have own : requestOf (withFunction low r) ⟨r.2, some low.containers.size⟩ = r := by simp [requestOf, LowStore.get, withFunction]
  have old : ∀ e ∈ hs, requestOf (withFunction low r) e.2 = requestOf low e.2 := by
    intro e he
    obtain ⟨c, lt, hc⟩ := h.made e he
    simp [requestOf, hc, LowStore.get, withFunction, Array.getElem?_push_lt lt, lt]
  constructor
  case types => exact h.types
  case keys => simpa [nodup_append, h.keys] using fun a b hab same => free (a, b) hab same
  case answers =>
    refine rel_append (h.answers.imp ?_) (.cons ⟨⟨_, mem_append_right _ (mem_singleton_self _), rfl⟩, ?_⟩ .nil)
    · rintro q - ⟨⟨e, he, rfl⟩, same⟩
      exact ⟨⟨e, mem_append_left _ he, rfl⟩, by rwa [old e he]⟩
    · rw [own]
      exact (same_equivalence s).refl r
  all_goals simp only [forall_mem_append, forall_mem_singleton, own]
  case made =>
    refine ⟨fun e he => ?_, _, by simp [withFunction], rfl⟩
    obtain ⟨c, lt, hc⟩ := h.made e he
    exact ⟨c, lt.trans (by simp [withFunction]), hc⟩
  case asked => exact ⟨fun e he => mem_append_left _ (old e he ▸ h.asked e he), by simp⟩
  case listed => exact ⟨fun e he => mem_append_left _ (h.listed e he), by simp⟩
  case keyed => exact ⟨fun e he => old e he ▸ h.keyed e he, hk.imp id And.left⟩
  case first =>
    refine ⟨fun e he => ?_, ?_⟩
    · obtain ⟨d, hd, same⟩ := h.first e he
      exact ⟨d, mem_append_left _ hd, same.trans (old e he ▸ rfl)⟩
    · obtain same | ⟨-, d, hd, same⟩ := hk
      · exact ⟨_, mem_append_right _ (mem_singleton_self _), same⟩
      · exact ⟨d, mem_append_left _ hd, same⟩
  case apart =>
    refine ⟨fun d hd => ⟨fun e he same => h.apart d hd e he (old d hd ▸ old e he ▸ same), fun same => (new d hd (old d hd ▸ same)).elim⟩,
      fun e he same => (new e he (old e he ▸ (same_equivalence s).symm same)).elim, fun _ => trivial⟩

theorem step {w : World} (hlow : w.prog.low = low) (hhs : t.helpers.toList = hs) (hd : Distinguished s (qs ++ [r])) :
    ∃ p t' w', helper r.1 r.2 t k w = .ok (p, t') w' ∧ Table s (qs ++ [r]) (ps ++ [p]) w'.prog.low t'.helpers.toList := by
  have hr : r ∈ qs ++ [r] := mem_append_right _ (mem_singleton_self r)
  have hmem : ∀ e ∈ hs, requestOf low e.2 ∈ qs ++ [r] := fun e he => mem_append_left _ (h.asked e he)
  have name : ∀ e ∈ hs, e.1 = r.1 → (requestOf low e.2).1 = r.1 := fun e he same =>
    ((h.keyed e he).resolve_right fun typed => hd.plain r hr _ (hmem e he) (same ▸ typed)) ▸ same
  rw [helper_run, hhs, hlow, h.types]
  cases e₁ : foundUnder hs r.1 with
  | none =>
    have table := h.add (ne_of_foundUnder e₁) (fun e he same => by
      obtain ⟨d, hdm, hdk⟩ := h.first e he
      exact ne_of_foundUnder e₁ d hdm (hdk.trans same.1)) (.inl rfl)
    exact ⟨_, _, _, rfl, by simpa [hlow, hhs] using table⟩
  | some p =>
    have hp := mem_of_foundUnder e₁
    dsimp only
    split
    · rename_i equal
      exact ⟨p, t, w, rfl, hlow ▸ hhs ▸ h.find hp ⟨name _ hp rfl, equal⟩⟩
    · rename_i unequal
      cases e₂ : foundUnder hs (typedKey s r) with
      | some q =>
        have hq := mem_of_foundUnder e₂
        refine ⟨q, t, w, rfl, hlow ▸ hhs ▸ h.find hq ((hd.typed _ (hmem _ hq) r hr).1 ?_)⟩
        exact ((h.keyed _ hq).resolve_left fun plain => hd.plain _ (hmem _ hq) r hr plain.symm).symm
      | none =>
        have table := h.add (ne_of_foundUnder e₂) (fun e he same => by
          rcases h.keyed e he with plain | typed
          · obtain rfl := inj_on_of_nodup_map h.keys he hp (plain.trans same.1)
            exact unequal same.2
          · exact ne_of_foundUnder e₂ e he (typed.trans ((hd.typed _ (hmem e he) r hr).2 same))) (.inr ⟨rfl, _, hp, rfl⟩)
        exact ⟨_, _, _, rfl, by simpa [hlow, hhs] using table⟩

theorem run {w : World} (rs : List Request) (hlow : w.prog.low = low) (hhs : t.helpers.toList = hs) (hd : Distinguished s (qs ++ rs)) :
    ∃ ps' t' w', helpersFor rs t k w = .ok (ps', t') w' ∧ Table s (qs ++ rs) (ps ++ ps') w'.prog.low t'.helpers.toList := by
  induction rs generalizing qs ps low hs t w with
  | nil => exact ⟨[], t, w, rfl, by simpa [hlow, hhs] using h⟩
  | cons r rs ih =>
    rw [append_cons] at hd
    obtain ⟨p, t₁, w₁, h₁, table₁⟩ := h.step (k := k) hlow hhs
      ⟨fun a ha b hb => hd.typed a (mem_append_left _ ha) b (mem_append_left _ hb),
        fun a ha b hb => hd.plain a (mem_append_left _ ha) b (mem_append_left _ hb)⟩
    obtain ⟨ps', t', w', h', table'⟩ := ih table₁ rfl rfl hd
    refine ⟨p :: ps', t', w', ?_, by simpa using table'⟩
    rw [helpersFor, mapM_cons]
    exact (bind_run h₁).trans ((bind_run h').trans rfl)

end Table

/-- **The table of functions is coherent.**  Requests that the keys of an empty table tell apart are all answered, by a function of the
name and of an equal type; two answers are one pointer where the names are the same and the types are equal, and nowhere else, and the
table lists every answer once. -/
theorem helpers_coherent {rs : List Request} (ht : t.helpers = #[]) (hd : Distinguished w.prog.low.types rs) :
    ∃ ps t' w', helpersFor rs t k w = .ok (ps, t') w' ∧ w'.prog.low.types = w.prog.low.types ∧
      Forall₂ (fun r p => Same w.prog.low.types (requestOf w'.prog.low p) r) rs ps ∧
      (∀ a ∈ rs.zip ps, ∀ b ∈ rs.zip ps, a.2 = b.2 ↔ Same w.prog.low.types a.1 b.1) ∧
      (t'.helpers.toList.map Prod.snd).Nodup ∧ ∀ p, p ∈ t'.helpers.toList.map Prod.snd ↔ p ∈ ps := by
  have start : Table w.prog.low.types [] [] w.prog.low t.helpers.toList := by constructor <;> simp [ht]
  obtain ⟨ps, t', w', hrun, table⟩ := start.run (k := k) rs rfl rfl (by simpa using hd)
  simp only [nil_append] at table
  have equivalence := same_equivalence w.prog.low.types
  refine ⟨ps, t', w', hrun, table.types, table.answers.imp fun _ _ => And.right, fun a ha b hb => ?_, ?_, fun p => ?_⟩
  · obtain ⟨⟨d, hd, hda⟩, ha⟩ := (forall₂_iff_zip.1 table.answers).2 ha
    obtain ⟨⟨e, he, heb⟩, hb⟩ := (forall₂_iff_zip.1 table.answers).2 hb
    refine ⟨fun same => equivalence.trans (equivalence.symm ha) (same ▸ hb), fun same => ?_⟩
    rw [← hda, ← heb, table.apart d hd e he (hda ▸ heb ▸ equivalence.trans ha (equivalence.trans same (equivalence.symm hb)))]
  · exact Nodup.map_on (fun d hd e he same => table.apart d hd e he (same ▸ equivalence.refl _)) table.keys.of_map
  · rw [mem_map]
    refine ⟨?_, fun hp => ?_⟩
    · rintro ⟨e, he, rfl⟩
      exact table.listed e he
    · obtain ⟨i, hi, rfl⟩ := getElem_of_mem hp
      exact ((forall₂_iff_get.1 table.answers).2 i (table.answers.length_eq ▸ hi) hi).1

/-- Functions of arrays of characters, of arrays of integers and of such arrays that do not change. -/
def elements : World where
  prog.low.types.nodes := #[.array .char false false true, .func [.ptr 0] .signed, .array .signed false false true, .func [.ptr 2] .signed,
    .array .signed false true true, .func [.ptr 4] .signed]

/-- Two names, and two types of one of them. -/
theorem helpers_coherent_elements : ∃ ps t' w', helpersFor [("len", 1), ("len", 3), ("sum", 3), ("len", 3)] {} Annot.idle elements =
      .ok (ps, t') w' ∧ (t'.helpers.toList.map Prod.snd).Nodup := by
  have distinguished : Distinguished elements.prog.low.types [("len", 1), ("len", 3), ("sum", 3), ("len", 3)] := by constructor <;> decide +kernel
  obtain ⟨ps, t', w', hrun, -, -, -, hnodup, -⟩ := helpers_coherent (k := Annot.idle) (t := {}) (w := elements) rfl distinguished
  exact ⟨ps, t', w', hrun, hnodup⟩

/-- The answers of a run. -/
def pointers : EStateM.Result Failure World (List PtrValue × Typer) → List PtrValue
  | .ok (ps, _) _ => ps
  | .error _ _ => []

/-- The third type of a name gets the function of the second, to which it is not equal: arrays that do not change have the same text. -/
theorem helpers_mistaken : pointers (helpersFor [("len", 1), ("len", 3), ("len", 5)] {} Annot.idle elements) =
      [⟨1, some 0⟩, ⟨3, some 1⟩, ⟨3, some 1⟩] ∧ elements.prog.low.types.equal (.node 3) (.node 5) = false := by
  decide +kernel

end FlowCompiler.Typing
