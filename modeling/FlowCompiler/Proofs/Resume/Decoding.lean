import Mathlib.Algebra.Group.Int.Defs
import Mathlib.Algebra.Group.Nat.Defs
import FlowCompiler.Proofs.Resume.RoundTrip

/-!
# What the numbers of resume data decode to

The numbers of a guard share one word between a kind and an index or an integer, and one of the words marks a hole.  As long as no table
has 2^28 entries, every number tells what it was made from: integers in a range of their own are in the number, everything else has a
place in one of three tables, and no such number is the mark of a hole.  Virtual structures and arrays have their places before their
contents have numbers, so that this holds of cycles too, and a reader that has a value for each live box comes to an end.
-/

namespace FlowCompiler.Trace

variable {resolve : Value → Resolved} {values : List Value} {fail : List (Option Value)} {data : ResumeData} {keys : List (Value × Nat)}
  {u : Option Value} {x : Tagged}

/-- The number and the kind of a tagged word. -/
def Tagged.untag (x : Tagged) : Int × Tag := (x.value, x.tag)

/-- Integers that have no place in a table. -/
def Const.Inlined (c : Const) (k : Int64) : Prop := c = .int k ∧ -2 ^ 28 ≤ k.toInt ∧ k.toInt ≤ 2 ^ 28 - 1

/-- A number decodes to the kind and the number of a value: an integer itself, or the place of a constant, of a live box or of a virtual
object; only a hole has the number of a hole. -/
def Decodes (resolve : Value → Resolved) (data : ResumeData) (keys : List (Value × Nat)) : Option Value → Tagged → Prop
  | none, x => x = .unassigned
  | some v, x => match resolve v with
    | .value none => x = .unassigned
    | .value (some (.const c)) => x ≠ .unassigned ∧ ((∃ k, c.Inlined k ∧ x.untag = (k.toInt, .int)) ∨
        (∀ k, ¬ c.Inlined k) ∧ ∃ i : Nat, x.untag = (↑i, .const) ∧ data.consts[i]? = some c)
    | .value (some (.box b)) => x ≠ .unassigned ∧ ∃ i : Nat, x.untag = (↑i, .box) ∧ data.live[i]? = some b
    | .virtual _ => x ≠ .unassigned ∧ ∃ i : Nat, x.untag = (↑i, .virtual) ∧ (v, i) ∈ keys ∧ i < data.virtuals.size

/-- Virtual objects are structures, which have one item for each of their fields, and arrays. -/
def Objects (resolve : Value → Resolved) (values : List Value) : Prop := ∀ v ∈ values, ∀ t, resolve v = .virtual t →
  t.kind = .array ∨ t.kind = .struct ∧ t.fields.Nodup ∧ t.fields.length = t.items.length

theorem Tagged.untag_make {n : Int} (h : Fits n) (t : Tag) : (make n t).untag = (n, t) := by rw [untag, value_make h, tag_make]

theorem inlined_iff {c : Const} {k : Int64} : c.Inlined k ↔ c = .int k ∧ Tagged.isSmall k.toInt = true := by
  have hlow : Tagged.smallest = -2 ^ 28 := rfl
  have hhigh : Tagged.largest = 2 ^ 28 - 1 := rfl
  simp [Const.Inlined, Tagged.isSmall, hlow, hhigh]

theorem Encodes.decodes (he : Encodes resolve values fail [] data keys) (hfits : data.Fits)
    (hx : Stands resolve data.consts data.live keys u x) : Decodes resolve data keys u x := by
  obtain ⟨hconsts, hlive, hvirtuals⟩ := hfits
  have hroom {i n : Nat} (hi : i < n) (hn : n ≤ 536870912) : Tagged.Fits (i : Int) := Tagged.fits_of_lt (by omega)
  cases hx with
  | hole => rfl
  | lost h => simp only [Decodes, h]
  | @small v k h hk =>
    have hfits := Tagged.fits_of_isSmall hk
    simp only [Decodes, h]
    exact ⟨Tagged.make_ne_unassigned hfits nofun, .inl ⟨k, inlined_iff.2 ⟨rfl, hk⟩, Tagged.untag_make hfits _⟩⟩
  | @const v c i h hc hi =>
    have hfits := hroom (Array.getElem?_eq_some_iff.1 hi).1 hconsts
    simp only [Decodes, h]
    refine ⟨Tagged.make_ne_unassigned hfits nofun, .inr ⟨fun k hk => ?_, i, Tagged.untag_make hfits _, hi⟩⟩
    obtain ⟨e, hk⟩ := inlined_iff.1 hk
    exact Bool.false_ne_true ((hc k e).symm.trans hk)
  | @box v b i h hi =>
    have hfits := hroom (Array.getElem?_eq_some_iff.1 hi).1 hlive
    simp only [Decodes, h]
    exact ⟨Tagged.make_ne_unassigned hfits fun _ => by omega, i, Tagged.untag_make hfits _, hi⟩
  | @virtual v t i h hi =>
    have hlt := he.index_lt hi
    have hfits := hroom hlt hvirtuals
    simp only [Decodes, h]
    exact ⟨Tagged.make_ne_unassigned hfits nofun, i, Tagged.untag_make hfits _, hi, hlt⟩

/-- Structures and arrays can be read, whatever refers to what. -/
theorem Encodes.sound_of_objects (he : Encodes resolve values fail [] data keys) (hfits : data.Fits) (ho : Objects resolve values)
    (live : Array Value) (store : Store) : (⟨data, live, store⟩ : Setting).Sound fun _ => 0 := by
  refine ⟨fun i t hi n hn hv => ?_, fun i t hi => ?_⟩
  all_goals
    obtain ⟨v, t', nums, hkey, ht, hget, hnums⟩ := he.entry_of_lt (Array.getElem?_eq_some_iff.1 hi).1
    cases hi.symm.trans hget
  · obtain ⟨u, -, hu⟩ := exists_of_forall₂' hnums hn
    exact he.inRange hfits hu hv
  · rcases ho v (he.mem _ hkey) t' ht with hk | ⟨hk, hd, hl⟩
    · simp [Shape.Sound, Shape.withItems, hk]
    · simp [Shape.Sound, Shape.withItems, hk, hd, hl, hnums.length_eq]

/-- **Resume data tell what they were made from, and can be read.**  The data of a guard that saves any values, among them structures and
arrays that were never allocated and that may refer to each other, list every constant and every live box once and give every virtual
object one place.  While the tables have fewer than 2^28 entries each, every number, of a saved value or inside a virtual object, decodes
to what it was made from, and rebuilding with as many values as there are live boxes succeeds. -/
theorem resume_decodes {fuel : Nat} {describe : Descr → String} (hm : Mentions resolve values fail [])
    (hfuel : (virtualsOf resolve values).length < fuel) (ho : Objects resolve values) :
    ∃ data keys, ResumeData.build resolve fuel describe fail [] = .ok data ∧
      data.consts.toList.Nodup ∧ data.live.toList.Nodup ∧
      (keys.map Prod.fst).Nodup ∧ keys.map Prod.snd = (List.range data.virtuals.size).reverse ∧
      (data.consts.size < 2 ^ 28 → data.live.size < 2 ^ 28 → data.virtuals.size < 2 ^ 28 →
        List.Forall₂ (Decodes resolve data keys) fail data.numbering ∧
        (∀ v i, (v, i) ∈ keys → ∃ t nums, resolve v = .virtual t ∧ data.virtuals[i]? = some (t.withItems nums) ∧
          List.Forall₂ (Decodes resolve data keys) t.items nums) ∧
        ∀ live store, live.length = data.live.size → ∃ out store', data.rebuild live store = .ok out store') := by
  obtain ⟨data, keys, hbuild, he⟩ := build_spec describe hm hfuel
  refine ⟨data, keys, hbuild, he.consts_nodup, he.live_nodup, he.nodup, he.indices, fun hconsts hlive hvirtuals => ?_⟩
  have hfits : data.Fits := ⟨by omega, by omega, by omega⟩
  refine ⟨he.numbering.imp fun _ _ => he.decodes hfits, fun v i hi => ?_, fun live store hl => ?_⟩
  · obtain ⟨t, nums, ht, hget, hnums⟩ := he.entry v i hi
    exact ⟨t, nums, ht, hget, hnums.imp fun _ _ => he.decodes hfits⟩
  · have hnone : data.pending = [] := List.forall₂_nil_left_iff.1 he.pending
    obtain ⟨p, hrun, -⟩ := Setting.rebuild_spec (he.sound_of_objects hfits ho live.toArray store) (by simpa using hl)
      (fun x hx => by
        obtain ⟨u, -, hu⟩ := exists_of_forall₂' he.numbering hx
        exact he.inRange hfits hu)
      (fun q hq => by
        rw [hnone] at hq
        cases hq)
    exact ⟨_, _, hrun⟩

/-- A structure that refers to itself and to a live box. -/
def looped : Value → Resolved
  | .box ⟨0, _⟩ => .virtual { kind := .struct, fields := [0, 1], items := [some (.box ⟨0, .ref⟩), some (.box ⟨1, .int⟩)] }
  | v => .value (some v)

/-- Besides the structure, the guard saves the first integer that has a place in the table of constants. -/
theorem resume_decodes_looped : ∃ data,
    ResumeData.build looped 2 (fun _ => "") [some (.box ⟨0, .ref⟩), none, some (.ofInt 268435456)] [] = .ok data ∧
      ∀ live store, live.length = 1 → ∃ out store', data.rebuild live store = .ok out store' := by
  obtain ⟨data, keys, hbuild, -, -, -, -, h⟩ := @resume_decodes looped [.box ⟨0, .ref⟩, .box ⟨1, .int⟩, .ofInt 268435456]
    [some (.box ⟨0, .ref⟩), none, some (.ofInt 268435456)] 2 (fun _ => "")
    (by constructor <;> simp [Closed, looped, Value.ofInt]) (by simp [virtualsOf, looped, Resolved.isVirtual, Value.ofInt])
    (by simp [Objects, looped, Value.ofInt])
  have hsizes : (ResumeData.build looped 2 (fun _ => "") [some (.box ⟨0, .ref⟩), none, some (.ofInt 268435456)] []).toOption.map
      (fun d => (d.consts.size, d.live.size, d.virtuals.size)) = some (1, 1, 1) := by decide +kernel
  rw [hbuild] at hsizes
  obtain ⟨hconsts, hlive, hvirtuals⟩ : data.consts.size = 1 ∧ data.live.size = 1 ∧ data.virtuals.size = 1 := by
    simpa [Except.toOption] using hsizes
  exact ⟨data, hbuild, fun live store hl => (h (by omega) (by omega) (by omega)).2.2 live store (hl.trans hlive.symm)⟩

end FlowCompiler.Trace
