import Mathlib.Data.List.Infix
import Mathlib.Data.List.Basic
import FlowCompiler.LowLevel.Validity

/-!
# What a key says

A key is text, with the numbers of open forward references in it.  As a list of signs it keeps the two apart (`Sign`), and because
no name spells a forward reference, the signs can be read back from the text (`scan_written`).  So two types have equal keys exactly
when they have the same signs, and what happens to the signs of a type when a forward reference is resolved happens to all
types of that key.

A type is taken as the pieces that its key consists of (`pattern`): texts, the keys of other types, and its own number if it is an
open forward reference.
-/

namespace FlowCompiler.Types

open List

variable {s s' : Types} {id : NodeId} {t : LowType} {n : Nat} {x y : List Char} {c : Char}
variable {u : LowType} {k : TypeNode}

/-! ## Signs -/

/-- What the key of an open forward reference begins with. -/
def mark : List Char := ['F', 'W', 'D', ':']

inductive Sign where
  | char (c : Char)
  | awaits (id : NodeId)
deriving DecidableEq

def Sign.text : Sign → List Char
  | .char c => [c]
  | .awaits id => mark ++ Nat.toDigits 10 id

/-- The text of signs. -/
def written (x : List Sign) : List Char := x.flatMap Sign.text

/-- A text without references. -/
def chars (x : List Char) : List Sign := x.map .char

@[simp] theorem written_append (x y : List Sign) : written (x ++ y) = written x ++ written y := flatMap_append

@[simp] theorem written_chars (x : List Char) : written (chars x) = x := by
  induction x with
  | nil => rfl
  | cons c x ih => exact congrArg (c :: ·) ih

@[simp] theorem awaits_notMem_chars (x : List Char) : .awaits id ∉ chars x := by simp [chars]

/-! ## Reading signs -/

/-- The forward reference that a text begins with, and the length of its key. -/
def awaitsAt (x : List Char) : Option (NodeId × Nat) :=
  let digits := (x.drop 4).takeWhile Char.isDigit
  if mark <+: x ∧ digits ≠ [] then some (Nat.ofDigitChars 10 digits 0, 4 + digits.length) else none

/-- Reads signs, after some characters that belong to the sign before. -/
def scanAfter : (skip : Nat) → List Char → List Sign
  | _, [] => []
  | k + 1, _ :: x => scanAfter k x
  | 0, c :: x =>
    match awaitsAt (c :: x) with
    | some (id, k) => .awaits id :: scanAfter (k - 1) x
    | none => .char c :: scanAfter 0 x

/-- The signs of a text. -/
def scan (x : List Char) : List Sign := scanAfter 0 x

theorem scanAfter_eq (k : Nat) (x : List Char) : scanAfter k x = scan (x.drop k) := by
  induction k generalizing x with
  | zero => rfl
  | succ k ih =>
    cases x with
    | nil => rfl
    | cons c x => exact ih x

theorem scan_cons (h : awaitsAt (c :: x) = none) : scan (c :: x) = .char c :: scan x := by
  rw [scan, scanAfter, h]
  rfl

/-- A text that may follow a key. -/
def Stops (x : List Char) : Prop := ∀ c ∈ x.head?, c ∈ [',', ')', '[', ']', '\x7b', '\x7d']

@[simp] theorem stops_nil : Stops [] := by simp [Stops]

@[simp] theorem stops_cons : Stops (c :: x) ↔ c ∈ [',', ')', '[', ']', '\x7b', '\x7d'] := by simp [Stops]

theorem Stops.not_isDigit (h : Stops x) : ∀ c ∈ x.head?, c.isDigit = false := by
  intro c hc
  have := h c hc
  simp only [mem_cons, not_mem_nil, or_false] at this
  rcases this with rfl | rfl | rfl | rfl | rfl | rfl <;> rfl

/-- A name that does not spell a forward reference. -/
def Innocent (name : String) : Prop := ¬ mark <:+: name.toList

instance (name : String) : Decidable (Innocent name) := inferInstanceAs (Decidable (¬ _))

theorem awaitsAt_eq_none (h : ¬ mark <+: x) : awaitsAt x = none := by
  rw [awaitsAt]
  exact if_neg fun e => h e.1

theorem awaitsAt_cons (h : c ≠ 'F') : awaitsAt (c :: x) = none := by
  exact awaitsAt_eq_none fun e => h (cons_prefix_cons.1 e).1.symm

/-- A text without the first letter of a forward reference is read as it is. -/
theorem scan_append_of_notMem (h : 'F' ∉ x) (y : List Char) : scan (x ++ y) = chars x ++ scan y := by
  induction x with
  | nil => rfl
  | cons c x ih =>
    rw [mem_cons, not_or] at h
    rw [cons_append, scan_cons (awaitsAt_cons (Ne.symm h.1)), ih h.2]
    rfl

theorem scan_cons_cons {d : Char} (h : d ≠ 'W') : scan (c :: d :: x) = .char c :: scan (d :: x) := by
  exact scan_cons (awaitsAt_eq_none fun e => h (cons_prefix_cons.1 (cons_prefix_cons.1 e).2).1.symm)

/-- What may follow a name: the end of a key, or the colon after the name of a field. -/
def FollowsName (y : List Char) : Prop := (∀ c ∈ y.head?, c ∉ ['W', 'D', ':']) ∨ ∃ z, y = ':' :: z ∧ ∀ c ∈ z.head?, c.isDigit = false

theorem Stops.followsName (h : Stops y) : FollowsName y := by
  refine .inl fun c hc => ?_
  have := h c hc
  simp only [mem_cons, not_mem_nil, or_false] at this
  rcases this with rfl | rfl | rfl | rfl | rfl | rfl <;> simp

/-- No forward reference begins in a name that spells none, not even with the text that follows. -/
theorem awaitsAt_name (hx : ¬ mark <:+: c :: x) (hy : FollowsName y) : awaitsAt (c :: x ++ y) = none := by
  by_cases h : mark <+: c :: x ++ y
  · -- the name is a part of the mark, and the rest of the mark follows
    have either := prefix_or_prefix_of_prefix h (prefix_append _ _)
    have short : c :: x <+: mark := either.resolve_left fun e => hx e.isInfix
    obtain ⟨z, hz⟩ := short
    have rest : z <+: y := by rwa [← hz, prefix_append_right_inj] at h
    have split : x ++ z = ['W', 'D', ':'] := (List.cons.inj hz).2
    cases z with
    | nil => exact absurd (by rw [← hz, append_nil]) hx
    | cons d z =>
      obtain ⟨y, rfl⟩ := rest
      rcases hy with hy | ⟨w, hw, hd⟩
      · exact absurd (split ▸ by simp) (hy d rfl)
      · obtain ⟨rfl, rfl⟩ := List.cons.inj hw
        have last : x = ['W', 'D'] := by
          rcases x with _ | ⟨a, _ | ⟨b, x⟩⟩ <;> simp_all [append_eq_cons_iff]
        have none : (z ++ y).takeWhile Char.isDigit = [] := by
          cases hv : z ++ y with
          | nil => rfl
          | cons e v => simp [hd e (by simp [hv])]
        rw [awaitsAt]
        exact if_neg fun e => e.2 (by simpa [last] using none)
  · exact awaitsAt_eq_none h

theorem scan_name (hx : ¬ mark <:+: x) (hy : FollowsName y) : scan (x ++ y) = chars x ++ scan y := by
  induction x with
  | nil => rfl
  | cons c x ih =>
    have here : awaitsAt (c :: (x ++ y)) = none := awaitsAt_name hx hy
    rw [cons_append, scan_cons here, ih fun e => hx (e.trans (suffix_cons c x).isInfix)]
    rfl

theorem scan_awaits (id : NodeId) (hy : ∀ c ∈ y.head?, c.isDigit = false) : scan ((Sign.awaits id).text ++ y) = .awaits id :: scan y := by
  have rest : y.takeWhile Char.isDigit = [] := by
    cases y with
    | nil => rfl
    | cons c y => simp [hy c rfl]
  have digits : (Nat.toDigits 10 id ++ y).takeWhile Char.isDigit = Nat.toDigits 10 id := by
    rw [takeWhile_append_of_pos fun c hc => Nat.isDigit_of_mem_toDigits (by decide) (by decide) hc, rest, append_nil]
  have text : (Sign.awaits id).text ++ y = 'F' :: ('W' :: 'D' :: ':' :: (Nat.toDigits 10 id ++ y)) := rfl
  have found : awaitsAt ('F' :: ('W' :: 'D' :: ':' :: (Nat.toDigits 10 id ++ y))) = some (id, 4 + (Nat.toDigits 10 id).length) := by
    simp only [awaitsAt, drop_succ_cons, drop_zero, digits]
    rw [if_pos ⟨prefix_append mark _, Nat.toDigits_ne_nil⟩, Nat.ofDigitChars_ten_toDigits]
  have skipped : ('W' :: 'D' :: ':' :: (Nat.toDigits 10 id ++ y)).drop (4 + (Nat.toDigits 10 id).length - 1) = y := by
    rw [show 4 + (Nat.toDigits 10 id).length - 1 = (Nat.toDigits 10 id).length + 3 by omega]
    simp
  rw [text, scan, scanAfter, found]
  exact congrArg (.awaits id :: ·) ((scanAfter_eq _ _).trans (congrArg scan skipped))

/-! ## Pieces of keys -/

/-- What a key consists of: text, the key of another type, and the number of an open forward reference. -/
inductive Piece where
  | lit (x : String)
  | part (t : LowType)
  | awaits (id : NodeId)

def Piece.text (key : LowType → List Char) : Piece → List Char
  | .lit x => x.toList
  | .part t => key t
  | .awaits id => (Sign.awaits id).text

def Piece.signs (key : LowType → List Sign) : Piece → List Sign
  | .lit x => chars x.toList
  | .part t => key t
  | .awaits id => [.awaits id]

/-- Pieces with commas between them. -/
def listed (xs : List (List Piece)) : List Piece := [.lit ","].intercalate xs

def nodePattern (id : NodeId) : TypeNode → List Piece
  | .struct name _ _ gc => [.lit (if gc then "GS:" else "S:"), .lit name]
  | .array of bare imm gc => [.lit "A(", .lit (boolText gc), .lit ",", .lit (boolText bare), .lit ",", .lit (boolText imm), .lit "):", .part of]
  | .fixed of k => [.lit "FA(", .lit (toString k), .lit "):", .part of]
  | .func args result => .lit "F(" :: (listed (args.map fun a => [.part a]) ++ [.lit ")->", .part result])
  | .handle tag gc _ => [.lit "O(", .lit (boolText gc), .lit "):", .lit tag]
  | .weakref pointee => [.lit "W:", .part (.ptr pointee)]
  | .group name ms => .lit "G:" :: .lit name :: .lit "[" :: (listed (ms.map fun m => [.part (.node m)]) ++ [.lit "]"])
  | .forward _ (some t) => [.part (.node t)]
  | .forward _ none => [.awaits id]

/-- The pieces of the key of a type that is referred to. -/
def pattern (s : Types) : LowType → List Piece
  | .prim p => [.lit "P:", .lit p.name]
  | .ptr pointee => [.lit "Ptr(", .part (.node pointee), .lit ")"]
  | .node id => nodePattern id (s.node id)

/-- The fields that stand in the key of a type. -/
def spread (s : Types) : LowType → List Piece
  | .node id =>
    match s.node id with
    | .struct _ fields _ _ =>
      .lit "\x7b" :: (listed (fields.map fun f => [.lit f.1, .lit ":", .part f.2]) ++ [.lit "\x7d"])
    | _ => []
  | _ => []

/-- The signs of a type that is referred to, with the same fuel as its key. -/
def signsAux (s : Types) : (fuel : Nat) → LowType → List Sign
  | 0, _ => []
  | n + 1, t => (s.pattern t).flatMap (Piece.signs (s.signsAux n))

/-- The signs of a type. -/
def signs (s : Types) (t : LowType) : List Sign := s.signsAux (2 * s.fuel) t ++ (s.spread t).flatMap (Piece.signs (s.signsAux (2 * s.fuel)))

theorem flatMap_intercalate {α β : Type} (f : α → List β) (sep : List α) (xs : List (List α)) :
    (sep.intercalate xs).flatMap f = (sep.flatMap f).intercalate (xs.map fun x => x.flatMap f) := by
  induction xs with
  | nil => rfl
  | cons x xs ih =>
    cases xs with
    | nil => simp
    | cons y xs => simp_all [intercalate_cons_cons, flatMap_append]

@[simp] theorem flatMap_listed {β : Type} (f : Piece → List β) (xs : List (List Piece)) :
    (listed xs).flatMap f = (f (.lit ",")).intercalate (xs.map fun x => x.flatMap f) := by
  rw [listed, flatMap_intercalate]
  simp

theorem toList_refKeyAux_succ (s : Types) (n : Nat) (t : LowType) :
    (s.refKeyAux (n + 1) t).toList = (s.pattern t).flatMap (Piece.text fun u => (s.refKeyAux n u).toList) := by
  cases t with
  | prim p => simp [refKeyAux, pattern, Piece.text]
  | ptr pointee => simp [refKeyAux, pattern, Piece.text]
  | node id =>
    rw [refKeyAux, pattern]
    cases h : s.node id with
    | struct name fields hints gc => simp [nodePattern, Piece.text]
    | array of bare imm gc => simp [nodePattern, Piece.text, toString]
    | fixed of k => simp [nodePattern, Piece.text, toString]
    | func args result => simp [nodePattern, Piece.text, Function.comp_def]
    | handle tag gc probe => simp [nodePattern, Piece.text, toString]
    | weakref pointee => simp [nodePattern, Piece.text]
    | group name ms => simp [nodePattern, Piece.text, Function.comp_def]
    | forward gc target =>
      cases target with
      | some t => simp [nodePattern, Piece.text]
      | none => simp [nodePattern, Piece.text, Sign.text, mark, toString]

theorem written_flatMap (key : LowType → List Sign) (ps : List Piece) :
    written (ps.flatMap (Piece.signs key)) = ps.flatMap (Piece.text fun u => written (key u)) := by
  rw [written, flatMap_assoc]
  refine flatMap_congr fun p _ => ?_
  cases p with
  | lit x => exact written_chars _
  | part t => rfl
  | awaits id => exact append_nil _

theorem written_signsAux (s : Types) (n : Nat) (t : LowType) : written (s.signsAux n t) = (s.refKeyAux n t).toList := by
  induction n generalizing t with
  | zero => rfl
  | succ n ih => simp only [signsAux, written_flatMap, toList_refKeyAux_succ, ih]

theorem written_signs (s : Types) (t : LowType) : written (s.signs t) = (s.key t).toList := by
  rw [signs, written_append, written_signsAux, written_flatMap]
  cases t with
  | prim p => simp [spread, key, refKey]
  | ptr pointee => simp [spread, key, refKey]
  | node id =>
    rw [spread, key]
    cases h : s.node id with
    | struct name fields hints gc =>
      simp [Piece.text, written_signsAux, refKey, Function.comp_def]
    | _ => simp [refKey]

/-! ## Types that are made of what there is -/

/-- A type that mentions only the first `n` nodes, and by names that spell no forward reference. -/
def Within (n : Nat) : LowType → Prop
  | .prim p => Innocent p.name
  | .ptr id | .node id => id < n

def NodeWithin (n : Nat) : TypeNode → Prop
  | .struct name fields _ _ => Innocent name ∧ ∀ f ∈ fields, Innocent f.1 ∧ Within n f.2
  | .array of _ _ _ | .fixed of _ => Within n of
  | .func args result => (∀ a ∈ args, Within n a) ∧ Within n result
  | .handle tag _ _ => Innocent tag
  | .weakref pointee => pointee < n
  | .group name ms => Innocent name ∧ ∀ m ∈ ms, m < n
  | .forward _ target => ∀ t ∈ target, t < n

/-- A store whose nodes mention only nodes that there are. -/
def Closed (s : Types) : Prop := ∀ id < s.nodes.size, NodeWithin s.nodes.size (s.node id)

theorem node_of_size_le (h : s.nodes.size ≤ id) : s.node id = .forward false none := by
  rw [node, Array.getElem?_eq_none h]
  rfl

theorem Closed.nodeWithin (h : s.Closed) (id : NodeId) : NodeWithin s.nodes.size (s.node id) := by
  rcases Nat.lt_or_ge id s.nodes.size with hid | hid
  · exact h id hid
  · rw [node_of_size_le hid]
    exact fun _ ht => nomatch ht

theorem mem_listed {p : Piece} {xs : List (List Piece)} (hp : p ≠ .lit ",") : p ∈ listed xs ↔ ∃ x ∈ xs, p ∈ x := by
  rw [listed]
  induction xs with
  | nil => simp
  | cons x xs ih =>
    cases xs with
    | nil => simp
    | cons y xs =>
      rw [intercalate_cons_cons, append_assoc, mem_append, mem_append, ih, mem_singleton]
      simp [hp]

theorem part_mem_nodePattern : .part u ∈ nodePattern id k ↔ match k with
    | .array of _ _ _ | .fixed of _ => u = of
    | .func args result => u ∈ args ∨ u = result
    | .weakref pointee => u = .ptr pointee
    | .group _ ms => ∃ m ∈ ms, u = .node m
    | .forward _ (some t) => u = .node t
    | _ => False := by
  cases k with
  | forward gc target => cases target <;> simp [nodePattern]
  | func args result => simp [nodePattern, mem_listed]
  | group name ms => simp [nodePattern, mem_listed]
  | _ => simp [nodePattern]

theorem awaits_mem_nodePattern {i : NodeId} : .awaits i ∈ nodePattern id k ↔ i = id ∧ ∃ gc, k = .forward gc none := by
  cases k with
  | forward gc target => cases target <;> simp [nodePattern]
  | func args result => simp [nodePattern, mem_listed]
  | group name ms => simp [nodePattern, mem_listed]
  | _ => simp [nodePattern]

theorem Closed.part (h : s.Closed) (ht : Within s.nodes.size t) (hu : .part u ∈ s.pattern t) : Within s.nodes.size u := by
  cases t with
  | prim p => simp [pattern] at hu
  | ptr pointee =>
    obtain rfl : u = .node pointee := by simpa [pattern] using hu
    exact ht
  | node id =>
    have hn := h.nodeWithin id
    rw [pattern, part_mem_nodePattern] at hu
    generalize s.node id = k at hn hu
    cases k with
    | array of bare imm gc => exact hu ▸ hn
    | fixed of k => exact hu ▸ hn
    | func args result => exact hu.elim (hn.1 u) fun e => e ▸ hn.2
    | weakref pointee => exact hu ▸ hn
    | group name ms =>
      obtain ⟨m, hm, rfl⟩ := hu
      exact hn.2 m hm
    | forward gc target =>
      cases target with
      | some t => exact hu ▸ hn t rfl
      | none => exact hu.elim
    | _ => exact hu.elim

/-! ## Reading a key back -/

/-- Signs that can be read from their text wherever a key can end. -/
def Legible (x : List Sign) : Prop := ∀ y, Stops y → scan (written x ++ y) = x ++ scan y

/-- Signs that can be read from their text whatever follows. -/
def Sealed (x : List Sign) : Prop := ∀ y, scan (written x ++ y) = x ++ scan y

section Legible

variable {X Y : List Sign}

theorem Sealed.legible (h : Sealed X) : Legible X := fun y _ => h y

theorem Sealed.append (hX : Sealed X) (hY : Sealed Y) : Sealed (X ++ Y) := by
  intro y
  rw [written_append, append_assoc, hX, hY, append_assoc]

theorem Sealed.append_legible (hX : Sealed X) (hY : Legible Y) : Legible (X ++ Y) := by
  intro y hy
  rw [written_append, append_assoc, hX, hY y hy, append_assoc]

/-- A closing text after signs that can be read where a key ends. -/
theorem Legible.append_sealed (hX : Legible X) (hY : Sealed Y) (stop : ∀ y, Stops (written Y ++ y)) : Sealed (X ++ Y) := by
  intro y
  rw [written_append, append_assoc, hX _ (stop y), hY, append_assoc]

theorem sealed_lit (x : String) (h : 'F' ∉ x.toList) : Sealed (chars x.toList) := by
  intro y
  rw [written_chars, scan_append_of_notMem h]

theorem legible_name {name : String} (h : Innocent name) : Legible (chars name.toList) := by
  intro y hy
  rw [written_chars, scan_name h hy.followsName]

theorem legible_commas {xs : List (List Sign)} (h : ∀ x ∈ xs, Legible x) : Legible ((chars ",".toList).intercalate xs) := by
  induction xs with
  | nil => exact fun _ _ => rfl
  | cons x xs ih =>
    cases xs with
    | nil => simpa using h
    | cons y xs =>
      have head : Sealed (x ++ chars ",".toList) := (h x (mem_cons_self ..)).append_sealed (sealed_lit "," (by decide)) fun y => by simp
      rw [intercalate_cons_cons]
      exact head.append_legible (ih fun x hx => h x (mem_cons_of_mem _ hx))

end Legible

theorem sealed_boolText (b : Bool) : Sealed (chars (boolText b).toList) := by
  cases b <;> exact sealed_lit _ (by decide)

theorem sealed_int (k : Int) : Sealed (chars (toString k).toList) := by
  have digits (n : Nat) : 'F' ∉ Nat.toDigits 10 n := fun h => absurd (Nat.isDigit_of_mem_toDigits (by decide) (by decide) h) (by decide)
  refine sealed_lit _ ?_
  cases k with
  | ofNat n => simpa [toString, Int.repr] using digits n
  | negSucc n => simpa [toString, Int.repr] using digits (n + 1)

/-- The two texts that contain the first letter of a forward reference. -/
theorem sealed_letter {d : Char} {x : List Char} (hd : d ≠ 'W') (h : 'F' ∉ d :: x) : Sealed (chars ('F' :: d :: x)) := by
  intro y
  rw [written_chars, cons_append, cons_append, scan_cons_cons hd, ← cons_append, scan_append_of_notMem h]
  rfl

theorem legible_awaits (id : NodeId) : Legible [.awaits id] := by
  intro y hy
  simpa [written] using scan_awaits id hy.not_isDigit

theorem legible_nodePattern {N : Nat} {key : LowType → List Sign} (hk : NodeWithin N k) (parts : ∀ u, .part u ∈ nodePattern id k → Legible (key u)) :
    Legible ((nodePattern id k).flatMap (Piece.signs key)) := by
  cases k with
  | struct name fields hints gc =>
    have tag : Sealed (chars (if gc then "GS:" else "S:").toList) := by cases gc <;> exact sealed_lit _ (by decide)
    simpa [nodePattern, Piece.signs] using tag.append_legible (legible_name hk.1)
  | array of bare imm gc =>
    have flags : Sealed (chars "A(".toList ++ (chars (boolText gc).toList ++
        (chars ",".toList ++ (chars (boolText bare).toList ++ (chars ",".toList ++ (chars (boolText imm).toList ++ chars "):".toList)))))) :=
      (sealed_lit _ (by decide)).append ((sealed_boolText gc).append ((sealed_lit _ (by decide)).append ((sealed_boolText bare).append
        ((sealed_lit _ (by decide)).append ((sealed_boolText imm).append (sealed_lit _ (by decide)))))))
    simpa [nodePattern, Piece.signs] using flags.append_legible (parts of (by simp [nodePattern]))
  | fixed of k =>
    have length : Sealed (chars "FA(".toList ++ (chars (toString k).toList ++ chars "):".toList)) :=
      (sealed_letter (by decide) (by decide)).append ((sealed_int k).append (sealed_lit _ (by decide)))
    simpa [nodePattern, Piece.signs] using length.append_legible (parts of (by simp [nodePattern]))
  | func args result =>
    have opening : Sealed (chars "F(".toList) := sealed_letter (by decide) (by decide)
    have inside : Legible ((chars ",".toList).intercalate (args.map key)) := by
      refine legible_commas fun x hx => ?_
      obtain ⟨a, ha, rfl⟩ := mem_map.1 hx
      exact parts a (part_mem_nodePattern.2 (.inl ha))
    have closing : Sealed ((chars ",".toList).intercalate (args.map key) ++ chars ")->".toList) :=
      inside.append_sealed (sealed_lit _ (by decide)) fun y => by simp
    have whole := (opening.append closing).append_legible (parts result (part_mem_nodePattern.2 (.inr rfl)))
    simpa [nodePattern, Piece.signs, Function.comp_def] using whole
  | handle tag gc probe =>
    have flag : Sealed (chars "O(".toList ++ (chars (boolText gc).toList ++ chars "):".toList)) :=
      (sealed_lit _ (by decide)).append ((sealed_boolText gc).append (sealed_lit _ (by decide)))
    simpa [nodePattern, Piece.signs] using flag.append_legible (legible_name hk)
  | weakref pointee =>
    simpa [nodePattern, Piece.signs] using (sealed_lit "W:" (by decide)).append_legible (parts _ (by simp [nodePattern]))
  | group name ms =>
    have opening : Sealed (chars "G:".toList ++ (chars name.toList ++ chars "[".toList)) :=
      (sealed_lit _ (by decide)).append ((legible_name hk.1).append_sealed (sealed_lit _ (by decide)) fun y => by simp)
    have inside : Legible ((chars ",".toList).intercalate (ms.map fun m => key (.node m))) := by
      refine legible_commas fun x hx => ?_
      obtain ⟨m, hm, rfl⟩ := mem_map.1 hx
      exact parts _ (part_mem_nodePattern.2 ⟨m, hm, rfl⟩)
    have closing : Sealed ((chars ",".toList).intercalate (ms.map fun m => key (.node m)) ++ chars "]".toList) :=
      inside.append_sealed (sealed_lit _ (by decide)) fun y => by simp
    simpa [nodePattern, Piece.signs, Function.comp_def] using (opening.append closing).legible
  | forward gc target =>
    cases target with
    | some t => simpa [nodePattern, Piece.signs] using parts (.node t) (by simp [nodePattern])
    | none => exact legible_awaits id

theorem legible_signsAux (h : s.Closed) (n : Nat) (ht : Within s.nodes.size t) : Legible (s.signsAux n t) := by
  induction n generalizing t with
  | zero => exact fun _ _ => rfl
  | succ n ih =>
    rw [signsAux]
    have parts (u : LowType) (hu : .part u ∈ s.pattern t) : Legible (s.signsAux n u) := ih (h.part ht hu)
    cases t with
    | prim p => simpa [pattern, Piece.signs] using (sealed_lit "P:" (by decide)).append_legible (legible_name ht)
    | ptr pointee =>
      have pointed : Sealed (s.signsAux n (.node pointee) ++ chars ")".toList) :=
        (parts _ (by simp [pattern])).append_sealed (sealed_lit _ (by decide)) fun y => by simp
      simpa [pattern, Piece.signs] using ((sealed_lit "Ptr(" (by decide)).append pointed).legible
    | node id => exact legible_nodePattern (h.nodeWithin id) parts

theorem head_refKeyAux (s : Types) (n : Nat) (t : LowType) : ∀ c ∈ (s.refKeyAux n t).toList.head?, c.isDigit = false := by
  induction n generalizing t with
  | zero => simp [refKeyAux]
  | succ n ih =>
    rw [toList_refKeyAux_succ]
    cases t with
    | prim p => simp [pattern, Piece.text]
    | ptr pointee => simp [pattern, Piece.text]
    | node id =>
      rw [pattern]
      cases s.node id with
      | struct name fields hints gc => cases gc <;> simp [nodePattern, Piece.text]
      | forward gc target =>
        cases target with
        | some t => simpa [nodePattern, Piece.text] using ih (.node t)
        | none => simp [nodePattern, Piece.text, Sign.text, mark]
      | _ => simp [nodePattern, Piece.text]

theorem legible_field {name : String} (h : s.Closed) (n : Nat) (hn : Innocent name) (ht : Within s.nodes.size t) :
    Legible (chars name.toList ++ (chars ":".toList ++ s.signsAux n t)) := by
  intro y hy
  have key := legible_signsAux h n ht y hy
  rw [written_signsAux] at key
  have digit : ∀ c ∈ ((s.refKeyAux n t).toList ++ y).head?, c.isDigit = false := by
    cases hk : (s.refKeyAux n t).toList with
    | nil => exact hy.not_isDigit
    | cons c x => exact fun d hd => head_refKeyAux s n t d (by rw [hk]; exact hd)
  have colon : scan (':' :: ((s.refKeyAux n t).toList ++ y)) = .char ':' :: scan ((s.refKeyAux n t).toList ++ y) :=
    scan_cons (awaitsAt_cons (by decide))
  have text : written (chars name.toList ++ (chars ":".toList ++ s.signsAux n t)) ++ y =
      name.toList ++ ':' :: ((s.refKeyAux n t).toList ++ y) := by simp [written_signsAux]
  rw [text, scan_name hn (.inr ⟨_, rfl, digit⟩), colon, key]
  simp [chars]

section

variable (h : s.Closed) (ht : Within s.nodes.size t)
include h ht

theorem legible_signs : Legible (s.signs t) := by
  have ref := legible_signsAux h (2 * s.fuel) ht
  rw [signs]
  cases t with
  | prim p => simpa [spread] using ref
  | ptr pointee => simpa [spread] using ref
  | node id =>
    have hk := h.nodeWithin id
    rw [spread]
    generalize s.node id = k at hk
    cases k with
    | struct name fields hints gc =>
      have inside : Legible ((chars ",".toList).intercalate (fields.map fun f =>
          chars f.1.toList ++ (chars ":".toList ++ s.signsAux (2 * s.fuel) f.2))) := by
        refine legible_commas fun x hx => ?_
        obtain ⟨f, hf, rfl⟩ := mem_map.1 hx
        exact legible_field h _ (hk.2 f hf).1 (hk.2 f hf).2
      have closing : Sealed ((chars ",".toList).intercalate (fields.map fun f =>
          chars f.1.toList ++ (chars ":".toList ++ s.signsAux (2 * s.fuel) f.2)) ++ chars "\x7d".toList) :=
        inside.append_sealed (sealed_lit _ (by decide)) fun y => by simp
      have opening : Sealed (s.signsAux (2 * s.fuel) (.node id) ++ chars "\x7b".toList) :=
        ref.append_sealed (sealed_lit _ (by decide)) fun y => by simp
      simpa [Piece.signs, Function.comp_def] using (opening.append closing).legible
    | _ => simpa using ref

/-- The signs of a type are what its key is read as. -/
theorem scan_key : scan (s.key t).toList = s.signs t := by
  have read := legible_signs h ht [] stops_nil
  rw [append_nil, written_signs] at read
  exact read.trans (append_nil _)

theorem key_eq_iff (hu : Within s.nodes.size u) : s.key t = s.key u ↔ s.signs t = s.signs u := by
  constructor
  · intro e
    rw [← scan_key h ht, ← scan_key h hu, e]
  · intro e
    rw [← String.toList_inj, ← written_signs, ← written_signs, e]

end

end FlowCompiler.Types
