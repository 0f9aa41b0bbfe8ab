import Mathlib.Logic.Relation
import FlowCompiler.Proofs.Database.Visits

/-!
# What the names in definitions stand for

The fields and items of a definition are named when it is made, and what they name may be under construction itself.  When that
is given up later, its name remains.  A definition is given up only when a type has no definition that it refers to, directly or
through others (`Undefinable`), so the names that are left over are those of types that refer back to themselves and cannot be
defined: every other name is the name of a finished definition, `Keeps` says of every request.
-/

namespace FlowCompiler.Database

open List

open Relation (TransGen ReflTransGen)

variable {p : Program} {d e g : Database} {s : Types} {id a b : NodeId} {m n : DefNode} {t : LowType} {A B : NodeId → String → Prop}

/-! ## Types that refer to each other -/

/-- The definitions that the name of a type mentions. -/
inductive Mentions (s : Types) : LowType → NodeId → Prop
  | whole {id : NodeId} : Mentions s (.node id) (s.target (s.target id))
  | pointer {pointee : NodeId} : (∀ args result, s.container pointee ≠ .func args result) → Mentions s (.ptr pointee) (s.target pointee)
  | signature {pointee : NodeId} {args : List LowType} {result t : LowType} {b : NodeId} :
      s.container pointee = .func args result → t ∈ result :: args → Mentions s t b → Mentions s (.ptr pointee) b

/-- The fields of a structure that have a place. -/
def places (fields : List (String × LowType)) : List (String × LowType) := fields.filter fun f => f.2 ≠ LowType.void

/-- The types that a definition names. -/
def partTypes (s : Types) (id : NodeId) : List LowType :=
  match s.node id with
  | .struct _ fields _ _ => (places fields).map Prod.snd
  | .array of _ _ _ => [of]
  | .fixed of _ => [of]
  | _ => []

def Refers (s : Types) (a b : NodeId) : Prop := ∃ t ∈ partTypes s a, Mentions s t b

def hasDefinition (s : Types) (id : NodeId) : Bool :=
  match s.node id with
  | .struct _ _ _ _ | .array _ _ _ _ | .fixed _ _ | .handle _ _ _ | .weakref _ => true
  | _ => false

/-- A type that refers to one without a definition. -/
def Undefinable (s : Types) (id : NodeId) : Prop := ∃ b, ReflTransGen (Refers s) id b ∧ hasDefinition s b = false

theorem Undefinable.of_refers (h : Refers s a b) (hb : Undefinable s b) : Undefinable s a := by
  obtain ⟨c, path, none⟩ := hb
  exact ⟨c, .head h path, none⟩

/-- A type that refers back to itself and cannot be defined. -/
def Stranded (s : Types) (id : NodeId) : Prop := Undefinable s id ∧ TransGen (Refers s) id id

/-! ## Spelling -/

/-- The name of a pointer to functions, from those of the results and the arguments. -/
def signatureName (result : String) (args : List String) : String :=
  let args := if args.isEmpty then "void" else String.intercalate ", " args
  s!"{result} (*)({args})"

/-- The name of a type, where `A` gives the names of definitions. -/
inductive Spells (s : Types) (A : NodeId → String → Prop) : LowType → String → Prop
  | prim {x : Primitive} : Spells s A (.prim x) (primitiveName x)
  | whole {id : NodeId} {c : String} : A (s.target (s.target id)) c → Spells s A (.node id) c
  | pointer {pointee : NodeId} {c : String} : (∀ args result, s.container pointee ≠ .func args result) → A (s.target pointee) c →
      Spells s A (.ptr pointee) (c ++ " *")
  | signature {pointee : NodeId} {args : List LowType} {result : LowType} {r : String} {as : List String} :
      s.container pointee = .func args result → Spells s A result r → as.length = args.length →
      (∀ x ∈ args.zip as, Spells s A x.1 x.2) →
      Spells s A (.ptr pointee) (signatureName r as)

theorem Spells.mono {x : String} (h : Spells s A t x) (hA : ∀ id c, A id c → B id c) : Spells s B t x := by
  induction h with
  | prim => exact .prim
  | whole h => exact .whole (hA _ _ h)
  | pointer other h => exact .pointer other (hA _ _ h)
  | signature func _ length _ ih ih' => exact .signature func ih length ih'

/-- The parts of a definition are named. -/
def SpelledOut (s : Types) (A : NodeId → String → Prop) (n : DefNode) : Prop :=
  match s.node n.type with
  | .struct _ fields _ _ =>
    List.Forall₂ (fun f x => x.1 = "s_" ++ f.1 ∧ Spells s A f.2 x.2) (places fields) n.fields ∧ n.item = ""
  | .array of _ _ _ => n.fields = [] ∧ Spells s A of n.item
  | .fixed of _ => n.fields = [] ∧ Spells s A of n.item
  | _ => n.fields = [] ∧ n.item = ""

theorem SpelledOut.mono (h : SpelledOut s A n) (hA : ∀ id c, A id c → B id c) : SpelledOut s B n := by
  unfold SpelledOut at h ⊢
  generalize s.node n.type = k at h ⊢
  cases k with
  | struct name fields hints gc => exact ⟨h.1.imp fun _ _ h => ⟨h.1, h.2.mono hA⟩, h.2⟩
  | array of bare immutable gc => exact ⟨h.1, h.2.mono hA⟩
  | fixed of length => exact ⟨h.1, h.2.mono hA⟩
  | _ => exact h

/-! ## Names that last -/

/-- The name of a finished definition. -/
def Listed (d : Database) (id : NodeId) (c : String) : Prop := ∃ n ∈ d.defs, n.type = id ∧ n.cname = c

/-- A name that will be that of a finished definition, if it is not stranded. -/
inductive Lasting (s : Types) (d : Database) (id : NodeId) (c : String) : Prop
  | listed : Listed d id c → Lasting s d id c
  | stranded : Stranded s id → Lasting s d id c
  | underway {n : DefNode} : ¬ Undefinable s id → d.known.lookup id = some n → n.cname = c → Lasting s d id c

/-- What a request leaves of names: those that last do so, and new definitions are made of them. -/
structure Keeps (s : Types) (d e : Database) : Prop where
  lasting : ∀ id c, Lasting s d id c → Lasting s e id c
  spelled : ∀ n ∈ e.defs, n ∈ d.defs ∨ SpelledOut s (Lasting s e) n

namespace Keeps

theorem of_same (known : e.known = d.known) (defs : e.defs = d.defs) : Keeps s d e := by
  refine ⟨fun id c h => ?_, fun n hn => .inl (defs ▸ hn)⟩
  cases h with
  | listed h => exact .listed (by rwa [Listed, defs])
  | stranded h => exact .stranded h
  | underway fine hn hc => exact .underway fine (known ▸ hn) hc

theorem refl (d : Database) : Keeps s d d := .of_same rfl rfl

theorem trans (h : Keeps s d e) (h' : Keeps s e g) : Keeps s d g := by
  refine ⟨fun id c hc => h'.lasting id c (h.lasting id c hc), fun n hn => ?_⟩
  rcases h'.spelled n hn with hn | hn
  · exact (h.spelled n hn).imp_right fun hn => hn.mono h'.lasting
  · exact .inr hn

theorem begun (new : d.known.lookup m.type = none) (base : String) : Keeps s d (d.begun base m) := by
  refine ⟨fun id c h => ?_, fun n hn => .inl hn⟩
  cases h with
  | listed h => exact .listed h
  | stranded h => exact .stranded h
  | underway fine hn hc =>
    refine .underway fine ?_ hc
    rw [lookup_begun, if_neg, hn]
    rintro rfl
    cases new.symm.trans hn

theorem givenUp (h : Undefinable s id) : Keeps s d (d.givenUp id) := by
  have keep (a : NodeId) (c : String) (ha : Lasting s d a c) : Lasting s (d.givenUp id) a c := by
    cases ha with
    | listed h => exact .listed h
    | stranded h => exact .stranded h
    | underway fine hn hc =>
      refine .underway fine ?_ hc
      rwa [lookup_givenUp, if_neg]
      rintro rfl
      exact fine h
  exact ⟨keep, fun n hn => .inl hn⟩

theorem finished (same : ∀ m, d.known.lookup n.type = some m → m.cname = n.cname ∨ Listed d n.type m.cname)
    (h : SpelledOut s (Lasting s d) n) : Keeps s d (d.finished n) := by
  have more {a : NodeId} {c : String} (h : Listed d a c) : Listed (d.finished n) a c := by
    obtain ⟨m, hm, hc⟩ := h
    exact ⟨m, mem_append_left _ hm, hc⟩
  have keep (a : NodeId) (c : String) (ha : Lasting s d a c) : Lasting s (d.finished n) a c := by
    cases ha with
    | listed h => exact .listed (more h)
    | stranded h => exact .stranded h
    | @underway m fine hm hc =>
      by_cases other : a = n.type
      · subst other
        rcases same m hm with e | listed
        · exact .listed ⟨n, mem_append_right _ (mem_singleton_self n), rfl, e ▸ hc⟩
        · exact .listed (more (hc ▸ listed))
      · exact .underway fine (by rw [lookup_finished, if_neg other, hm]) hc
  refine ⟨keep, fun m hm => ?_⟩
  rcases mem_append.1 hm with hm | hm
  · exact .inl hm
  · exact .inr (mem_singleton.1 hm ▸ h.mono keep)

end Keeps

/-! ## Requests -/

/-- A type under construction. -/
def Underway (d : Database) (id : NodeId) : Prop := ∃ n, d.known.lookup id = some n ∧ ¬ Listed d id n.cname

/-- Everything under construction refers to a type. -/
def Under (s : Types) (d : Database) (id : NodeId) : Prop := ∀ u, Underway d u → TransGen (Refers s) u id

theorem Listed.mono {c : String} (h : Listed d id c) (hd : Evolves p d e) : Listed e id c := by
  obtain ⟨n, hn, hc⟩ := h
  exact ⟨n, hd.mem_defs hn, hc⟩

theorem Underway.of_evolves (h : Underway e id) (hd : Evolves p d e) : Underway d id := by
  obtain ⟨n, hn, unlisted⟩ := h
  rcases hd.origin hn with hn | ⟨hn, type⟩
  · exact ⟨n, hn, fun listed => unlisted (listed.mono hd)⟩
  · exact absurd ⟨n, hn, type, rfl⟩ unlisted

theorem Under.of_evolves (h : Under s d id) (hd : Evolves p d e) : Under s e id := fun u hu => h u (hu.of_evolves hd)

/-- What is known has a name that lasts: if it is under construction, it refers back to itself. -/
theorem lasting_of_known (h : Under s d id) (hn : d.known.lookup id = some n) : Lasting s d id n.cname := by
  by_cases listed : Listed d id n.cname
  · exact .listed listed
  · by_cases undefinable : Undefinable s id
    · exact .stranded ⟨undefinable, h id ⟨n, hn, listed⟩⟩
    · exact .underway undefinable hn rfl

/-- A request that is served. -/
structure Serves (p : Program) (d e : Database) : Prop where
  evolves : Evolves p d e
  keeps : Keeps p.low.types d e

/-- A request that fails, for a reason or because it goes too deep. -/
structure Refuses (p : Program) (d : Database) (reason : Prop) (f : Failure) (e : Database) : Prop where
  evolves : Evolves p d e
  reason : f ≠ tooDeep → Keeps p.low.types d e ∧ reason

theorem Serves.refl (d : Database) : Serves p d d := ⟨.refl d, .refl d⟩

theorem Serves.trans (h : Serves p d e) (h' : Serves p e g) : Serves p d g := ⟨h.evolves.trans h'.evolves, h.keeps.trans h'.keeps⟩

theorem Serves.refuses {P Q : Prop} {f : Failure} (h : Serves p d e) (h' : Refuses p e P f g) (hP : P → Q) : Refuses p d Q f g :=
  ⟨h.evolves.trans h'.evolves, fun shallow => ⟨h.keeps.trans (h'.reason shallow).1, hP (h'.reason shallow).2⟩⟩

/-- A part of a type that cannot be defined. -/
def Broken (s : Types) (t : LowType) : Prop := ∃ b, Mentions s t b ∧ Undefinable s b

/-- Requests give names of which everything lasts, and fail only for types with a part that cannot be defined. -/
def Naming.Spelling (p : Program) (h : Naming) : Prop := ∀ t d, (∀ b, Mentions p.low.types t b → Under p.low.types d b) →
  Ends p d (h.typeName t) (fun x e => Serves p d e ∧ Spells p.low.types (Lasting p.low.types e) t x) (Refuses p d (Broken p.low.types t))

theorem Numbers.serves (h : Numbers d e) : Serves p d e := by
  refine ⟨h.evolves, ?_⟩
  cases h with
  | same => exact .refl d
  | next _ => exact .of_same rfl rfl

/-- What is begun refers to what its parts mention, and so does everything that was under construction before. -/
theorem under_begun {base : String} (under : Under s d m.type) (part : t ∈ partTypes s m.type) (hb : Mentions s t b) :
    Under s (d.begun base m) b := by
  rintro u ⟨n, hn, unlisted⟩
  have refers : Refers s m.type b := ⟨t, part, hb⟩
  rw [lookup_begun] at hn
  split at hn
  · rename_i here
    rw [here]
    exact .single refers
  · exact (under u ⟨n, hn, unlisted⟩).tail refers

theorem Broken.undefinable (h : Broken s t) (part : t ∈ partTypes s id) : Undefinable s id := by
  obtain ⟨b, hb, none⟩ := h
  exact none.of_refers ⟨t, part, hb⟩

section

variable {h : Naming}

section

variable (hh : h.Spelling p)
include hh

theorem fields_spelling (fields : List (String × LowType)) (d : Database) (under : ∀ f ∈ fields, ∀ b, Mentions p.low.types f.2 b →
    Under p.low.types d b) : Ends p d (fields.mapM fun (name, t) => do pure ("s_" ++ name, ← h.typeName t))
      (fun fs e => Serves p d e ∧ List.Forall₂ (fun f x => x.1 = "s_" ++ f.1 ∧ Spells p.low.types (Lasting p.low.types e) f.2 x.2) fields fs)
      (Refuses p d (∃ f ∈ fields, Broken p.low.types f.2)) := by
  refine .mapM (P := fun (f : String × LowType) (x : String × String) e => x.1 = "s_" ++ f.1 ∧ Spells p.low.types (Lasting p.low.types e) f.2 x.2)
    .refl .trans (fun he hx => ⟨hx.1, hx.2.mono he.keeps.lasting⟩) fun (name, t) hf e he => ?_
  refine .bind ((hh t e fun b hb => (under _ hf b hb).of_evolves he.evolves).mono (fun x g hx => ?_) fun f g hg => ?_)
  · exact .pure ⟨hx.1, rfl, hx.2⟩
  · exact he.refuses hg fun broken => ⟨_, hf, broken⟩

theorem structDef_spelling {name : String} {fields : List (String × LowType)} {hints : StructHints} {gc : Bool} (new : d.known.lookup id = none)
    (node : p.low.types.node id = .struct name fields hints gc) (under : Under p.low.types d id) : Ends p d (structDef h id name fields gc)
    (fun n e => Keeps p.low.types d e ∧ Listed e id n.cname)
      fun f e => f ≠ tooDeep → Keeps p.low.types d e ∧ Undefinable p.low.types id := by
  let base := "pypy_" ++ name
  let n₀ : DefNode := { type := id, kind := .struct, cname := "struct " ++ d.nameFor base, header := if gc then d.policy.header? else none }
  have began : Keeps p.low.types d (d.begun base n₀) := .begun new base
  have part {f : String × LowType} (hf : f ∈ places fields) : f.2 ∈ partTypes p.low.types id := by
    rw [partTypes, node]
    exact mem_map_of_mem hf
  have done {g : Database} {fs : List (String × String)} {i : Option GcInfo} (hg : Serves p (d.begun base n₀) g)
      (spelled : List.Forall₂ (fun f x => x.1 = "s_" ++ f.1 ∧ Spells p.low.types (Lasting p.low.types g) f.2 x.2) (places fields) fs) :
      Ends p g (finish id { n₀ with fields := fs, gc := i }) (fun n e => Keeps p.low.types d e ∧ Listed e id n.cname)
        fun f e => f ≠ tooDeep → Keeps p.low.types d e ∧ Undefinable p.low.types id := by
    let n : DefNode := { n₀ with fields := fs, gc := i }
    have known : g.known.lookup id = some n₀ := hg.evolves.known (by rw [lookup_begun, if_pos rfl])
    have finished : Keeps p.low.types g (g.finished n) := .finished (fun m hm => .inl (by cases known.symm.trans hm; rfl)) (by
      rw [SpelledOut, node]
      exact ⟨spelled, rfl⟩)
    exact .finish (n := n) ⟨began.trans (hg.keeps.trans finished), n, mem_append_right _ (mem_singleton_self n), rfl, rfl⟩
  refine .uniqueName (.get (.begin (n := n₀) (.bind (.orDrop
    ((fields_spelling hh _ _ fun f hf b hb => under_begun (m := n₀) under (part hf) hb).mono (fun fs e he => ?_) fun f e he shallow => ?_)))))
  · refine .ite (fun _ => ?_) fun _ => done he.1 he.2
    refine .bind ((numbered_ends e id).mono (fun i g hg => ?_) fun f g hg => hg)
    have numbers : Serves p e g := hg.1.serves
    have spelled : List.Forall₂ (fun f x => x.1 = "s_" ++ f.1 ∧ Spells p.low.types (Lasting p.low.types g) f.2 x.2) (places fields) fs :=
      he.2.imp fun _ _ hx => ⟨hx.1, hx.2.mono numbers.keeps.lasting⟩
    exact .get (done (he.1.trans numbers) spelled)
  · obtain ⟨keeps, f, hf, broken⟩ := he.reason shallow
    have undefinable := broken.undefinable (part hf)
    exact ⟨began.trans (keeps.trans (.givenUp undefinable)), undefinable⟩

theorem arrayDef_spelling {of : LowType} {bare immutable gc : Bool} (new : d.known.lookup id = none)
    (node : p.low.types.node id = .array of bare immutable gc) (under : Under p.low.types d id) :
    Ends p d (arrayDef h id of gc) (fun n e => Keeps p.low.types d e ∧ Listed e id n.cname)
      fun f e => f ≠ tooDeep → Keeps p.low.types d e ∧ Undefinable p.low.types id := by
  let base := "pypy_array_" ++ itemTag p.low.types of
  let n₀ : DefNode := { type := id, kind := .array, cname := "struct " ++ d.nameFor base }
  have began : Keeps p.low.types d (d.begun base n₀) := .begun new base
  have part : of ∈ partTypes p.low.types id := by
    rw [partTypes, node]
    exact mem_singleton_self of
  have done {g : Database} {item : String} {header : Option String} {i : Option GcInfo} (hg : Serves p (d.begun base n₀) g)
      (spelled : Spells p.low.types (Lasting p.low.types g) of item) :
      Ends p g (finish id { n₀ with item, header, gc := i }) (fun n e => Keeps p.low.types d e ∧ Listed e id n.cname)
        fun f e => f ≠ tooDeep → Keeps p.low.types d e ∧ Undefinable p.low.types id := by
    let n : DefNode := { n₀ with item, header, gc := i }
    have known : g.known.lookup id = some n₀ := hg.evolves.known (by rw [lookup_begun, if_pos rfl])
    have finished : Keeps p.low.types g (g.finished n) := .finished (fun m hm => .inl (by cases known.symm.trans hm; rfl)) (by
      rw [SpelledOut, node]
      exact ⟨rfl, spelled⟩)
    exact .finish (n := n) ⟨began.trans (hg.keeps.trans finished), n, mem_append_right _ (mem_singleton_self n), rfl, rfl⟩
  refine .types (.uniqueName (.begin (n := n₀)
    (.bind (.orDrop ((hh of _ fun b hb => under_begun (m := n₀) under part hb).mono (fun item e he => .get ?_) fun f e he shallow => ?_)))))
  · refine .ite (fun _ => ?_) fun _ => done he.1 he.2
    refine .bind ((typeId_ends e id).mono (fun i g hg => ?_) fun f g hg => hg)
    have numbers : Serves p e g := hg.1.serves
    exact done (he.1.trans numbers) (he.2.mono numbers.keeps.lasting)
  · obtain ⟨keeps, broken⟩ := he.reason shallow
    have undefinable := broken.undefinable part
    exact ⟨began.trans (keeps.trans (.givenUp undefinable)), undefinable⟩

/-- A definition that is asked for has a name that lasts, and it fails only when it cannot be made. -/
theorem makeDef_spelling (hh' : h.Evolving p) (id : NodeId) (d : Database) (under : Under p.low.types d (p.low.types.target id)) :
    Ends p d (makeDef h id) (fun n e => Serves p d e ∧ Lasting p.low.types e (p.low.types.target id) n.cname)
      (Refuses p d (Undefinable p.low.types (p.low.types.target id))) := by
  suffices made : Ends p d (makeDef h id) (fun n e => Keeps p.low.types d e ∧ Lasting p.low.types e (p.low.types.target id) n.cname)
      fun f e => f ≠ tooDeep → Keeps p.low.types d e ∧ Undefinable p.low.types (p.low.types.target id) from
    ((makeDef_evolves hh' id d).and made).mono (fun n e he => ⟨⟨he.1.1, he.2.1⟩, he.2.2⟩) fun f e he => ⟨he.1, he.2⟩
  refine .types (.get ?_)
  split
  · rename_i n hn
    exact .pure ⟨.refl d, lasting_of_known under hn⟩
  · rename_i new
    have mem {e : Database} {n : DefNode} : n ∈ (e.finished n).defs := mem_append_right _ (mem_singleton_self n)
    split
    · exact (structDef_spelling hh new ‹_› under).mono (fun n e he => ⟨he.1, .listed he.2⟩) fun f e he => he
    · exact (arrayDef_spelling hh new ‹_› under).mono (fun n e he => ⟨he.1, .listed he.2⟩) fun f e he => he
    · rename_i of k node
      have part : of ∈ partTypes p.low.types (p.low.types.target id) := by
        rw [partTypes, node]
        exact mem_singleton_self of
      refine .bind ((hh of d fun b hb u hu => (under u hu).tail ⟨of, part, hb⟩).mono (fun item e he => .uniqueName ?_) fun f e he shallow => ?_)
      · let base := s!"pypy_fixarray{k}_{itemTag p.low.types of}"
        let n : DefNode := { type := p.low.types.target id, kind := .fixed, cname := e.nameFor base, item }
        have asked : Keeps p.low.types e (e.asked base) := .of_same rfl rfl
        -- an array may have been defined meanwhile for a structure among its own items
        have meanwhile (m : DefNode) (hm : (e.asked base).known.lookup n.type = some m) :
            m.cname = n.cname ∨ Listed (e.asked base) n.type m.cname := by
          rcases he.1.evolves.origin hm with hm | ⟨hm, type⟩
          · cases new.symm.trans hm
          · exact .inr ⟨m, hm, type, rfl⟩
        have finished : Keeps p.low.types (e.asked base) ((e.asked base).finished n) := .finished meanwhile (by
          rw [SpelledOut, node]
          exact ⟨rfl, he.2.mono asked.lasting⟩)
        exact .finish (n := n) ⟨he.1.keeps.trans (asked.trans finished), .listed ⟨n, mem, rfl, rfl⟩⟩
      · exact ⟨(he.reason shallow).1, (he.reason shallow).2.undefinable part⟩
    · rename_i tag gc probe node
      let base := "pypy_opaque_" ++ tag
      let n : DefNode := { type := p.low.types.target id, kind := .handle, cname := "struct " ++ d.nameFor base }
      have asked : Keeps p.low.types d (d.asked base) := .of_same rfl rfl
      have finished : Keeps p.low.types (d.asked base) ((d.asked base).finished n) :=
        .finished (fun m hm => absurd (new.symm.trans hm) nofun) (by
          rw [SpelledOut, node]
          exact ⟨rfl, rfl⟩)
      exact .uniqueName (.finish (n := n) ⟨asked.trans finished, .listed ⟨n, mem, rfl, rfl⟩⟩)
    · rename_i pointee node
      have done {e : Database} (he : Serves p d e) (i : Option GcInfo) : Ends p e (finish (p.low.types.target id) ⟨p.low.types.target id, .handle,
          "struct pypy_weakref", none, [], "", i⟩) (fun n e => Keeps p.low.types d e ∧ Lasting p.low.types e (p.low.types.target id) n.cname)
          fun f e => f ≠ tooDeep → Keeps p.low.types d e ∧ Undefinable p.low.types (p.low.types.target id) := by
        let n : DefNode := ⟨p.low.types.target id, .handle, "struct pypy_weakref", none, [], "", i⟩
        have meanwhile (m : DefNode) (hm : e.known.lookup n.type = some m) : m.cname = n.cname ∨ Listed e n.type m.cname := by
          rcases he.evolves.origin hm with hm | ⟨hm, type⟩
          · cases new.symm.trans hm
          · exact .inr ⟨m, hm, type, rfl⟩
        have finished : Keeps p.low.types e (e.finished n) := .finished meanwhile (by
          rw [SpelledOut, node]
          exact ⟨rfl, rfl⟩)
        exact .finish (n := n) ⟨he.keeps.trans finished, .listed ⟨n, mem, rfl, rfl⟩⟩
      refine .get (.ite (fun _ => ?_) fun _ => done (.refl d) none)
      exact .bind ((typeId_ends d _).mono (fun i e he => done he.1.serves _) fun f e he => he)
    · rename_i noStruct noArray noFixed noHandle noCell
      refine .throw fun _ => ⟨.refl d, p.low.types.target id, .refl, ?_⟩
      unfold hasDefinition
      split
      · exact (noStruct _ _ _ _ ‹_›).elim
      · exact (noArray _ _ _ _ ‹_›).elim
      · exact (noFixed _ _ ‹_›).elim
      · exact (noHandle _ _ _ ‹_›).elim
      · exact (noCell _ ‹_›).elim
      · rfl

theorem funcTypeName_spelling {pointee : NodeId} {args : List LowType} {result : LowType} (func : p.low.types.container pointee = .func args result)
    (d : Database) (under : ∀ b, Mentions p.low.types (.ptr pointee) b → Under p.low.types d b) : Ends p d (funcTypeName h args result)
    (fun x e => Serves p d e ∧ Spells p.low.types (Lasting p.low.types e) (.ptr pointee) x)
      (Refuses p d (Broken p.low.types (.ptr pointee))) := by
  have part {t : LowType} (ht : t ∈ result :: args) (broken : Broken p.low.types t) : Broken p.low.types (.ptr pointee) := by
    obtain ⟨b, hb, none⟩ := broken
    exact ⟨b, .signature func ht hb, none⟩
  have name {t : LowType} (ht : t ∈ result :: args) {e : Database} (he : Serves p d e) : Ends p e (h.typeName t)
      (fun x g => Serves p e g ∧ Spells p.low.types (Lasting p.low.types g) t x) (Refuses p d (Broken p.low.types (.ptr pointee))) :=
    (hh t e fun b hb => (under b (.signature func ht hb)).of_evolves he.evolves).mono (fun _ _ h => h) fun f g hg => he.refuses hg (part ht)
  refine .bind ((name mem_cons_self (.refl d)).mono (fun r e he => ?_) fun _ _ h => h)
  refine .bind ((Ends.mapM (P := fun t x e => Spells p.low.types (Lasting p.low.types e) t x) .refl .trans (fun he hx => hx.mono he.keeps.lasting)
    fun t ht g hg => name (mem_cons_of_mem _ ht) (he.1.trans hg)).mono (fun as g hg => ?_) fun _ _ h => h)
  exact .pure ⟨he.1.trans hg.1, .signature func (he.2.mono hg.1.keeps.lasting) hg.2.length_eq.symm fun x hx => List.forall₂_zip hg.2 hx⟩

theorem typeNameStep_spelling (hh' : h.Evolving p) (t : LowType) (d : Database) (under : ∀ b, Mentions p.low.types t b → Under p.low.types d b) :
    Ends p d (typeNameStep h t) (fun x e => Serves p d e ∧ Spells p.low.types (Lasting p.low.types e) t x) (Refuses p d (Broken p.low.types t)) := by
  have broken {b : NodeId} (hb : Mentions p.low.types t b) (none : Undefinable p.low.types b) : Broken p.low.types t := ⟨b, hb, none⟩
  refine .types ?_
  cases t with
  | prim x => exact .pure ⟨.refl d, .prim⟩
  | ptr pointee =>
    rw [show p.low.types.resolve (.ptr pointee) = .ptr pointee from rfl]
    dsimp only
    split
    · exact funcTypeName_spelling hh ‹_› d under
    · rename_i other
      have here : Mentions p.low.types (.ptr pointee) (p.low.types.target pointee) := .pointer other
      exact .bind ((makeDef_spelling hh hh' pointee d (under _ here)).mono
        (fun n e he => .pure ⟨he.1, .pointer other he.2⟩) fun f e he => (Serves.refl d).refuses he (broken here))
  | node id =>
    have here : Mentions p.low.types (.node id) (p.low.types.target (p.low.types.target id)) := .whole
    exact .bind ((makeDef_spelling hh hh' _ d (under _ here)).mono (fun n e he => .pure ⟨he.1, .whole he.2⟩)
      fun f e he => (Serves.refl d).refuses he (broken here))

end

end

theorem naming_spelling (p : Program) (fuel : Nat) : (naming fuel).Spelling p := by
  induction fuel with
  | zero => exact fun t d _ => .throw ⟨.refl d, fun shallow => absurd rfl shallow⟩
  | succ fuel ih => exact typeNameStep_spelling ih (naming_evolving p fuel)

/-! ## Between calls -/

/-- Nothing is under construction. -/
def Settled (d : Database) : Prop := ∀ id, ¬ Underway d id

theorem Settled.of_evolves (h : Settled d) (hd : Evolves p d e) : Settled e := fun id hu => h id (hu.of_evolves hd)

/-- What a name in a finished definition stands for: a finished definition, or a type that is stranded. -/
def Stands (s : Types) (d : Database) (id : NodeId) (c : String) : Prop := Listed d id c ∨ Stranded s id

theorem Lasting.stands {c : String} (h : Lasting s d id c) (settled : Settled d) : Stands s d id c := by
  cases h with
  | listed h => exact .inl h
  | stranded h => exact .inr h
  | @underway n _ hn hc =>
    by_contra other
    exact settled id ⟨n, hn, fun listed => other (.inl (hc ▸ listed))⟩

/-- Every definition is made of names that stand for something. -/
def Whole (s : Types) (d : Database) : Prop := ∀ n ∈ d.defs, SpelledOut s (Stands s d) n

theorem Whole.of_keeps (h : Whole p.low.types d) (settled : Settled d) (hd : Evolves p d e) (keeps : Keeps p.low.types d e) :
    Whole p.low.types e := by
  intro n hn
  rcases keeps.spelled n hn with hn | hn
  · exact (h n hn).mono fun id c hc => hc.imp_left (·.mono hd)
  · exact hn.mono fun id c hc => hc.stands (settled.of_evolves hd)

/-- **Naming a type between calls.** -/
theorem typeName_serves (settled : Settled d) (t : LowType) : Ends p d (typeName t) (fun _ e => Serves p d e) (Refuses p d (Broken p.low.types t)) :=
  .namingFuel fun fuel => (naming_spelling p fuel t d fun _ _ u hu => absurd hu (settled u)).mono (fun _ _ h => h.1) fun _ _ h => h

/-- **Asking for a definition between calls.** -/
theorem defOf_serves (settled : Settled d) (id : NodeId) :
    Ends p d (defOf id) (fun _ e => Serves p d e) (Refuses p d (Undefinable p.low.types (p.low.types.target id))) :=
  .namingFuel fun fuel => (makeDef_spelling (naming_spelling p fuel) (naming_evolving p fuel) id d fun u hu => absurd hu (settled u)).mono
    (fun _ _ h => h.1) fun _ _ h => h

theorem nameAll_serves (settled : Settled d) (ts : List LowType) :
    Ends p d (nameAll ts) (fun _ e => Serves p d e) (Refuses p d (∃ t ∈ ts, Broken p.low.types t)) :=
  .forM .refl .trans fun t ht _ he => .map
    ((typeName_serves (settled.of_evolves he.evolves) t).mono (fun _ _ h => h) fun _ _ h => he.refuses h fun broken => ⟨t, ht, broken⟩)

end FlowCompiler.Database

/-!
## What failed calls leave

A call that fails leaves a database that the next call goes on with.  Two things can be missing from it.  A definition that was
given up may have been named by one that was finished meanwhile: its type is stranded, it refers back to itself and cannot be
defined.  And a pointer whose visit failed does not wait any more: it points to an object whose type cannot be defined.
Nothing else is ever missing (`complete_despite_failures`), however many calls have failed, as long as none of them has failed
because a type goes too deep.
-/

namespace FlowCompiler.Database

variable {p : Program} {d e g : Database} {q : PtrValue} {c : ContainerId} {r : Option Failure}

/-- An object whose type cannot be defined. -/
def Unmade (p : Program) (c : ContainerId) : Prop :=
  isFunction p c = false ∧ Undefinable p.low.types (p.low.types.target (p.low.get (p.low.top c)).type)

/-- A pointer that is not forgotten: what it points to has its node, or can have none. -/
def Accounted (p : Program) (d : Database) (q : PtrValue) : Prop := ∀ c, q.obj = some c → HasNode p d c ∨ Unmade p c

theorem Accounted.grown (h : Accounted p d q) (containers : d.containers <+: e.containers) (funcs : d.funcs <+: e.funcs) :
    Accounted p e q := fun c hc => (h c hc).imp_left (·.grown containers funcs)

/-- What holds between calls, whether they fail or not. -/
structure Tidy (p : Program) (d : Database) : Prop where
  settled : Settled d
  whole : Whole p.low.types d

namespace Tidy

theorem of_same (h : Tidy p d) (known : e.known = d.known) (defs : e.defs = d.defs) : Tidy p e := by
  have listed {id : NodeId} {c : String} : Listed e id c ↔ Listed d id c := by rw [Listed, Listed, defs]
  constructor
  · rintro id ⟨n, hn, unlisted⟩
    exact h.settled id ⟨n, known ▸ hn, fun l => unlisted (listed.2 l)⟩
  · intro n hn
    exact (h.whole n (defs ▸ hn)).mono fun id c hc => hc.imp_left listed.2

theorem serves (h : Tidy p d) (hd : Serves p d e) : Tidy p e := ⟨h.settled.of_evolves hd.evolves, h.whole.of_keeps h.settled hd.evolves hd.keeps⟩

theorem refuses {P : Prop} {f : Failure} (h : Tidy p d) (hd : Refuses p d P f e) (shallow : f ≠ tooDeep) : Tidy p e :=
  h.serves ⟨hd.evolves, (hd.reason shallow).1⟩

theorem fresh (policy : GcPolicy) (rtti : List (NodeId × Rtti)) : Tidy p (fresh policy rtti) :=
  ⟨fun _ ⟨_, hn, _⟩ => (nomatch hn), fun _ h => (nomatch h)⟩

theorem visits (h : Tidy p d) (hv : Visits p d q r e) (shallow : r ≠ some tooDeep) : Tidy p e := by
  have declared (c : ContainerId) : Tidy p (d.declared p c) := h.of_same rfl rfl
  cases hv with
  | null _ => exact h
  | knownFunc _ _ _ => exact h
  | knownObject _ _ _ => exact h
  | @func c _ _ e _ _ _ named =>
    have types : Tidy p e := (declared c).serves ((nameAll_serves (declared c).settled _).of_ok named)
    exact types.of_same rfl rfl
  | @funcFails c _ _ f _ _ _ _ named =>
    exact (declared c).refuses ((nameAll_serves (declared c).settled _).of_error named) fun deep => shallow (deep ▸ rfl)
  | @object c n e g header _ _ _ made steps _ =>
    have made : Tidy p e := h.serves ((defOf_serves h.settled _).of_ok made)
    have asked : Tidy p (e.asked (objectBase p (p.low.top c))) := made.of_same rfl rfl
    have numbered : Tidy p g := asked.serves steps.serves
    exact numbered.of_same rfl rfl
  | objectFails _ _ _ made =>
    exact h.refuses ((defOf_serves h.settled _).of_error made) fun deep => shallow (deep ▸ rfl)

theorem popped (h : Tidy p d) (rest : List PtrValue) : Tidy p (d.popped rest) := h.of_same rfl rfl

theorem completes (h : Tidy p d) (hc : Completes p d r e) (shallow : r ≠ some tooDeep) : Tidy p e := by
  induction hc with
  | done _ => exact h.of_same rfl rfl
  | visit _ hv _ ih => exact ih ((h.popped _).visits hv nofun) shallow
  | fails _ hv => exact (h.popped _).visits hv shallow

theorem calls {c : Call} (h : Tidy p d) (hc : Calls p d c r e) (shallow : r ≠ some tooDeep) : Tidy p e := by
  cases hc with
  | typeName named => exact h.serves ((typeName_serves h.settled _).of_ok named)
  | typeNameFails named =>
    exact h.refuses ((typeName_serves h.settled _).of_error named) fun deep => shallow (deep ▸ rfl)
  | addNull _ => exact h
  | addConstant _ => exact h.of_same rfl rfl
  | addFunction => exact h.of_same rfl rfl
  | complete hc => exact h.completes hc shallow

end Tidy

/-! ### Pointers -/

/-- A visit accounts for its pointer, whichever way it ends. -/
theorem Visits.accounted (h : Tidy p d) (hv : Visits p d q r e) (shallow : r ≠ some tooDeep) : Accounted p e q := by
  intro c hq
  cases r with
  | none => exact .inl ((hv.opens rfl).hasNode hq)
  | some f =>
    have shallow : f ≠ tooDeep := fun deep => shallow (deep ▸ rfl)
    cases hv with
    | @funcFails c args result _ _ hq' func _ named =>
      cases hq'.symm.trans hq
      have here : ∃ k ∈ (d.declared p c).funcs, k.obj = c := ⟨_, List.mem_append_right _ (List.mem_singleton_self _), rfl⟩
      refine .inl ?_
      rw [HasNode, if_pos (by rw [isFunction, func])]
      rwa [← Evolves.funcs ((nameAll_evolves _ _).of_error named)] at here
    | objectFails hq' object _ made =>
      cases hq'.symm.trans hq
      exact .inr ⟨object, (((defOf_serves h.settled _).of_error made).reason shallow).2⟩

/-- Pointers that wait are visited or wait still. -/
theorem Completes.accounted (h : Tidy p d) (hc : Completes p d r e) (shallow : r ≠ some tooDeep)
    (hq : q ∈ d.pending ∨ Accounted p d q) : q ∈ e.pending ∨ Accounted p e q := by
  induction hc with
  | done _ => exact hq
  | @visit d e _ q' rest _ waiting hv _ ih =>
    refine ih ((h.popped rest).visits hv nofun) shallow ?_
    rcases hq with hq | hq
    · rw [waiting] at hq
      rcases List.mem_cons.1 hq with rfl | hq
      · exact .inr (hv.accounted (h.popped rest) nofun)
      · exact .inl (hv.adds.pending.subset hq)
    · exact .inr (hq.grown hv.adds.containers hv.adds.funcs)
  | @fails d e q' rest f waiting hv =>
    rcases hq with hq | hq
    · rw [waiting] at hq
      rcases List.mem_cons.1 hq with rfl | hq
      · exact .inr (hv.accounted (h.popped rest) shallow)
      · exact .inl (hv.adds.pending.subset hq)
    · exact .inr (hq.grown hv.adds.containers hv.adds.funcs)

/-- A call forgets no pointer, and adds its own. -/
theorem Calls.accounted {c : Call} (h : Tidy p d) (hc : Calls p d c r e) (shallow : r ≠ some tooDeep)
    (hq : q ∈ c.roots ∨ q ∈ d.pending ∨ Accounted p d q) : q ∈ e.pending ∨ Accounted p e q := by
  have evolved (hq : q ∈ d.pending ∨ Accounted p d q) (hd : Evolves p d e) : q ∈ e.pending ∨ Accounted p e q :=
    hq.imp (fun hq => hd.adds.pending.subset hq) fun hq => hq.grown hd.adds.containers hd.adds.funcs
  cases hc with
  | typeName named =>
    rcases hq with hq | hq
    · cases hq
    · exact evolved hq ((typeName_evolves _ d).of_ok named)
  | typeNameFails named =>
    rcases hq with hq | hq
    · cases hq
    · exact evolved hq ((typeName_evolves _ d).of_error named)
  | addNull null =>
    rcases hq with hq | hq
    · rw [Call.roots, List.mem_singleton] at hq
      subst hq
      refine .inr fun c hc => ?_
      rw [PtrValue.isNull, hc] at null
      cases null
    · exact hq
  | addConstant _ | addFunction =>
    rcases hq with hq | hq | hq
    · exact .inl (List.mem_append_right _ hq)
    · exact .inl (List.mem_append_left _ hq)
    · exact .inr hq
  | complete hc =>
    rcases hq with hq | hq
    · cases hq
    · exact hc.accounted h shallow hq

/-! ### Runs -/

/-- What a run leaves. -/
structure Leaves (p : Program) (es : List Event) (d : Database) : Prop where
  tidy : Tidy p d
  roots : ∀ q ∈ rootsOf es, q ∈ d.pending ∨ Accounted p d q

theorem Run.leaves {policy : GcPolicy} {rtti : List (NodeId × Rtti)} {es : List Event} (run : Run p (fresh policy rtti) es d)
    (shallow : ∀ c, (c, some tooDeep) ∉ es) : Leaves p es d := by
  induction run with
  | start => exact ⟨.fresh policy rtti, nofun⟩
  | @call es d _ c ih =>
    have before := ih fun c hc => shallow c (List.mem_append_left _ hc)
    have step := perform_calls p d c
    have ok : (perform p d c).1 ≠ some tooDeep := fun deep => shallow c (List.mem_append_right _ (List.mem_singleton.2 (by rw [deep])))
    refine ⟨before.tidy.calls step ok, fun q hq => step.accounted before.tidy ok ?_⟩
    rw [rootsOf_concat] at hq
    rcases List.mem_append.1 hq with hq | hq
    · exact .inr (before.roots q hq)
    · exact .inl hq

/-- **Failed calls leave no gaps**, however many of them there are, as long as none fails because a type goes too deep.  The
parts of every definition have names of finished definitions, or of types that refer back to themselves and cannot be defined.
And whenever collecting succeeds every pointer that has been added has its node, or points to an object whose type cannot be
defined. -/
theorem complete_despite_failures {policy : GcPolicy} {rtti : List (NodeId × Rtti)} {es : List Event}
    (run : Run p (fresh policy rtti) es d) (shallow : ∀ c, (c, some tooDeep) ∉ es) :
    Whole p.low.types d ∧ ∀ before, es = before ++ [(.complete, none)] → ∀ q ∈ rootsOf before, ∀ c, q.obj = some c → HasNode p d c ∨ Unmade p c := by
  have left := run.leaves shallow
  refine ⟨left.tidy.whole, fun before e q hq => ?_⟩
  subst e
  rcases left.roots q (by rw [rootsOf_concat]; exact List.mem_append_left _ hq) with waits | accounted
  · rw [run.nothing_waits] at waits
    cases waits
  · exact accounted

theorem not_mem_of_messages {es : List Event} (h : some "type too deep" ∉ messages es) (c : Call) : (c, some tooDeep) ∉ es :=
  fun hc => h (List.mem_map_of_mem (f := fun e : Event => e.2.map Failure.message) hc)

/-- Two objects, the structure of one of which refers to a group and cannot be defined. -/
def halfMade : Program :=
  { low :=
      { types := { nodes := #[.struct "S" [("g", .ptr 1)] {} false, .group "G" [], .struct "T" [("t", .ptr 2)] {} false] }
        containers := #[{ type := 0, fields := #[.ptr (.null 1)] }, { type := 2, fields := #[.ptr ⟨2, some 1⟩] }] } }

/-- A type fails, both objects are added, and the first attempt to collect them fails. -/
theorem complete_despite_failures_halfMade : ∃ es d, Run halfMade (fresh .none []) (es ++ [(.complete, none)]) d ∧ messages es =
    [some "no definition node for Group G", none, none, some "no definition node for Group G"] ∧ rootsOf es = [⟨0, some 0⟩, ⟨2, some 1⟩] ∧
    Whole halfMade.low.types d ∧ ∀ q ∈ rootsOf es, ∀ c, q.obj = some c → HasNode halfMade d c ∨ Unmade halfMade c := by
  let calls : List Call := [.typeName (.node 0), .addConstant ⟨0, some 0⟩, .addConstant ⟨2, some 1⟩, .complete]
  have run := (run_events halfMade (fresh .none []) calls).call .complete
  rw [show (perform halfMade (after halfMade (fresh .none []) calls) .complete).1 = none from
    Option.isNone_iff_eq_none.1 (by decide +kernel)] at run
  have said : messages (events halfMade (fresh .none []) calls) =
      [some "no definition node for Group G", none, none, some "no definition node for Group G"] := by decide +kernel
  have shallow : some "type too deep" ∉ messages (events halfMade (fresh .none []) calls ++ [(.complete, none)]) := by
    decide
  obtain ⟨whole, roots⟩ := complete_despite_failures run (not_mem_of_messages shallow)
  exact ⟨_, _, run, said, rfl, whole, roots _ rfl⟩

/-- Two structures that refer to each other, one of which refers to a group. -/
def ring : Program :=
  { low := { types := { nodes := #[.struct "S" [("t", .ptr 1), ("g", .ptr 2)] {} false, .struct "T" [("s", .ptr 0)] {} false, .group "G" []] } } }

/-- **What is left behind**: a name of nothing, and an object without its node although collecting succeeds in the end. -/
theorem left_behind : (∃ es d, Run ring (fresh .none []) es d ∧ messages es = [some "no definition node for Group G"] ∧
      d.defs.map (fun n => (n.cname, n.fields)) = [("struct pypy_T", [("s_s", "struct pypy_S *")])]) ∧
    ∃ es d, Run halfMade (fresh .none []) (es ++ [(.complete, none)]) d ∧
      messages es = [none, some "no definition node for Group G"] ∧ rootsOf es = [⟨0, some 0⟩] ∧ ¬ HasNode halfMade d 0 := by
  constructor
  · exact ⟨_, _, run_events ring (fresh .none []) [.typeName (.node 0)], by decide +kernel, by decide +kernel⟩
  · let calls : List Call := [.addConstant ⟨0, some 0⟩, .complete]
    have run := (run_events halfMade (fresh .none []) calls).call .complete
    rw [show (perform halfMade (after halfMade (fresh .none []) calls) .complete).1 = none from
      Option.isNone_iff_eq_none.1 (by decide +kernel)] at run
    refine ⟨_, _, run, by decide +kernel, rfl, ?_⟩
    have none : (perform halfMade (after halfMade (fresh .none []) calls) .complete).2.containers = [] := List.isEmpty_iff.1 (by decide +kernel)
    rintro ⟨_, h, _⟩
    exact List.not_mem_nil h

end FlowCompiler.Database
