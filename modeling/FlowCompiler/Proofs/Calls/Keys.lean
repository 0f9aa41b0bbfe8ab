import Mathlib.Algebra.Group.Nat.Defs
import Std.Data.String.ToInt
import FlowCompiler.Analysis.Specialize
import FlowCompiler.Proofs.Database.Naming
import FlowCompiler.Proofs.Steps.Unions

/-!
# Keys of constants

A graph or a result is found by the texts of the constants that a call gives, joined by commas.  Texts of strings are
quoted, so that a comma inside them is not taken for one between two keys; the other texts hold no comma.  What a key shows of
a constant is its value without its kind: a number, a text, a word, or the name of an object and where it lies.
-/

namespace FlowCompiler

open List Nat

/-! ## Quoted texts -/

namespace Quoted

/-- The characters that stand for one character inside quotes. -/
def code (c : Char) : List Char := (escape '"' c.toNat).toList

theorem toList_quote (s : String) : (quote s).toList = '"' :: (s.toList.flatMap code ++ ['"']) := by
  have inside (cs : List Char) (acc : String) : (cs.foldl (fun acc c => acc ++ escape '"' c.toNat) acc).toList = acc.toList ++ cs.flatMap code := by
    induction cs generalizing acc with
    | nil => simp
    | cons c cs ih => simp [ih, code]
  rw [quote, String.toList_append, String.foldl_eq_foldl_toList, inside]
  rfl

/-- The value of a hexadecimal digit. -/
def digitOf (c : Char) : Nat := if c.toNat < 58 then c.toNat - 48 else c.toNat - 87

def numberOf (cs : List Char) : Nat := cs.foldl (fun n c => n * 16 + digitOf c) 0

theorem length_hexFixed (w n : Nat) : (hexFixed w n).toList.length = w := by
  induction w generalizing n with
  | zero => rfl
  | succ w ih => simp [hexFixed, ih]

theorem numberOf_hexFixed {w n : Nat} (h : n < 16 ^ w) : numberOf (hexFixed w n).toList = n := by
  have digit : ∀ k < 16, digitOf (hexDigit k) = k := by decide
  induction w generalizing n with
  | zero =>
    rw [Nat.pow_zero] at h
    rw [Nat.lt_one_iff.1 h]
    rfl
  | succ w ih =>
    have := ih (n := n / 16) (Nat.div_lt_of_lt_mul (by rwa [Nat.pow_succ, Nat.mul_comm] at h))
    rw [hexFixed, numberOf, String.toList_append, foldl_append, String.toList_singleton]
    change numberOf (hexFixed w (n / 16)).toList * 16 + digitOf (hexDigit (n % 16)) = n
    rw [this, digit _ (Nat.mod_lt _ (by decide))]
    omega

theorem numberOf_toDigits (n : Nat) : numberOf (Nat.toDigits 16 n) = n := by
  have digit : ∀ k < 16, digitOf k.digitChar = k := by decide
  induction n using Nat.strongRecOn with
  | ind n ih =>
    rcases Nat.lt_or_ge n 16 with small | large
    · rw [Nat.toDigits_of_lt_base small]
      simp [numberOf, digit n small]
    · rw [Nat.toDigits_of_base_le (by decide) large, numberOf, foldl_append]
      change numberOf (Nat.toDigits 16 (n / 16)) * 16 + digitOf (n % 16).digitChar = n
      rw [ih _ (by omega), digit _ (Nat.mod_lt _ (by decide))]
      omega

theorem mem_toDigits {c : Char} {n : Nat} (h : c ∈ Nat.toDigits 16 n) : c ∈ "0123456789abcdef".toList := by
  have digit : ∀ k < 16, k.digitChar ∈ "0123456789abcdef".toList := by decide
  induction n using Nat.strongRecOn with
  | ind n ih =>
    rcases Nat.lt_or_ge n 16 with small | large
    · rw [Nat.toDigits_of_lt_base small, mem_singleton] at h
      exact h ▸ digit n small
    · rw [Nat.toDigits_of_base_le (by decide) large] at h
      rcases mem_append.1 h with h | h
      · exact ih _ (by omega) h
      · exact mem_singleton.1 h ▸ digit _ (Nat.mod_lt _ (by decide))

/-- Reads the number of one character after a backslash. -/
def readEscaped : List Char → Option (Nat × List Char)
  | [] => none
  | 'x' :: rest => some (numberOf (rest.take 2), rest.drop 2)
  | 'u' :: rest => some (numberOf (rest.take 4), rest.drop 4)
  | 'U' :: rest => some (numberOf (rest.take 8), rest.drop 8)
  | 'a' :: rest => some (7, rest)
  | 'b' :: rest => some (8, rest)
  | 't' :: rest => some (9, rest)
  | 'n' :: rest => some (10, rest)
  | 'v' :: rest => some (11, rest)
  | 'f' :: rest => some (12, rest)
  | 'r' :: rest => some (13, rest)
  | c :: rest => some (c.toNat, rest)

/-- Reads the number of one character from its code. -/
def read : List Char → Option (Nat × List Char)
  | [] => none
  | c :: rest => if c = '\\' then readEscaped rest else some (c.toNat, rest)

theorem read_ite {p : Prop} [Decidable p] {s t : String} {rest : List Char} {r : Option (Nat × List Char)}
    (yes : p → read (s.toList ++ rest) = r) (no : ¬ p → read (t.toList ++ rest) = r) : read ((if p then s else t).toList ++ rest) = r := by
  by_cases h : p
  · rw [if_pos h]
    exact yes h
  · rw [if_neg h]
    exact no h

theorem read_code (c : Char) (rest : List Char) : read (code c ++ rest) = some (c.toNat, rest) := by
  have hex (w : Nat) (h : c.toNat < 16 ^ w) : numberOf (((hexFixed w c.toNat).toList ++ rest).take w) = c.toNat ∧
      ((hexFixed w c.toNat).toList ++ rest).drop w = rest := by
    rw [take_left' (length_hexFixed w _), drop_left' (length_hexFixed w _)]
    exact ⟨numberOf_hexFixed h, rfl⟩
  have valid : c.toNat < 16 ^ 8 := c.val.toNat_lt
  unfold code escape
  refine read_ite (fun h => ?_) fun plain => ?_
  · rw [Char.ofNat_toNat]
    have is (d : Char) (h : c.toNat = d.toNat) : c = d := by rw [← Char.ofNat_toNat c, h, Char.ofNat_toNat]
    simp only [Bool.or_eq_true, decide_eq_true_eq] at h
    rcases h with h | h
    · cases is '"' h
      rfl
    · cases is '\\' h
      rfl
  iterate 7
    refine read_ite (fun h => ?_) fun _ => ?_
    · rw [h]
      rfl
  refine read_ite (fun _ => ?_) fun _ => read_ite (fun small => ?_) fun _ => read_ite (fun small => ?_) fun _ => ?_
  · rw [Char.ofNat_toNat]
    have other : c ≠ '\\' := by
      rintro rfl
      exact plain rfl
    rw [String.toList_singleton, singleton_append, read, if_neg other]
  · obtain ⟨number, left⟩ := hex 2 (by simp at small; omega)
    simp [read, readEscaped, number, left]
  · obtain ⟨number, left⟩ := hex 4 small
    simp [read, readEscaped, number, left]
  · obtain ⟨number, left⟩ := hex 8 valid
    simp [read, readEscaped, number, left]

theorem code_head (c : Char) : ∃ d ds, code c = d :: ds ∧ d ≠ '"' := by
  have whole := read_code c []
  rw [append_nil] at whole
  cases h : code c with
  | nil =>
    rw [h] at whole
    cases whole
  | cons d ds =>
    refine ⟨d, ds, rfl, ?_⟩
    rintro rfl
    -- only the character that it stands for has this code, and a quote is escaped
    rw [h, read, if_neg (by decide)] at whole
    have number := (Prod.mk.inj (Option.some.inj whole)).1
    have quote : c = '"' := by rw [← Char.ofNat_toNat c, ← number, Char.ofNat_toNat]
    rw [quote, show code '"' = ['\\', '"'] by decide] at h
    exact absurd (List.cons.inj h).1 (by decide)

/-- **Quoted texts** tell the text and what follows it. -/
theorem quote_append_inj {s t : String} {u v : List Char} (h : (quote s).toList ++ u = (quote t).toList ++ v) : s = t ∧ u = v := by
  suffices ∀ cs ds : List Char, cs.flatMap code ++ '"' :: u = ds.flatMap code ++ '"' :: v → cs = ds ∧ u = v by
    rw [toList_quote, toList_quote] at h
    obtain ⟨same, rest⟩ := this s.toList t.toList (by simpa using h)
    exact ⟨String.toList_inj.1 same, rest⟩
  intro cs ds h
  induction cs generalizing ds with
  | nil =>
    cases ds with
    | nil => exact ⟨rfl, (List.cons.inj h).2⟩
    | cons d ds =>
      rw [flatMap_cons, append_assoc] at h
      obtain ⟨x, xs, e, ne⟩ := code_head d
      rw [e] at h
      exact absurd (List.cons.inj h).1.symm ne
  | cons c cs ih =>
    rw [flatMap_cons, append_assoc] at h
    cases ds with
    | nil =>
      obtain ⟨x, xs, e, ne⟩ := code_head c
      rw [e] at h
      exact absurd (List.cons.inj h).1 ne
    | cons d ds =>
      rw [flatMap_cons, append_assoc] at h
      have read := read_code c (cs.flatMap code ++ '"' :: u)
      rw [h, read_code] at read
      obtain ⟨number, rest⟩ := Prod.mk.inj (Option.some.inj read)
      obtain ⟨same, left⟩ := ih ds rest.symm
      rw [show c = d by rw [← Char.ofNat_toNat c, ← number, Char.ofNat_toNat], same]
      exact ⟨rfl, left⟩

end Quoted

/-! ## What a key shows -/

/-- What the key of a constant shows: a word, a text, a number, or an object by its name and where it lies. -/
inductive Shown where
  | word (w : String)
  | text (s : String)
  | number (n : Int)
  | object (name : String) (place : Nat)
deriving DecidableEq

namespace Shown

def key : Shown → String
  | word w => w
  | text s => Quoted.quote s
  | number n => n.repr
  | object name place => name ++ "@" ++ ("0x" ++ String.ofList (Nat.toDigits 16 place))

/-- Words and names hold no comma and start with no quote; words do not look like numbers, and end in no place. -/
def Clean : Shown → Prop
  | word w => ',' ∉ w.toList ∧ ('@' ∉ w.toList ∨ w.toList.getLast? = some ')') ∧ ∃ c cs, w.toList = c :: cs ∧ c.isDigit = false ∧ c ≠ '-' ∧ c ≠ '"'
  | text _ => True
  | number _ => True
  | object name _ => ',' ∉ name.toList ∧ name.toList.head? ≠ some '"'

variable {a b : Shown} {as bs : List Shown}

theorem toList_key_object (name : String) (place : Nat) :
    (object name place).key.toList = (name.toList ++ ['@', '0']) ++ 'x' :: Nat.toDigits 16 place := by
  simp [key]

theorem isDigit_or_minus {n : Int} {c : Char} (h : c ∈ n.repr.toList) : c.isDigit ∨ c = '-' := by
  have digit {k : Nat} (h : c ∈ k.repr.toList) : c.isDigit := by
    rw [toList_repr] at h
    exact isDigit_of_mem_toDigits (by decide) (by decide) h
  cases n with
  | ofNat k => exact .inl (digit h)
  | negSucc k =>
    rw [Int.repr, String.toList_append] at h
    rcases mem_append.1 h with h | h
    · exact .inr (mem_singleton.1 h)
    · exact .inl (digit h)

/-- A key that is not quoted holds no comma and does not look quoted. -/
theorem Clean.plain (h : a.Clean) (not_text : ∀ s, a ≠ text s) : ',' ∉ a.key.toList ∧ a.key.toList.head? ≠ some '"' := by
  cases a with
  | word w =>
    obtain ⟨comma, -, c, cs, e, -, -, quote⟩ := h
    refine ⟨comma, ?_⟩
    rw [key, e]
    exact fun h => quote (Option.some.inj h)
  | text s => exact absurd rfl (not_text s)
  | number n =>
    refine ⟨fun hc => ?_, fun hq => ?_⟩
    · rcases isDigit_or_minus hc with h | h <;> cases h
    · rcases isDigit_or_minus (mem_of_head? hq) with h | h <;> cases h
  | object name place =>
    rw [toList_key_object]
    refine ⟨fun hc => ?_, fun hq => ?_⟩
    · simp only [mem_append, mem_cons, not_mem_nil, or_false] at hc
      rcases hc with (hc | hc | hc) | hc | hc
      · exact h.1 hc
      · cases hc
      · cases hc
      · cases hc
      · exact absurd (Quoted.mem_toDigits hc) (by decide)
    · cases e : name.toList with
      | nil =>
        rw [e] at hq
        cases hq
      | cons c cs =>
        refine h.2 ?_
        rw [e] at hq ⊢
        exact hq

theorem head_key_text (s : String) : (text s).key.toList.head? = some '"' := by
  rw [key, Quoted.toList_quote]
  rfl

theorem key_inj (ha : a.Clean) (hb : b.Clean) (h : a.key = b.key) : a = b := by
  have marked (name : String) (place : Nat) : '@' ∈ (object name place).key.toList := by
    rw [toList_key_object]
    simp
  have word_number {w : String} {n : Int} (hw : (word w).Clean) : (word w).key ≠ (number n).key := fun e => by
    obtain ⟨-, -, c, cs, hc, digit, minus, -⟩ := hw
    have mem : c ∈ n.repr.toList := by
      change c ∈ (number n).key.toList
      rw [← e, key, hc]
      exact mem_cons_self
    rcases isDigit_or_minus mem with h | rfl
    · exact absurd (digit.symm.trans h) (by decide)
    · exact minus rfl
  have word_object {w name : String} {place : Nat} (hw : (word w).Clean) : (word w).key ≠ (object name place).key := fun e => by
    rcases hw.2.1 with none | last
    · exact none (show '@' ∈ (word w).key.toList from e ▸ marked name place)
    · -- what an object's key ends in is a digit
      rw [show w = _ from e, toList_key_object, getLast?_append, getLast?_cons, Option.some_or] at last
      have := mem_of_getLast? (getLast?_cons.trans last)
      rcases mem_cons.1 this with h | h
      · cases h
      · exact absurd (Quoted.mem_toDigits h) (by decide)
  have number_object {n : Int} {name : String} {place : Nat} : (number n).key ≠ (object name place).key := fun e => by
    have mem : '@' ∈ n.repr.toList := show '@' ∈ (number n).key.toList from e ▸ marked name place
    rcases isDigit_or_minus mem with h | h <;> cases h
  have text_other {s : String} {c : Shown} (hc : c.Clean) (other : ∀ s, c ≠ text s) : (text s).key ≠ c.key := fun e => by
    exact (hc.plain other).2 (e ▸ head_key_text s)
  cases a with
  | word w =>
    cases b with
    | word => exact congrArg word h
    | text => exact absurd h.symm (text_other ha nofun)
    | number => exact absurd h (word_number ha)
    | object => exact absurd h (word_object ha)
  | text s =>
    cases b with
    | text t => exact congrArg text (Quoted.quote_append_inj (congrArg (·.toList ++ []) h)).1
    | _ => exact absurd h (text_other hb nofun)
  | number n =>
    cases b with
    | word => exact absurd h.symm (word_number hb)
    | text => exact absurd h.symm (text_other ha nofun)
    | number => exact congrArg number (Int.repr_injective h)
    | object => exact absurd h number_object
  | object name place =>
    cases b with
    | word => exact absurd h.symm (word_object hb)
    | text => exact absurd h.symm (text_other ha nofun)
    | number => exact absurd h.symm number_object
    | object name' place' =>
      have clean (n : Nat) : 'x' ∉ (Nat.toDigits 16 n).reverse := fun h => absurd (Quoted.mem_toDigits (mem_reverse.1 h)) (by decide)
      have e := congrArg (List.reverse ∘ String.toList) h
      simp only [Function.comp_apply, toList_key_object, reverse_append, reverse_cons, append_assoc, singleton_append] at e
      obtain ⟨digits, names⟩ := NameSupply.append_mark_inj (clean place) (clean place') e
      rw [String.toList_inj.1 (reverse_inj.1 (append_cancel_left names)), ← Quoted.numberOf_toDigits place, reverse_inj.1 digits,
        Quoted.numberOf_toDigits]

/-- What follows a key: nothing, or a comma. -/
def Follows (x : List Char) : Prop := x = [] ∨ ∃ r, x = ',' :: r

/-- **A key ends** before the comma that follows it. -/
theorem key_append_inj (ha : a.Clean) (hb : b.Clean) {x y : List Char} (hx : Follows x) (hy : Follows y)
    (h : a.key.toList ++ x = b.key.toList ++ y) : a = b ∧ x = y := by
  have quoted {s : String} {c : Shown} (hc : c.Clean) (other : ∀ s, c ≠ text s) {u v : List Char} (hv : Follows v) :
      (text s).key.toList ++ u ≠ c.key.toList ++ v := fun e => by
    have first := congrArg List.head? e
    rw [List.head?_append, head_key_text] at first
    have plain := (hc.plain other).2
    cases hk : c.key.toList with
    | nil => rcases hv with rfl | ⟨r, rfl⟩ <;> simp [hk] at first
    | cons d ds =>
      rw [hk] at first plain
      exact plain first.symm
  have unquoted (ha' : ∀ s, a ≠ text s) (hb' : ∀ s, b ≠ text s) : a = b ∧ x = y := by
    have clean := (ha.plain ha').1
    have clean' := (hb.plain hb').1
    rcases hx with rfl | ⟨r, rfl⟩
    · rcases hy with rfl | ⟨r', rfl⟩
      · rw [append_nil, append_nil] at h
        exact ⟨key_inj ha hb (String.toList_inj.1 h), rfl⟩
      · rw [append_nil] at h
        exact absurd (h ▸ mem_append_right _ mem_cons_self) clean
    · rcases hy with rfl | ⟨r', rfl⟩
      · rw [append_nil] at h
        exact absurd (h ▸ mem_append_right _ mem_cons_self) clean'
      · obtain ⟨same, rest⟩ := NameSupply.append_mark_inj clean clean' h
        exact ⟨key_inj ha hb (String.toList_inj.1 same), congrArg _ rest⟩
  cases a with
  | text s =>
    cases b with
    | text t =>
      obtain ⟨same, rest⟩ := Quoted.quote_append_inj h
      exact ⟨congrArg text same, rest⟩
    | _ => exact absurd h (quoted hb nofun hy)
  | _ =>
    cases b with
    | text t => exact absurd h.symm (quoted ha nofun hx)
    | _ => exact unquoted nofun nofun

theorem follows_flatMap (as : List Shown) : Follows (as.flatMap fun a => ',' :: a.key.toList) := by
  cases as with
  | nil => exact .inl rfl
  | cons a as => exact .inr ⟨_, rfl⟩

theorem toList_join (a : Shown) (as : List Shown) :
    (String.intercalate "," ((a :: as).map key)).toList = a.key.toList ++ as.flatMap fun a => ',' :: a.key.toList := by
  induction as generalizing a with
  | nil => simp
  | cons b as ih =>
    rw [map_cons, map_cons, String.intercalate_cons_cons, String.toList_append, String.toList_append, ← map_cons, ih]
    simp

/-- Keys joined by commas tell what they show. -/
theorem join_inj (ha : ∀ a ∈ as, a.Clean) (hb : ∀ b ∈ bs, b.Clean) (length : as.length = bs.length)
    (h : String.intercalate "," (as.map key) = String.intercalate "," (bs.map key)) : as = bs := by
  have tails {as bs : List Shown} (ha : ∀ a ∈ as, a.Clean) (hb : ∀ b ∈ bs, b.Clean)
      (h : (as.flatMap fun a => ',' :: a.key.toList) = bs.flatMap fun b => ',' :: b.key.toList) : as = bs := by
    induction as generalizing bs with
    | nil =>
      cases bs with
      | nil => rfl
      | cons => cases h
    | cons a as ih =>
      cases bs with
      | nil => cases h
      | cons b bs =>
        obtain ⟨same, rest⟩ := key_append_inj (ha _ mem_cons_self) (hb _ mem_cons_self) (follows_flatMap as) (follows_flatMap bs) (List.cons.inj h).2
        rw [same, ih (fun c hc => ha c (mem_cons_of_mem _ hc)) (fun c hc => hb c (mem_cons_of_mem _ hc)) rest]
  cases as with
  | nil => exact (length_eq_zero_iff.1 length.symm).symm
  | cons a as =>
    cases bs with
    | nil => cases length
    | cons b bs =>
      have h := congrArg String.toList h
      rw [toList_join, toList_join] at h
      obtain ⟨same, rest⟩ := key_append_inj (ha _ mem_cons_self) (hb _ mem_cons_self) (follows_flatMap as) (follows_flatMap bs) h
      rw [same, tails (fun c hc => ha c (mem_cons_of_mem _ hc)) (fun c hc => hb c (mem_cons_of_mem _ hc)) rest]

end Shown

namespace Ana

variable {h h' : HostStore} {v w : Datum} {a : Shown} {vs ws : List Datum} {as bs : List Shown}

/-- What stands before the name in the key of a builtin function. -/
def builtinLead : String := "annotation.BuiltinRef@%!p(annotation.BuiltinRef="

/-- What the key of a constant shows; nothing is said of doubles and tuples, nor of values that no annotation has as its constant. -/
def shown? (h : HostStore) (v : Datum) : Option Shown :=
  match v with
  | .nil => some (.word "None")
  | .nothing => some (.word "None@%!p(annotation.NoneValue=\x7b\x7d)")
  | .none => some (.word "None@%!p(program.noneType=\x7b\x7d)")
  | .bool b => some (.word (Types.boolText b))
  | .int n => some (.number n.toInt)
  | .byte b => some (.number b.toNat)
  | .rune c => some (.number c)
  | .str s => some (.text s)
  | .builtinName name => some (.word (builtinLead ++ name ++ ")"))
  | .fn _ => some (.object (h.text v) (h.address v))
  | .cls _ => some (.object (h.text v) (h.address v))
  | .inst _ => some (.object (h.text v) (h.address v))
  | .bound _ => some (.object (h.text v) (h.address v))
  | _ => none

theorem constKey_eq (e : shown? h v = some a) : constKey h v = a.key := by
  unfold shown? at e
  split at e
  all_goals cases e
  all_goals rfl

/-- The number of a kind that is shown. -/
def restoreNumber (kind : String) (n : Int) : Datum :=
  if kind = "int64" then .int (Int64.ofInt n) else if kind = "uint8" then .byte (UInt8.ofNat n.toNat) else .rune n

def restoreObject (kind : String) (place : Nat) : Datum :=
  let n := (place - 0xc000000000) / 4
  if kind = "*program.Function" then .fn n else if kind = "*program.Class" then .cls n
  else if kind = "*program.Instance" then .inst n else .bound n

def restoreWord (kind w : String) : Datum :=
  if kind = "<nil>" then .nil else if kind = "annotation.NoneValue" then .nothing else if kind = "program.noneType" then .none
  else if kind = "bool" then .bool (w == "true")
  else .builtinName (String.ofList (w.toList.drop builtinLead.toList.length).dropLast)

/-- The constant of a kind that is shown. -/
def restore (kind : String) : Shown → Datum
  | .number n => restoreNumber kind n
  | .text s => .str s
  | .object _ place => restoreObject kind place
  | .word w => restoreWord kind w

theorem number_of_place (n kind : Nat) (h : kind < 4) : (0xc000000000 + 4 * n + kind - 0xc000000000) / 4 = n := by
  omega

theorem restore_shown (e : shown? h v = some a) : restore (HostStore.typeText v) a = v := by
  unfold shown? at e
  split at e
  all_goals cases e
  case h_4 b => cases b <;> rfl
  case h_5 n =>
    change restoreNumber "int64" n.toInt = _
    rw [restoreNumber, if_pos rfl, Int64.ofInt_toInt]
  case h_6 b =>
    change restoreNumber "uint8" b.toNat = _
    rw [restoreNumber, if_neg (by decide), if_pos rfl]
    exact congrArg Datum.byte UInt8.ofNat_toNat
  case h_9 name =>
    have inside : ((builtinLead ++ name ++ ")").toList.drop builtinLead.toList.length).dropLast = name.toList := by
      rw [String.toList_append, String.toList_append, append_assoc, drop_left]
      exact dropLast_concat
    change restoreWord "annotation.BuiltinRef" (builtinLead ++ name ++ ")") = _
    rw [restoreWord, if_neg (by decide), if_neg (by decide), if_neg (by decide), if_neg (by decide), inside,
      String.ofList_toList]
  case h_10 n => exact congrArg Datum.fn (number_of_place n 0 (by decide))
  case h_11 n => exact congrArg Datum.cls (number_of_place n 1 (by decide))
  case h_12 n => exact congrArg Datum.inst (number_of_place n 2 (by decide))
  case h_13 n => exact congrArg Datum.bound (number_of_place n 3 (by decide))
  all_goals rfl

/-- Of constants of one kind, what is shown tells the constant. -/
theorem shown?_inj (kind : HostStore.typeText v = HostStore.typeText w) (hv : shown? h v = some a) (hw : shown? h' w = some a) : v = w := by
  rw [← restore_shown hv, kind, restore_shown hw]

/-! ## Sharing -/

/-- The key of a call with constants, as it stands behind the lead of its directive. -/
def keyOf (h : HostStore) (vs : List Datum) : String := String.intercalate "," (vs.map (constKey h))

/-- Constants whose keys show them, with names that no comma or quote makes ambiguous. -/
def Reveals (h : HostStore) (vs : List Datum) (as : List Shown) : Prop := vs.map (shown? h) = as.map some ∧ ∀ a ∈ as, a.Clean

theorem Reveals.keyOf_eq (hv : Reveals h vs as) : keyOf h vs = String.intercalate "," (as.map Shown.key) := by
  refine congrArg (String.intercalate ",") ?_
  obtain ⟨e, -⟩ := hv
  induction vs generalizing as with
  | nil =>
    rw [map_eq_nil_iff.1 e.symm]
    rfl
  | cons v vs ih =>
    obtain ⟨a, as, rfl, first, others⟩ := map_eq_cons_iff.1 e.symm
    rw [map_cons, map_cons, constKey_eq first.symm, ih others.symm]

/-- **Keys tell what they show** of constants, and nothing else of them. -/
theorem Reveals.keyOf_eq_iff (hv : Reveals h vs as) (hw : Reveals h' ws bs) (length : vs.length = ws.length) :
    keyOf h vs = keyOf h' ws ↔ as = bs := by
  rw [hv.keyOf_eq, hw.keyOf_eq]
  refine ⟨Shown.join_inj hv.2 hw.2 ?_, fun e => e ▸ rfl⟩
  have shown := congrArg List.length hv.1
  have shown' := congrArg List.length hw.1
  rw [length_map, length_map] at shown shown'
  rw [← shown, ← shown', length]

theorem Reveals.eq_of_kinds (hv : Reveals h vs as) (hw : Reveals h' ws as) (kinds : vs.map HostStore.typeText = ws.map HostStore.typeText) :
    vs = ws := by
  obtain ⟨e, -⟩ := hv
  obtain ⟨e', -⟩ := hw
  induction as generalizing vs ws with
  | nil => rw [map_eq_nil_iff.1 e, map_eq_nil_iff.1 e']
  | cons a as ih =>
    obtain ⟨v, vs, rfl, ev, evs⟩ := map_eq_cons_iff.1 e
    obtain ⟨w, ws, rfl, ew, ews⟩ := map_eq_cons_iff.1 e'
    obtain ⟨kind, kinds⟩ := List.cons.inj kinds
    rw [shown?_inj kind ev ew, ih kinds evs ews]

/-- The same constants show the same as long as they keep their names. -/
theorem Reveals.shown_eq (hv : Reveals h vs as) (hw : Reveals h' vs bs) (names : vs.map h.text = vs.map h'.text) : as = bs := by
  have same : vs.map (shown? h) = vs.map (shown? h') := map_inj_left.2 fun v hv => by
    have name := map_inj_left.1 names v hv
    cases v with
    | fn | cls | inst | bound => exact congrArg (some ∘ (Shown.object · _)) name
    | _ => rfl
  exact map_injective_iff.2 (fun _ _ => Option.some.inj) (hv.1.symm.trans (same.trans hw.1))

theorem cachedGraph_of_found {d : DescId} {key : String} {g : GraphId} {k : Knot} {u : World} (found : (u.funcDesc d).cache.lookup key = some g)
    (variant : String) : cachedGraph d key variant k u = .ok (.graph g) u := by
  refine (Ana.bind_of_ok (m := get) rfl).trans ?_
  rw [found]
  rfl

theorem memoResult_of_found {d : DescId} {table : MemoTable} {a : Annot} {k : Knot} {u : World}
    (found : (u.funcDesc d).memo.lookup (keyOf u.prog.host vs) = some a) : memoResult d table vs k u = .ok a u := by
  refine (Ana.bind_of_ok (m := host) rfl).trans ((Ana.bind_of_ok (m := get) rfl).trans ?_)
  change (u.funcDesc d).memo.lookup (String.intercalate "," (vs.map (constKey u.prog.host))) = some a at found
  rw [found]
  rfl

end Ana
end FlowCompiler
