import Std.Data.HashMap
import FlowCompiler.Failure

/-!
# Partitions under merging

A partition of keys into classes, each class with information that absorbs the information of a class
merged into it.  Representatives are found through parent links, which are shortened on the way, and
the larger class keeps its representative.
-/

namespace FlowCompiler

structure Partition (κ : Type) (ι : Type) [BEq κ] [Hashable κ] where
  /-- The parent of every known key; a representative is its own parent. -/
  parent : Std.HashMap κ κ := {}
  /-- The number of members of the class of every representative. -/
  size : Std.HashMap κ Nat := {}
  /-- Representatives with the information of their class, in the order in which they were made. -/
  info : List (κ × ι) := []

namespace Partition

variable {κ ι : Type} [BEq κ] [Hashable κ]

def contains (p : Partition κ ι) (k : κ) : Bool := p.parent.contains k

/-- Follows parents for at most `fuel` steps. -/
def root (p : Partition κ ι) : (fuel : Nat) → κ → κ
  | 0, k => k
  | n + 1, k =>
    match p.parent[k]? with
    | some q => if q == k then k else p.root n q
    | none => k

/-- The representative of a key. -/
def rep (p : Partition κ ι) (k : κ) : κ := p.root p.parent.size k

/-- Points every key on the way from `k` straight at `r`. -/
def compress (parent : Std.HashMap κ κ) (r : κ) : (fuel : Nat) → κ → Std.HashMap κ κ
  | 0, _ => parent
  | n + 1, k =>
    if k == r then parent
    else match parent[k]? with
      | some next => compress (parent.insert k r) r n next
      | none => parent

def compressed (p : Partition κ ι) (k : κ) : Partition κ ι :=
  { p with parent := compress p.parent (p.rep k) p.parent.size k }

def infoOf? (p : Partition κ ι) (r : κ) : Option ι := p.info.lookup r

/-- The representative and the information of a key's class; an unknown key becomes a class of its
own with the information `fresh`. -/
def find (p : Partition κ ι) (k : κ) (fresh : ι) : Partition κ ι × κ × ι :=
  if p.contains k then
    let r := p.rep k
    (p.compressed k, r, (p.infoOf? r).getD fresh)
  else
    ({ parent := p.parent.insert k k, size := p.size.insert k 1, info := p.info ++ [(k, fresh)] }, k, fresh)

/-- The information of a known key's class. -/
def lookup (p : Partition κ ι) (k : κ) : Partition κ ι × Option ι :=
  if p.contains k then (p.compressed k, p.infoOf? (p.rep k)) else (p, none)

/-- What merging two keys did. -/
structure Merged (κ ι : Type) [BEq κ] [Hashable κ] where
  partition : Partition κ ι
  changed : Bool
  rep : κ
  info : ι
  failure : Option Failure := none

/-- Merges the classes of two keys.  `absorb` gives the information of the merged class; also when it
fails the classes are merged, with the information it left behind. -/
def union (p : Partition κ ι) (a b : κ) (freshA freshB : ι) (absorb : ι → ι → ι × Option Failure) :
    Merged κ ι :=
  let (p, ra, ia) := p.find a freshA
  let (p, rb, ib) := p.find b freshB
  if ra == rb then { partition := p, changed := false, rep := ra, info := ia }
  else
    let na := (p.size[ra]?).getD 0
    let nb := (p.size[rb]?).getD 0
    let (ra, rb, ia, ib) := if na < nb then (rb, ra, ib, ia) else (ra, rb, ia, ib)
    let (i, failure) := absorb ia ib
    let merged : Partition κ ι :=
      { parent := p.parent.insert rb ra
        size := (p.size.insert ra (na + nb)).erase rb
        info := (p.info.filter fun e => !(e.1 == rb)).map fun e => if e.1 == ra then (ra, i) else e }
    { partition := merged, changed := true, rep := ra, info := i, failure }

/-- Merges the classes of two known keys, the information of the surviving class being kept; gives the
information of the class that was taken in. -/
def join (p : Partition κ ι) (a b : κ) : Partition κ ι × Option (ι × ι) :=
  match p.infoOf? (p.rep a), p.infoOf? (p.rep b) with
  | some ia, some ib =>
    let m := p.union a b ia ib fun x _ => (x, none)
    if m.changed then
      let na := (p.size[p.rep a]?).getD 0
      let nb := (p.size[p.rep b]?).getD 0
      (m.partition, some (if na < nb then (ib, ia) else (ia, ib)))
    else (m.partition, none)
  | _, _ => (p, none)

/-- The information of every class. -/
def infos (p : Partition κ ι) : List ι := p.info.map Prod.snd

/-- The number of classes. -/
def length (p : Partition κ ι) : Nat := p.info.length

end Partition
end FlowCompiler
