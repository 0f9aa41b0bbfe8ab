import FlowCompiler.BigInteger
import FlowCompiler.Lowering.Layout

/-!
# Constants

A constant of the program becomes a low-level value of its representation: a number, or a pointer to a
prebuilt object.  One object of the program has one prebuilt object in each representation, also when it
refers to itself, so objects are registered before their fields are converted.  Strings get their hash when
they are built, and dictionaries are laid out as the hash tables that the running program uses.
-/

namespace FlowCompiler

/-! ## Numbers and characters -/

/-- The word that a datum stands for as an integer. -/
def Datum.word? : Datum → Option Int64
  | .int n => some n
  | .count n => some (Int64.ofInt n)
  | .int32 n => some (Int64.ofInt n)
  | .rune n => some (Int64.ofInt n)
  | .uint n => some n.toInt64
  | .bool b => some (if b then 1 else 0)
  | .char c => some (Int64.ofNat c.toNat)
  | _ => Option.none

def integerConst (isSigned : Bool) (v : Datum) : Option Datum :=
  match v with
  | .big n =>
    if isSigned then (BigInteger.toWord n).toOption.map Datum.int else some (.uint (BigInteger.lowBits n))
  | v => v.word?.map fun n => if isSigned then .int n else .uint n.toUInt64

/-- The only character of a text. -/
def soleChar? (s : String) : Option Char :=
  match s.toList with
  | [c] => some c
  | _ => none

/-- A constant as a value of a machine type. -/
def Primitive.constant? (p : Primitive) (v : Datum) : Option Datum :=
  match p.cls with
  | .bool => match v with
    | .bool b => some (.bool b)
    | .int n => some (.bool (n ≠ 0))
    | .count n => some (.bool (n ≠ 0))
    | _ => none
  | .int => integerConst p.signed v
  | .float => match v with
    | .float d => some (.float d)
    | .big n => (BigInteger.toDouble n).toOption.map Datum.float
    | .int n => some (.float (Double.ofInt n.toInt))
    | .count n => some (.float (Double.ofInt n))
    | _ => none
  | .char => match v with
    | .char c => some (.byte c)
    | .byte c => some (.byte c)
    | .str s => (soleChar? s).bind fun c => if c.toNat < 128 then some (.byte (UInt8.ofNat c.toNat)) else none
    | _ => none
  | .unichar => match v with
    | .unichar c => some (.rune c)
    | .rune c => some (.rune c)
    | .int32 c => some (.rune c)
    | .unicode s => (soleChar? s).map fun c => .rune c.toNat
    | .str s => (soleChar? s).map fun c => .rune c.toNat
    | _ => none
  | _ => none

/-! ## Strings -/

/-- The hash of a string: every character is mixed in by a multiplication, the length at the end.  The hash
of the empty string is zero, and minus one is never a hash. -/
def stringHash (chars : List Int) : Int64 :=
  match chars with
  | [] => 0
  | c :: _ =>
    let x := chars.foldl (fun x c => (1000003 * x) ^^^ Int64.ofInt c) (Int64.ofInt c <<< 7)
    let x := x ^^^ Int64.ofNat chars.length
    if x = -1 then -2 else x

def bytesOf (s : String) : List Int := s.toUTF8.toList.map fun b => Int.ofNat b.toNat

def codePointsOf (s : String) : List Int := s.toList.map fun c => Int.ofNat c.toNat

/-- The character of a code point; what is none becomes the replacement character. -/
def charOfCode (c : Int) : Char :=
  if 0 ≤ c ∧ c.toNat.isValidChar then Char.ofNat c.toNat else Char.ofNat 0xFFFD

/-- The characters of a string constant in a representation, and the key under which it is kept; none for
other constants. -/
def textConstant? (unicode : Bool) (v : Datum) : Option (Datum × List Int) :=
  match v with
  | .str s => some (.str s, if unicode then codePointsOf s else bytesOf s)
  | .unicode s => some (.str s, codePointsOf s)
  | .char c =>
    some (if c.toNat < 128 then .str (String.singleton (Char.ofNat c.toNat)) else .char c, [Int.ofNat c.toNat])
  | .unichar c => some (.str (String.singleton (charOfCode c)), [c])
  | _ => none

/-! ## Hash tables -/

namespace HashTable

/-- The hash of a key; keys without a hash of their own take their place in the constant. -/
def keyHash (key : Datum) (index : Nat) : Int64 :=
  match key with
  | .int n => n
  | .count n => Int64.ofInt n
  | .bool b => if b then 1 else 0
  | .char c => Int64.ofNat c.toNat
  | .byte c => Int64.ofNat c.toNat
  | .str s => stringHash (bytesOf s)
  | .unicode s => stringHash (codePointsOf s)
  | _ => Int64.ofNat index

def sizeAux (n : Nat) : (fuel size : Nat) → Nat
  | 0, size => size
  | fuel + 1, size => if size * 2 ≤ n * 3 then sizeAux n fuel (size * 2) else size

/-- The number of entries of a table with `n` keys: the least power of two, eight at least, of which the
keys fill less than two thirds. -/
def size (n : Nat) : Nat := sizeAux n n 8

/-- The first slot that is not in use, from a slot on and around the end of the table. -/
def probe (size : Nat) (used : List Nat) : (fuel slot : Nat) → Nat
  | 0, slot => slot
  | fuel + 1, slot => if used.contains slot then probe size used fuel ((slot + 1) % size) else slot

/-- The slot at which the search for a hash starts. -/
def home (size : Nat) (h : Int64) : Nat := h.toUInt64.toNat % size

/-- The slots of keys, in order.  A key is given by its hash and by whether its entry shows that it is in
use. -/
def place (size : Nat) (used : List Nat) : List (Int64 × Bool) → List Nat
  | [] => []
  | (h, marks) :: rest =>
    let slot := probe size used size (home size h)
    slot :: place size (if marks then slot :: used else used) rest

end HashTable

/-! ## Prebuilt objects -/

namespace Typing

/-- The conversion of constants one level further down. -/
abbrev ConstStep := Representation → Datum → Typing Datum

/-- Builds an object once for every key of a representation; `build` registers it as soon as it exists. -/
def prebuiltAs (r : Representation) (key : Datum) (build : (PtrValue → Typing Unit) → Typing PtrValue) : Typing Datum := do
  match (← get).prebuilt[(r, key)]? with
  | some p => pure (.ptr p)
  | none => do
    let register (p : PtrValue) : Typing Unit := modify fun t => { t with prebuilt := t.prebuilt.insert (r, key) p }
    let p ← build register
    register p
    pure (.ptr p)

def nullOf (r : Representation) : Typing Datum := do
  match ← lowType r with
  | .ptr pointee => pure (.ptr (.null pointee))
  | _ => pure .nil

/-- The pointer as one of another type. -/
def retyped (p : PtrValue) (pointee : NodeId) : PtrValue := { p with pointee }

def fieldsOf (p : PtrValue) (vs : List Datum) : Typing Unit := do
  match p.obj with
  | some c => updateContainer c fun k => { k with fields := vs.toArray }
  | none => pure ()

def itemsOf (p : PtrValue) (vs : List Datum) : Typing Unit := do
  match p.obj with
  | some c => updateContainer c fun k => { k with items := vs.toArray }
  | none => pure ()

/-- Puts a value into the named field of a container of a structure type. -/
def putField (c : ContainerId) (struct : NodeId) (name : String) (v : Datum) : Typing Unit := do
  match (← types).fieldIndex? struct name with
  | some i => setFieldAt c i v
  | none => pure ()

def castTo (pointee : NodeId) (p : PtrValue) : Typing PtrValue := do ofExcept ((← world).prog.low.castPointer pointee p)

def stringConst (unicode : Bool) (v : Datum) : Typing Datum := do
  let r : Representation := .text unicode
  match v with
  | .nil => nullOf r
  | .nothing => nullOf r
  | .none => nullOf r
  | v => match textConstant? unicode v with
    | none => inconsistent s!"{HostStore.typeText v} is not a string constant"
    | some (key, chars) => prebuiltAs r key fun _ => do
      let p ← mallocPrebuilt (← textStruct unicode) chars.length
      match p.obj with
      | none => pure ()
      | some c => do
        setFieldAt c 0 (.int (stringHash chars))
        match ((← world).prog.low.get c).fields[1]? with
        | some (Datum.container a) => updateContainer a fun k =>
            { k with items := (chars.map fun ch =>
                if unicode then Datum.rune ch else Datum.byte (UInt8.ofNat (ch.toNat % 256))).toArray }
        | _ => pure ()
      pure p

def tupleItems? (h : HostStore) (v : Datum) : Option (List Datum) :=
  match v with
  | .tuple o => match h.object o with
    | .tuple xs => some xs
    | _ => some []
  | .consts o => match h.object o with
    | .consts xs => some xs
    | _ => some []
  | _ => none

def tupleConst (step : ConstStep) (i : Nat) (v : Datum) : Typing Datum := do
  let k ← tupleLayout i
  match tupleItems? (← host) v with
  | none => inconsistent s!"{HostStore.typeText v} is not a tuple constant"
  | some items => do
    if items.length ≠ k.items.length then
      inconsistent s!"tuple constant has {items.length} items, {← reprText (.tuple i)} has {k.items.length}"
    let p ← mallocPrebuilt k.struct 0
    let vs ← (k.items.zip items).mapM fun (r, d) => step r d
    fieldsOf p vs
    pure (.ptr p)

def listConst (step : ConstStep) (i : Nat) (v : Datum) : Typing Datum := do
  let r : Representation := .list i
  match v with
  | .nil => nullOf r
  | .none => nullOf r
  | .list o => prebuiltAs r (.list o) fun _ => do
    let k ← listLayout i
    let items := match (← host).object o with
      | .list xs => xs
      | _ => []
    let arr ← mallocPrebuilt k.array items.length
    let vs ← items.mapM (step (k.item.getD .impossible))
    itemsOf arr vs
    if k.fixed then pure (retyped arr k.target)
    else
      let p ← mallocPrebuilt k.struct 0
      fieldsOf p [.int (Int64.ofNat items.length), .ptr arr]
      pure (retyped p k.target)
  | v => inconsistent s!"{HostStore.typeText v} is not a list constant"

/-- Whether the entry of a key shows that it is in use. -/
def entryMarks (e : EntryLayout) (key : Datum) : Bool :=
  e.everUsed || e.valid || (match key with
    | .ptr p => !p.isNull
    | _ => false)

/-- The fields of an entry that is in use. -/
def entryFields (e : EntryLayout) (key value : Datum) (hash : Int64) : List Datum :=
  [key, value] ++ (if e.everUsed then [.bool true] else []) ++ (if e.valid then [.bool true] else [])
    ++ (if e.storedHash then [.int hash] else [])

def dictConst (step : ConstStep) (i : Nat) (v : Datum) : Typing Datum := do
  let r : Representation := .dict i
  match v with
  | .nil => nullOf r
  | .none => nullOf r
  | .nothing => nullOf r
  | .dict o => prebuiltAs r (.dict o) fun _ => do
    let k ← dictLayout i
    let (keys, values) := match (← host).object o with
      | .dict ks vs => (ks, vs)
      | _ => ([], [])
    let n := keys.length
    let size := HashTable.size n
    let arr ← mallocPrebuilt k.entries size
    let entries ← (keys.zip values).zipIdx.mapM fun ((key, value), j) => do
      let kv ← step k.key key
      let vv ← step k.value value
      pure (kv, vv, HashTable.keyHash key j)
    let slots := HashTable.place size [] (entries.map fun (kv, _, h) => (h, entryMarks k.entry kv))
    for ((kv, vv, h), slot) in entries.zip slots do
      match arr.obj with
      | some c => do
        match ((← world).prog.low.get c).items[slot]? with
        | some (Datum.container e) => updateContainer e fun b =>
            { b with fields := (entryFields k.entry kv vv h).toArray }
        | _ => pure ()
      | none => pure ()
    let p ← mallocPrebuilt k.struct 0
    fieldsOf p [.int (Int64.ofNat n), .int (Int64.ofInt ((size * 2 : Int) - n * 3)), .ptr arr]
    pure (retyped p k.target)
  | v => inconsistent s!"{HostStore.typeText v} is not a dict constant"

/-! ## Tables of classes -/

/-- The value of an attribute as a class sees it, for a field of its table. -/
def classAttrValue (step : ConstStep) (d : ClassDefId) (attr : String) (f : ReprField) : Typing Datum := do
  let w ← world
  let cls := (w.classDesc (w.classDef d).desc).cls
  match w.prog.host.classLookup? cls attr, f.repr with
  | none, r => do onLow (LowStore.defaultValue (← lowType r))
  | some (.fn fn, _), .funcPtr pointee => do
    let fd ← (Ana.descOf (.fn fn) : Typing DescId)
    match (← world).desc fd with
    | .function _ => do
      match ← graphOfFunction? fd with
      | some g => return .ptr (← callable g)
      | none => pure (.ptr (.null pointee))
    | _ => pure (.ptr (.null pointee))
  | some (v, _), r => step r v

/-- Fills one level of the table of a class. -/
def fillLevel (step : ConstStep) (d : ClassDefId) (level : Option ClassDefId) (c : ContainerId) : Typing Unit := do
  match level with
  | none => do
    let w ← world
    let k := w.classDef d
    let name ← step (.text false) (.str (w.classDesc k.desc).name)
    let ft ← addType (.func [] (.ptr (← get).rootObject))
    let fn ← helper ("ll_instantiate_" ++ k.name) ft
    updateContainer c fun o =>
      { o with fields := #[.int (Int64.ofInt k.minId), .int (Int64.ofInt k.maxId), name, .ptr fn] }
  | some _ => do
    let k ← classLayout level
    for (attr, f) in k.fields do
      let v ← classAttrValue step d attr f
      putField c k.table f.name v

/-- Fills all levels, from the class outwards in. -/
def fillLevels (step : ConstStep) (d : ClassDefId) : List (Option ClassDefId) → ContainerId → Typing Unit
  | [], _ => pure ()
  | level :: rest, c => do
    fillLevel step d level c
    fillLevels step d rest (← firstPart c)

/-- The prebuilt table of a class. -/
def classTable (step : ConstStep) (c : Option ClassDefId) : Typing PtrValue := do
  layouts.cls c
  match (← classLayout c).value, c with
  | some p, _ => pure p
  | none, none => unrepresented "the root class has no vtable instance"
  | none, some d => do
    let p ← mallocPrebuilt (← classLayout c).table 0
    modify fun t => { t with classes := t.classes.modify c fun k => { k with value := some p } }
    fillLevels step d (baseChain (← world) c) ((p.obj).getD 0)
    pure p

def rootTable : Typing NodeId := return (← classLayout none).table

/-- The table of a class as one of the root. -/
def classTableAsRoot (step : ConstStep) (c : Option ClassDefId) : Typing PtrValue := do
  let p ← classTable step c
  castTo (← rootTable) p

def classConst (step : ConstStep) (v : Datum) : Typing Datum := do
  layouts.cls none
  match v with
  | .nil => return .ptr (.null (← rootTable))
  | .nothing => return .ptr (.null (← rootTable))
  | .none => return .ptr (.null (← rootTable))
  | .cls c => do
    let d ← (Ana.uniqueClassDef c : Typing ClassDefId)
    return .ptr (← classTableAsRoot step (some d))
  | v => inconsistent s!"{HostStore.typeText v} is not a class"

/-! ## Instances -/

/-- Fills the fields of a prebuilt instance, level by level. -/
def fillInstance (step : ConstStep) (attrs : List (String × Datum)) (table : PtrValue) :
    List (Option ClassDefId) → ContainerId → Typing Unit
  | [], _ => pure ()
  | none :: _, c => do
    if ← needsTypePtr then setFieldAt c 0 (.ptr (← castTo (← rootTable) table))
  | some d :: rest, c => do
    let k ← instanceLayout (some d)
    for (attr, f) in k.fields do
      match attrs.lookup attr with
      | some v => do putField c k.struct f.name (← step f.repr v)
      | none => pure ()
    fillInstance step attrs table rest (← firstPart c)

def prebuildInstance (step : ConstStep) (d : ClassDefId) (i : InstId) : Typing Datum := do
  let r ← instanceRepr (some d)
  prebuiltAs r (.inst i) fun register => do
    let k ← instanceLayout (some d)
    let p := retyped (← mallocPrebuilt k.struct 0) k.target
    register p
    let table ← classTable step (some d)
    fillInstance step ((← host).inst i).attrs table (baseChain (← world) (some d)) ((p.obj).getD 0)
    pure p

def instanceConst (step : ConstStep) (c : Option ClassDefId) (v : Datum) : Typing Datum := do
  let r : Representation := .inst c
  match v with
  | .nil => nullOf r
  | .nothing => nullOf r
  | .none => nullOf r
  | .inst i => do
    let cls := (((← host).inst i).cls).getD 0
    let d ← (Ana.uniqueClassDef cls : Typing ClassDefId)
    match ← prebuildInstance step d i with
    | .ptr p => return .ptr (← castTo (← instanceLayout c).target p)
    | v => pure v
  | v => inconsistent s!"{HostStore.typeText v} is not an instance of {← reprText r}"

/-! ## Functions and frozen instances -/

/-- The function of a description in a row; a null pointer when it has none there. -/
def rowCallable (row : Row) (d : DescId) (ft : NodeId) : Typing PtrValue := do
  match row.lookup d with
  | some g => callable g
  | none => pure (.null ft)

def functionConst (i : Nat) (v : Datum) : Typing Datum := do
  let k ← functionsLayout i
  match k.target with
  | none => pure .nil
  | some target =>
    match v with
    | .nil => pure (.ptr (.null target))
    | .none => pure (.ptr (.null target))
    | .nothing => pure (.ptr (.null target))
    | .fn f => do
      let d ← (Ana.descOf (.fn f) : Typing DescId)
      prebuiltAs (.functions i) (.count d) fun _ => do
        match k.rows, k.types, k.struct with
        | row :: _, ft :: _, none => rowCallable row d ft
        | _, _, some s => do
          let p ← mallocPrebuilt s 0
          let vs ← (k.rows.zip k.types).mapM fun (row, ft) => do return Datum.ptr (← rowCallable row d ft)
          fieldsOf p vs
          pure p
        | _, _, none => onLow (LowStore.functionPtr target ((← host).func f).name none)
    | v => inconsistent s!"{HostStore.typeText v} is not a function"

def frozenConst (step : ConstStep) (i : Nat) (v : Datum) : Typing Datum := do
  let k ← frozenLayout i
  match k.struct with
  | none => pure .nil
  | some s =>
    match v with
    | .nil => pure (.ptr (.null s))
    | .none => pure (.ptr (.null s))
    | .inst inst => prebuiltAs (.frozen i) (.inst inst) fun register => do
      let _ ← (Ana.descOf (.inst inst) : Typing DescId)
      let p ← mallocPrebuilt s 0
      register p
      for (attr, f) in k.fields do
        match ← (Ana.frozenAttr? inst attr : Typing (Option Datum)) with
        | some raw => do
          let v ← step f.repr raw
          match p.obj with
          | some c => putField c s f.name v
          | none => pure ()
        | none => pure ()
      pure p
    | v => inconsistent s!"{HostStore.typeText v} is not a frozen instance"

def frozenMethodConst (step : ConstStep) (i : Nat) (v : Datum) : Typing Datum := do
  let self := (← frozenMethodLayout i).self
  match v with
  | .bound o => match (← host).object o with
    | .bound _ inst => step self (.inst inst)
    | _ => step self v
  | v => step self v

/-- A prebuilt weak reference; a dead one holds a null pointer. -/
def weakrefConst (step : ConstStep) (c : Option ClassDefId) (v : Datum) : Typing Datum := do
  match v with
  | .weakref o => do
    let target := match (← host).object o with
      | .weakref t => t
      | _ => none
    prebuiltAs (.weakref c) ((target.map Datum.inst).getD .nil) fun _ => do
      let p ← mallocPrebuilt (((← get).weakrefs.lookup c).getD 0) 0
      let t ← match target with
        | some i => step (.inst c) (.inst i)
        | none => nullOf (.inst c)
      fieldsOf p [t]
      pure p
  | v => inconsistent s!"{HostStore.typeText v} is not a weak reference"

/-! ## All representations -/

/-- Converts a constant, with the conversion of its parts given. -/
def constStep (step : ConstStep) (r : Representation) (v : Datum) : Typing Datum := do
  match r with
  | .impossible => pure .nil
  | .none => pure .nil
  | .builtin _ => pure .nil
  | .prim p => match p.constant? v with
    | some d => pure d
    | none => do
      inconsistent s!"{HostStore.typeText v} {(← host).text v} is not a valid {p.name} constant"
  | .text u => stringConst u v
  | .tuple i => tupleConst step i v
  | .list i => listConst step i v
  | .dict i => dictConst step i v
  | .iter _ => inconsistent "iterators cannot be prebuilt constants"
  | .inst c => instanceConst step c v
  | .cls _ => classConst step v
  | .functions i => functionConst i v
  | .methods i => inconsistent s!"bound method {(← methodsLayout i).name} cannot be a prebuilt constant"
  | .classes i => do
    let k ← classesLayout i
    if isSingle k.descs k.nullable then pure .nil else classConst step v
  | .frozen i => frozenConst step i v
  | .frozenMethod i => frozenMethodConst step i v
  | .method i => inconsistent s!"bound method {(← methodLayout i).name} cannot be a prebuilt constant"
  | .weakref c => weakrefConst step c v
  | .funcPtr pointee => match v with
    | .ptr p => pure (.ptr p)
    | _ => pure (.ptr (.null pointee))

def constAux : (fuel : Nat) → ConstStep
  | 0 => fun _ _ => throw (.plain "constants nest too deeply")
  | n + 1 => fun r v => constStep (constAux n) r v

/-- Constants nest less deeply than this. -/
def constDepth : Nat := 100000

/-- Converts a constant of the program to a value of a representation. -/
def convertConst (r : Representation) (v : Datum) : Typing Datum := constAux constDepth r v

/-- A constant of the program as an operand. -/
def inputConst (r : Representation) (v : Datum) : Typing Operand := do
  let d ← convertConst r v
  return typed d (← lowType r)

/-- The prebuilt table of a class, as a table of the root. -/
def tableConst (c : Option ClassDefId) : Typing Operand := do
  let p ← classTableAsRoot convertConst c
  return typed (.ptr p) (← tablePtr)

end Typing
end FlowCompiler
