import FlowCompiler.Lowering.Sequence

/-!
# Dictionaries, classes and instances

Operations on dictionaries are calls of the runtime system.  An attribute of an instance is a field of the
structure of the class that introduced it, or of the table of the class; whether an object is an instance of
a class is a comparison of its number with the range of the numbers of the class and its subclasses.
-/

namespace FlowCompiler.Typing

/-! ## Dictionaries -/

def newDict (i : Nat) : Lowering := fun h => do
  if h.count ≠ 0 then unrepresented s!"newdict with {h.count} arguments"
  lowerToHelper "ll_newdict" (← lowType (.dict i)) []

def lowerDict (i : Nat) : Lowering := fun h => do
  let r : Representation := .dict i
  let length (v : Operand) : Typing Operand := emit "getfield" [v, fieldName "num_items"] .signed
  match h.name with
  | "len" => do ok (← length (← inputArg h r 0))
  | "bool" => do
    let v ← inputArg h r 0
    if (h.annot 0).canBeNone then lowerToHelper "ll_dict_is_true" .bool [v]
    else lowerTo "int_is_true" [← length v] .bool
  | "iter" => newIterator h
  | "getattr" => match h.result with
    | .method _ => do ok (← inputArg h r 0)
    | _ => pure .noMethod
  | _ => pure .noMethod

def lowerDictMethod (i : Nat) (name : String) : Lowering := fun h => do
  let r : Representation := .dict i
  let k ← dictLayout i
  let call (helper : String) (rs : List Representation) (raises : Bool) : Typing Lowered := do
    let args ← inputArgs h rs
    if raises then raisesHere
    lowerToHelper ("ll_dict_" ++ helper) (← lowType h.result) args
  match name with
  | "get" | "setdefault" => call name [r, k.key, k.value] false
  | "pop" => if h.count > 2 then call "pop_default" [r, k.key, k.value] false else call "pop" [r, k.key] true
  | "popitem" => call name [r] true
  | "keys" | "values" | "items" | "clear" | "copy" => call name [r] false
  | "update" => call name [r, h.repr 1] false
  | "iterkeys" | "itervalues" | "iteritems" => newIterator h
  | _ => pure .noMethod

def onDict (f : Nat → DictLayout → Lowering) : Lowering := fun h => do
  match h.repr 0 with
  | .dict i => do f i (← dictLayout i) h
  | _ => pure .noMethod

def lowerDictGetItem : Lowering := onDict fun i k h => do
  let args ← inputArgs h [.dict i, k.key]
  raisesHere
  let v ← callHelper "ll_dict_getitem" (← lowType k.value) args
  ok (← convertVar v k.value h.result)

def lowerDictSetItem : Lowering := onDict fun i k h => do
  let args ← inputArgs h [.dict i, k.key, k.value]
  let _ ← callHelper "ll_dict_setitem" .void args
  pure .nothing

def lowerDictDelItem : Lowering := onDict fun i k h => do
  let args ← inputArgs h [.dict i, k.key]
  raisesHere
  let _ ← callHelper "ll_dict_delitem" .void args
  pure .nothing

def lowerDictContains : Lowering := onDict fun i k h => do
  let args ← inputArgs h [.dict i, k.key]
  lowerToHelper "ll_dict_contains" .bool args

/-! ## Classes as values -/

/-- Whether a class is a subclass of a constant one. -/
def subclassTest (table : Operand) (c : Datum) : Typing Operand := do
  match c with
  | .cls k => do
    let d ← (Ana.uniqueClassDef k : Typing ClassDefId)
    let min ← emit "getfield" [table, fieldName "subclassrange_min"] .signed
    let k := (← world).classDef d
    emit "int_between" [signedConst k.minId, min, signedConst k.maxId] .bool
  | v => do unrepresented s!"{(← host).text v} is not a class"

def lowerClass (c : Option ClassDefId) : Lowering := fun h => do
  match h.name with
  | "issubtype" => do
    match ← constArg? h 1 with
    | none => unrepresented "issubtype with a non-constant class"
    | some cls => do ok (← subclassTest (← inputArg h (.cls c) 0) cls)
  | "bool" => do lowerTo "ptr_nonzero" [← inputArg h (.cls c) 0] .bool
  | _ => pure .noMethod

/-- Reads an attribute from the table of a class. -/
def classAttr (c : Option ClassDefId) (table : Operand) (attr : String) : Typing (Operand × Representation) := do
  match ← locateClassField c attr with
  | none => do
    let name := Quoted.quote attr
    unrepresented s!"{← reprText (.cls c)} has no class attribute {name}"
  | some (home, f) => do
    let v ← emit "cast_pointer" [table] (.ptr (← classLayout home).table)
    return (← emit "getfield" [v, fieldName f.name] (← lowType f.repr), f.repr)

/-! ## Instances -/

/-- The table of the class of an instance. -/
def typePtrOf (c : Option ClassDefId) (v : Operand) : Typing Operand := do
  let t ← tablePtr
  if ← needsTypePtr then
    let obj ← match c with
      | some _ => do
        let root ← instanceRepr none
        emit "cast_pointer" [v] (← lowType root)
      | none => pure v
    emit "getfield" [obj, fieldName "typeptr"] t
  else callHelper "ll_gettypeptr" t [v]

/-- Allocates an instance and gives it the table of its class. -/
def allocInstance (c : Option ClassDefId) : Typing Operand := do
  let k ← instanceLayout c
  let v ← emit "malloc" [voidConst (.type (.node k.struct))] (.ptr k.target)
  if (← needsTypePtr) && c.isSome then
    let table ← tableConst c
    let root ← instanceRepr none
    let obj ← emit "cast_pointer" [v] (← lowType root)
    emitVoid "setfield" [obj, fieldName "typeptr", table]
  pure v

/-- An instance as one of the class that has a field. -/
def asHome (c home : Option ClassDefId) (v : Operand) : Typing Operand := do
  if home = c then pure v else emit "cast_pointer" [v] (← lowType (.inst home))

def lowerGetattr (c : Option ClassDefId) : Lowering := fun h => do
  let attr ← constString h 1
  let v ← inputArg h (.inst c) 0
  if attr = "__class__" then
    let table ← typePtrOf c v
    ok (← convertVar table (← typeRepr) h.result)
  else match h.result with
    | .methods i => do ok (← convertVar v (.inst c) (.inst (← methodsLayout i).self))
    | _ => do
      match ← locateField c attr with
      | some (home, f) => do
        let obj ← asHome c home v
        let fixed := (← types).isImmutableField (← instanceLayout home).struct f.name
        let res ← emit (if fixed then "getfield_pure" else "getfield") [obj, fieldName f.name] (← lowType f.repr)
        ok (← convertVar res f.repr h.result)
      | none => do
        match ← locateClassField c attr with
        | some _ => do
          let (res, r) ← classAttr c (← typePtrOf c v) attr
          ok (← convertVar res r h.result)
        | none =>
          if h.resultAnnot.isConst then do ok (← inputConst h.result (← Ana.constOf h.resultAnnot))
          else do
            let name := Quoted.quote attr
            unrepresented s!"{← reprText (.inst c)} has no attribute {name}"

def lowerSetattr (c : Option ClassDefId) : Lowering := fun h => do
  let attr ← constString h 1
  match ← locateField c attr with
  | none => do
    let name := Quoted.quote attr
    unrepresented s!"{← reprText (.inst c)} has no instance field {name}"
  | some (home, f) => do
    let v ← inputArg h (.inst c) 0
    let value ← inputArg h f.repr 2
    let obj ← asHome c home v
    if (← types).isGCPtr (← lowType f.repr) then emitVoid "gc_writebarrier" [value, obj]
    emitVoid "setfield" [obj, fieldName f.name, value]
    pure .nothing

def lowerInstance (c : Option ClassDefId) : Lowering := fun h => do
  let self : Typing Operand := inputArg h (.inst c) 0
  match h.name with
  | "getattr" => lowerGetattr c h
  | "setattr" => lowerSetattr c h
  | "type" => do ok (← typePtrOf c (← self))
  | "bool" => do
    let v ← self
    if (h.annot 0).canBeNone then lowerTo "ptr_nonzero" [v] .bool else ok (boolConst true)
  | "hash" | "id" => do lowerToHelper "ll_identityhash" .signed [← self]
  | "str" | "repr" => do
    let v ← self
    lowerToHelper "ll_instance_str" (← lowType h.result) [v]
  | _ => pure .noMethod

/-- Whether an argument is an instance of a constant class. -/
def lowerIsinstance (c : Option ClassDefId) (i : Nat) (cls : Datum) : Lowering := fun h => do
  let v ← inputArg h (.inst c) i
  match cls with
  | .cls _ => do
    if (h.annot i).canBeNone then
      let table ← inputConst (← typeRepr) cls
      lowerToHelper "ll_isinstance" .bool [v, table]
    else ok (← subclassTest (← typePtrOf c v) cls)
  | d => do unrepresented s!"isinstance with a non-class {(← host).text d}"

def lowerInstanceEq : Lowering := fun h => do
  match h.repr 0, h.repr 1 with
  | .inst a, .inst b => do
    let w ← world
    let common : Representation ← if isSubInstance w b a then pure (.inst a)
      else if isSubInstance w a b then pure (.inst b)
      else instanceRepr none
    let args ← inputArgs h [common, common]
    lowerTo (if h.name = "ne" then "ptr_ne" else "ptr_eq") args .bool
  | _, _ => pure .noMethod

/-! ## Weak references -/

def lowerWeakref (c : Option ClassDefId) : Lowering := fun h => do
  match h.name with
  | "simple_call" => do
    let v ← inputArg h (.weakref c) 0
    cannotRaise
    let t ← lowType (.inst c)
    let res ← emit "weakref_deref" [voidConst (.type t), v] t
    ok (← convertVar res (.inst c) h.result)
  | "bool" => ok (boolConst true)
  | _ => pure .noMethod

/-! ## Tables -/

/-- Lowerings of operations whose first argument is a dictionary or an instance. -/
def objectPairs (name : String) : PairLowerings :=
  match name with
  | "getitem" => [((.dict, .object), lowerDictGetItem)]
  | "setitem" => [((.dict, .object), lowerDictSetItem)]
  | "delitem" => [((.dict, .object), lowerDictDelItem)]
  | "contains" => [((.dict, .object), lowerDictContains)]
  | "eq" | "ne" => [((.inst, .inst), lowerInstanceEq)]
  | _ => []

end FlowCompiler.Typing
