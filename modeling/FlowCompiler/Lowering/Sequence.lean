import FlowCompiler.Lowering.Number

/-!
# Tuples, strings, lists and iterators

A tuple is an immutable structure, a string a structure with its hash and its characters, a list that is
resized a structure with its length and an array that may be longer, any other list an array.  Reading at an
index that is known not to be negative reads the array; other reads call the runtime system.
-/

namespace FlowCompiler.Typing

/-! ## Iterators -/

/-- A new iterator over the first argument. -/
def newIterator : Lowering := fun h => do
  match h.result with
  | .iter i => do
    let k ← iterLayout i
    let t ← lowType (.iter i)
    let v ← inputArg h k.container 0
    let it ← emit "malloc" [voidConst (.type (.node k.struct))] t
    emitVoid "setfield" [it, fieldName "iterable", v]
    emitVoid "setfield" [it, fieldName "index", signedConst 0]
    ok it
  | _ => pure .noMethod

/-- The function of the runtime system that advances an iterator. -/
def nextHelper : Annot → String
  | .iter (.list _) _ => "ll_listnext"
  | .iter (.str _ _ _) _ => "ll_strnext"
  | .iter (.unicode _ _ _) _ => "ll_unicodenext"
  | .iter (.tuple _ _ _) _ => "ll_tuplenext"
  | .iter (.dict _) variant => "ll_dictnext_" ++ if variant = "" then "keys" else variant
  | _ => "ll_next"

def lowerIter (i : Nat) : Lowering := fun h => do
  match h.name with
  | "iter" => do ok (← inputArg h (.iter i) 0)
  | "next" => do
    let v ← inputArg h (.iter i) 0
    raisesHere
    lowerToHelper (nextHelper (← iterLayout i).annot) (← lowType h.result) [v]
  | _ => pure .noMethod

/-! ## Tuples -/

/-- Allocates a tuple and fills it. -/
def buildTuple (i : Nat) (items : List Operand) : Typing Operand := do
  let k ← tupleLayout i
  let v ← emit "malloc" [voidConst (.type (.node k.struct))] (.ptr k.struct)
  for (item, j) in items.zipIdx do
    emitVoid "setfield" [v, fieldName (tupleField j), item]
  pure v

def newTuple (i : Nat) : Lowering := fun h => do
  let k ← tupleLayout i
  let items ← inputArgs h k.items
  ok (← buildTuple i items)

/-- Reads an item of a tuple. -/
def tupleItem (i : Nat) (v : Operand) (j : Nat) : Typing (Operand × Representation) := do
  let r := ((← tupleLayout i).items[j]?).getD .impossible
  return (← emit "getfield" [v, fieldName (tupleField j)] (← lowType r), r)

def lowerTuple (i : Nat) : Lowering := fun h => do
  let n := (← tupleLayout i).items.length
  match h.name with
  | "len" => ok (signedConst n)
  | "bool" => ok (boolConst (n > 0))
  | "hash" => do lowerToHelper "ll_tuplehash" .signed [← inputArg h (.tuple i) 0]
  | _ => pure .noMethod

/-- Only constant indices are lowered, since items may differ in type. -/
def lowerTupleGetItem : Lowering := fun h => do
  match h.repr 0 with
  | .tuple i => do
    let n := (← tupleLayout i).items.length
    match ← constArg? h 1 with
    | none => unrepresented "tuple index must be a constant"
    | some c => do
      match integerConst true c with
      | some (.int k) => do
        let j := if k.toInt < 0 then k.toInt + n else k.toInt
        if j < 0 || j ≥ n then unrepresented s!"tuple index {j} out of range"
        let v ← inputArg h (.tuple i) 0
        if h.name = "getitem_idx" then cannotRaise
        let (item, r) ← tupleItem i v j.toNat
        ok (← convertVar item r h.result)
      | _ => do unrepresented s!"tuple index {(← host).text c} is not an integer"
  | _ => pure .noMethod

/-- The items of a tuple, converted to given representations. -/
def tupleItemsAs (i : Nat) (v : Operand) (targets : List Representation) : Typing (List Operand) :=
  targets.zipIdx.mapM fun (dst, j) => do
    let (x, r) ← tupleItem i v j
    convertVar x r dst

def lowerTupleAdd : Lowering := fun h => do
  match h.repr 0, h.repr 1, h.result with
  | .tuple a, .tuple b, .tuple c => do
    let v0 ← inputArg h (.tuple a) 0
    let v1 ← inputArg h (.tuple b) 1
    let items := (← tupleLayout c).items
    let n := (← tupleLayout a).items.length
    let xs ← tupleItemsAs a v0 (items.take n)
    let ys ← tupleItemsAs b v1 ((items.drop n).take (← tupleLayout b).items.length)
    ok (← buildTuple c (xs ++ ys))
  | _, _, _ => pure .noMethod

def lowerTupleEq : Lowering := fun h => do
  let args ← inputArgs h [h.repr 0, h.repr 0]
  negatedIf (h.name = "ne") (← callHelper "ll_tuple_eq" .bool args)

/-! ## Strings -/

def lowerText (u : Bool) : Lowering := fun h => do
  let r : Representation := .text u
  let helper := textHelper u
  let length (v : Operand) : Typing Operand := emit "getinteriorarraysize" [v, fieldName "chars"] .signed
  match h.name with
  | "len" => do ok (← length (← inputArg h r 0))
  | "bool" => do
    let v ← inputArg h r 0
    if (h.annot 0).canBeNone then lowerToHelper (helper ++ "_is_true") .bool [v]
    else lowerTo "int_is_true" [← length v] .bool
  | "hash" => do lowerToHelper (helper ++ "hash") .signed [← inputArg h r 0]
  | "str" | "unicode" =>
    if h.result = r then do ok (← inputArg h r 0)
    else match h.result with
      | .text w => do
        let v ← inputArg h r 0
        lowerToHelper (if w then "ll_str2unicode" else "ll_unicode2str") (← lowType h.result) [v]
      | _ => pure .noMethod
  | "repr" => do
    let v ← inputArg h r 0
    lowerToHelper (helper ++ "_repr") (← lowType h.result) [v]
  | "int" => do
    let v ← inputArg h r 0
    raisesHere
    lowerToHelper (helper ++ "_int") .signed [v]
  | "float" => do
    let v ← inputArg h r 0
    raisesHere
    lowerToHelper (helper ++ "_float") .float [v]
  | "iter" => newIterator h
  | "getattr" => match h.result with
    | .method _ => do ok (← inputArg h r 0)
    | _ => pure .noMethod
  | _ => pure .noMethod

/-- A method of strings; characters and strings among the arguments are passed as strings. -/
def lowerTextMethod (u : Bool) (name : String) : Lowering := fun h => do
  let r : Representation := .text u
  let self ← inputArg h r 0
  let rest ← (h.reprs.drop 1).zipIdx.mapM fun (q, i) =>
    let asText := q = .char || q = .unichar || q = .text true || q = .text false
    inputArg h (if asText then r else q) (i + 1)
  if name = "encode" || name = "decode" then raisesHere
  lowerToHelper (textHelper u ++ "_" ++ name) (← lowType h.result) (self :: rest)

/-- Operations on a character; those of strings apply to it as a string of one character. -/
def lowerChar (wide : Bool) : Lowering := fun h => do
  let r : Representation := if wide then .unichar else .char
  match h.name with
  | "ord" | "int" | "hash" => do
    let v ← inputArg h r 0
    lowerTo (if wide then "cast_unichar_to_int" else "cast_char_to_int") [v] .signed
  | "bool" => ok (boolConst true)
  | "len" => ok (signedConst 1)
  | "str" | "unicode" =>
    match h.result with
    | .text u => do
      match ← convertToText u (h.arg 0) (h.repr 0) with
      | some v => ok v
      | none => pure .noMethod
    | _ => pure .noMethod
  | _ => do
    match ← convertToText wide (h.arg 0) r with
    | some v => lowerText wide { h with args := v :: h.args.drop 1, reprs := .text wide :: h.reprs.drop 1 }
    | none => pure .noMethod

/-- Whether two arguments meet as unicode strings. -/
def meetAsUnicode (h : HighOp) : Bool :=
  (h.annots.take 2).any fun a => a.kind = .unicode || a.kind = .unichar

def lowerTextConcat : Lowering := fun h => do
  let u := meetAsUnicode h
  let args ← inputArgs h [.text u, .text u]
  lowerToHelper (textHelper u ++ "concat") (← lowType (.text u)) args

def lowerTextEq : Lowering := fun h => do
  if (h.repr 0 = .char && h.repr 1 = .char) || (h.repr 0 = .unichar && h.repr 1 = .unichar) then lowerCharCompare h
  else
    let u := meetAsUnicode h
    let args ← inputArgs h [.text u, .text u]
    negatedIf (h.name = "ne") (← callHelper (textHelper u ++ "eq") .bool args)

def lowerTextCompare : Lowering := fun h => do
  let u := meetAsUnicode h
  let args ← inputArgs h [.text u, .text u]
  let c ← callHelper (textHelper u ++ "cmp") .signed args
  lowerTo ("int_" ++ h.name) [c, signedConst 0] .bool

def lowerTextContains : Lowering := fun h => do
  let u := meetAsUnicode h
  let s ← inputArg h (.text u) 0
  let char : Representation := if u then .unichar else .char
  if h.repr 1 = char then
    let c ← inputArg h char 1
    lowerToHelper (textHelper u ++ "_contains_char") .bool [s, c]
  else
    let sub ← inputArg h (.text u) 1
    lowerToHelper (textHelper u ++ "_contains") .bool [s, sub]

/-- Whether an index out of range is an exception that somebody handles. -/
def indexChecked (h : HighOp) : Typing Bool := do
  if h.name = "getitem_idx" then pure true else catches h "IndexError"

def lowerTextGetItem : Lowering := fun h => do
  match h.repr 0 with
  | .text u => do
    let s ← inputArg h (.text u) 0
    let i ← inputArg h .signed 1
    let char : LowType := if u then .unichar else .char
    if ← indexChecked h then
      raisesHere
      lowerToHelper (textHelper u ++ "item_checked") char [s, i]
    else if isNonneg (h.annot 1) then lowerTo "getinteriorfield" [s, fieldName "chars", i] char
    else lowerToHelper (textHelper u ++ "item") char [s, i]
  | _ => pure .noMethod

def lowerTextMul : Lowering := fun h => do
  match h.repr 0 with
  | .text u => do
    let args ← inputArgs h [.text u, .signed]
    lowerToHelper (textHelper u ++ "_mul") (← lowType (.text u)) args
  | _ => pure .noMethod

/-- Formatting; the items of a tuple are passed one by one. -/
def lowerTextFormat : Lowering := fun h => do
  match h.repr 0 with
  | .text u => do
    let f ← inputArg h (.text u) 0
    let rest ← match h.repr 1 with
      | .tuple i => do
        let t ← inputArg h (.tuple i) 1
        let n := (← tupleLayout i).items.length
        (List.range n).mapM fun j => do return (← tupleItem i t j).1
      | r => do pure [← inputArg h r 1]
    lowerToHelper (textHelper u ++ "_format") (← lowType (.text u)) (f :: rest)
  | _ => pure .noMethod

/-! ## Lists -/

/-- The array that holds the items of a list. -/
def listItems (k : ListLayout) (v : Operand) : Typing Operand :=
  if k.fixed then pure v else emit "getfield" [v, fieldName "items"] (.ptr k.array)

def listLength (k : ListLayout) (v : Operand) : Typing Operand :=
  if k.fixed then emit "getarraysize" [v] .signed else emit "getfield" [v, fieldName "length"] .signed

def newList (i : Nat) : Lowering := fun h => do
  let k ← listLayout i
  let t ← lowType (.list i)
  let n := signedConst h.count
  let l ← if k.fixed then emit "malloc_varsize" [voidConst (.type (.node k.array)), n] t
    else callHelper "ll_newlist" t [n]
  let items ← listItems k l
  for j in List.range h.count do
    let v ← inputArg h (k.item.getD .impossible) j
    emitVoid "setarrayitem" [items, signedConst j, v]
  ok l

/-- The bounds of a slice; a bound that is not given is the start, or minus one for the end. -/
def sliceBounds (h : HighOp) : Typing (Operand × Operand) := do
  let bound (i : Nat) (dflt : Int) : Typing Operand := do
    if (← lowType (h.repr i)) = .void then pure (signedConst dflt) else inputArg h .signed i
  let start ← bound 1 0
  let stop ← bound 2 (-1)
  pure (start, stop)

def lowerList (i : Nat) : Lowering := fun h => do
  let r : Representation := .list i
  let k ← listLayout i
  match h.name with
  | "len" => do ok (← listLength k (← inputArg h r 0))
  | "bool" => do
    let v ← inputArg h r 0
    if (h.annot 0).canBeNone then lowerToHelper "ll_list_is_true" .bool [v]
    else lowerTo "int_is_true" [← listLength k v] .bool
  | "iter" => newIterator h
  | "getattr" => match h.result with
    | .method _ => do ok (← inputArg h r 0)
    | _ => pure .noMethod
  | "getslice" => do
    let v ← inputArg h r 0
    let (start, stop) ← sliceBounds h
    lowerToHelper "ll_listslice" (← lowType h.result) [v, start, stop]
  | "setslice" => do
    let v ← inputArg h r 0
    let (start, stop) ← sliceBounds h
    let other ← ownArg h 3
    let _ ← callHelper "ll_listsetslice" .void [v, start, stop, other]
    pure .nothing
  | _ => pure .noMethod

def lowerListMethod (i : Nat) (name : String) : Lowering := fun h => do
  let k ← listLayout i
  let item : Representation := k.item.getD .impossible
  let self ← inputArg h (.list i) 0
  let result ← lowType h.result
  match name with
  | "append" => do
    if k.fixed then unrepresented "append on a fixed-size list"
    lowerToHelper "ll_append" result [self, ← inputArg h item 1]
  | "extend" => do lowerToHelper "ll_extend" result [self, ← ownArg h 1]
  | "insert" => do
    let at' ← inputArg h .signed 1
    lowerToHelper "ll_insert" result [self, at', ← inputArg h item 2]
  | "pop" =>
    if h.count > 1 then do
      let at' ← inputArg h .signed 1
      raisesHere
      lowerToHelper "ll_pop" result [self, at']
    else do
      raisesHere
      lowerToHelper "ll_pop_default" result [self]
  | "reverse" => lowerToHelper "ll_reverse" result [self]
  | "sort" => lowerToHelper "ll_listsort" result [self]
  | "remove" | "index" => do
    let v ← inputArg h item 1
    raisesHere
    lowerToHelper ("ll_list" ++ name) result [self, v]
  | "count" => do lowerToHelper "ll_listcount" result [self, ← inputArg h item 1]
  | _ => pure .noMethod

/-- A lowering for lists only. -/
def onList (f : Nat → ListLayout → Lowering) : Lowering := fun h => do
  match h.repr 0 with
  | .list i => do f i (← listLayout i) h
  | _ => pure .noMethod

def lowerListGetItem : Lowering := onList fun i k h => do
  let item : Representation := k.item.getD .impossible
  let l ← inputArg h (.list i) 0
  let j ← inputArg h .signed 1
  let t ← lowType item
  let v ← if ← indexChecked h then do
      raisesHere
      callHelper "ll_getitem_checked" t [l, j]
    else if isNonneg (h.annot 1) then do emit "getarrayitem" [← listItems k l, j] t
    else callHelper "ll_getitem" t [l, j]
  ok (← convertVar v item h.result)

def lowerListSetItem : Lowering := onList fun i k h => do
  let l ← inputArg h (.list i) 0
  let j ← inputArg h .signed 1
  let v ← inputArg h (k.item.getD .impossible) 2
  if ← indexChecked h then
    raisesHere
    let _ ← callHelper "ll_setitem_checked" .void [l, j, v]
  else if isNonneg (h.annot 1) then emitVoid "setarrayitem" [← listItems k l, j, v]
  else
    let _ ← callHelper "ll_setitem" .void [l, j, v]
  pure .nothing

def lowerListDelItem : Lowering := onList fun i _ h => do
  let args ← inputArgs h [.list i, .signed]
  if ← indexChecked h then raisesHere
  let _ ← callHelper "ll_delitem" .void args
  pure .nothing

def lowerListMul : Lowering := onList fun i _ h => do
  let args ← inputArgs h [.list i, .signed]
  lowerToHelper "ll_mul" (← lowType h.result) args

def lowerListConcat : Lowering := onList fun i _ h => do
  let args ← inputArgs h [.list i, h.repr 1]
  lowerToHelper "ll_concat" (← lowType h.result) args

def lowerListEq : Lowering := onList fun i _ h => do
  let args ← inputArgs h [.list i, h.repr 1]
  negatedIf (h.name = "ne") (← callHelper "ll_listeq" .bool args)

def lowerListContains : Lowering := onList fun i k h => do
  let args ← inputArgs h [.list i, k.item.getD .impossible]
  lowerToHelper "ll_listcontains" .bool args

/-! ## Tables -/

/-- Lowerings of operations whose first argument is a sequence. -/
def sequencePairs (name : String) : PairLowerings :=
  let both (k : Kind) (f : Lowering) : PairLowerings := [((k, k), f)]
  let texts (f : Lowering) : PairLowerings := both .string f ++ both .unicode f
  let indexed (k : Kind) (f : Lowering) : PairLowerings := [((k, .integer), f)]
  let anyOf (k : Kind) (f : Lowering) : PairLowerings := [((k, .object), f)]
  match name with
  | "add" => texts lowerTextConcat ++ both .tuple lowerTupleAdd ++ both .list lowerListConcat
  | "eq" | "ne" => texts lowerTextEq ++ both .tuple lowerTupleEq ++ both .list lowerListEq
  | "lt" | "le" | "gt" | "ge" => texts lowerTextCompare
  | "contains" => texts lowerTextContains ++ anyOf .list lowerListContains
  | "getitem" | "getitem_idx" =>
    indexed .string lowerTextGetItem ++ indexed .unicode lowerTextGetItem
      ++ indexed .tuple lowerTupleGetItem ++ indexed .list lowerListGetItem
  | "setitem" => indexed .list lowerListSetItem
  | "delitem" => indexed .list lowerListDelItem
  | "mul" => indexed .string lowerTextMul ++ indexed .unicode lowerTextMul ++ indexed .list lowerListMul
  | "mod" => anyOf .string lowerTextFormat ++ anyOf .unicode lowerTextFormat
  | _ => []

end FlowCompiler.Typing
