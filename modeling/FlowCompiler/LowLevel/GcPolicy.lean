import FlowCompiler.BuildInfo
import FlowCompiler.Host.Datum
import FlowCompiler.Text.Quoted

/-!
# Garbage-collection policies

A policy decides which header a collected container has, what the header of a prebuilt container
holds, and which facts about a type the collector needs.
-/

namespace FlowCompiler

/-- What typing knows about the finalizer of a structure. -/
structure Rtti where
  destructor : String
  light : Bool
deriving DecidableEq, Inhabited

/-- What the collector knows about a type. -/
structure GcInfo where
  typeId : Int := 0
  hasFinalizer : Bool := false
  lightFinalizer : Bool := false
  isWeakRef : Bool := false
  deallocator : String := ""
deriving DecidableEq, Inhabited

inductive GcPolicy where
  /-- Nothing is ever collected. -/
  | none
  | refcount
  /-- Types are numbered; the type pointer of instances can be left out. -/
  | framework (removeTypePtr : Bool)
deriving DecidableEq, Inhabited

namespace GcPolicy

def names : List String := ["framework", "none", "ref"]

def ofName (name : String) (removeTypePtr : Bool) : Except Failure GcPolicy :=
  if name = "none" then .ok none
  else if name = "ref" then .ok refcount
  else if name = "framework" then .ok (framework removeTypePtr)
  else
    let known := String.intercalate " " names
    .error (.plain s!"unknown gc policy {Quoted.quote name} (available: [{known}])")

def name : GcPolicy → String
  | none => "none"
  | refcount => "ref"
  | framework _ => "framework"

/-- The structure at the head of every collected container. -/
def header? : GcPolicy → Option String
  | none => Option.none
  | refcount => some "gc_refcount_hdr"
  | framework _ => some "gc_hdr"

def needNoTypePtr : GcPolicy → Bool
  | framework b => b
  | _ => false

def startup : GcPolicy → List String
  | framework _ => ["pypy_framework_gc_setup();"]
  | _ => []

def buildInfo : GcPolicy → BuildInfo
  | none => { preIncludes := ["/* using no gc */"], postIncludes := ["#define PYPY_USING_NO_GC_AT_ALL"] }
  | refcount => { preIncludes := ["/* using RefcountingGCTransformer */", "#define MALLOC_ZERO_FILLED 1"] }
  | framework _ =>
    { preIncludes := ["/* using ShadowStackFrameworkGCTransformer */", "#define MALLOC_ZERO_FILLED 1"] }

/-- The count that a prebuilt object starts with, so large that it is never freed. -/
def immortalCount : Int64 := Int64.ofInt (Nat.pow 2 62 : Nat)

/-- The facts about a structure; `typeId` is its number. -/
def structInfo (p : GcPolicy) (structName : String) (typeId : Int) (rtti : Option Rtti) : Option GcInfo :=
  match p, rtti with
  | none, _ => Option.none
  | refcount, Option.none => Option.none
  | refcount, some r =>
    some { hasFinalizer := r.destructor ≠ "", lightFinalizer := r.light, deallocator := "pypy_dealloc_" ++ structName }
  | framework _, some r =>
    if r.destructor ≠ "" then some { typeId, hasFinalizer := true, lightFinalizer := r.light } else some { typeId }
  | framework _, Option.none => some { typeId }

/-- Whether types are numbered. -/
def numbersTypes : GcPolicy → Bool
  | framework _ => true
  | _ => false

end GcPolicy
end FlowCompiler
