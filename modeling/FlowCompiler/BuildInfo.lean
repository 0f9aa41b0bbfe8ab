/-!
# What generated code needs from outside

Headers, search paths, extra sources, libraries and flags.  Each component states its own needs, and
they are merged before output, keeping the order of first mention and dropping repetitions.
-/

namespace FlowCompiler

structure BuildInfo where
  preIncludes : List String := []
  includes : List String := []
  includeDirs : List String := []
  postIncludes : List String := []
  sources : List String := []
  libraries : List String := []
  libraryDirs : List String := []
  linkFlags : List String := []
  compileFlags : List String := []
deriving DecidableEq, Inhabited

namespace BuildInfo

/-- Every field with its name in a summary, in order. -/
def entries (b : BuildInfo) : List (String × List String) :=
  [ ("pre_include_bits", b.preIncludes), ("includes", b.includes), ("include_dirs", b.includeDirs),
    ("post_include_bits", b.postIncludes), ("separate_sources", b.sources), ("libraries", b.libraries),
    ("library_dirs", b.libraryDirs), ("link_flags", b.linkFlags), ("compile_flags", b.compileFlags) ]

/-- The texts of a list, each at its first place only. -/
def distinct (xs : List String) : List String :=
  xs.foldl (fun acc x => if acc.contains x then acc else acc ++ [x]) []

def merge (infos : List BuildInfo) : BuildInfo :=
  let pick (get : BuildInfo → List String) : List String := distinct (infos.flatMap get)
  { preIncludes := pick preIncludes, includes := pick includes, includeDirs := pick includeDirs,
    postIncludes := pick postIncludes, sources := pick sources, libraries := pick libraries,
    libraryDirs := pick libraryDirs, linkFlags := pick linkFlags, compileFlags := pick compileFlags }

def isEmpty (b : BuildInfo) : Bool := b.entries.all fun e => e.2.isEmpty

/-- The head of a generated file. -/
def header (b : BuildInfo) : String :=
  let inc (i : String) : String := if i.startsWith "<" then s!"#include {i}\n" else s!"#include \"{i}\"\n"
  String.join (b.preIncludes.map (· ++ "\n") ++ b.includes.map inc ++ b.postIncludes.map (· ++ "\n"))

/-- Arguments of the linker: directories, libraries, flags. -/
def linkArgs (b : BuildInfo) : List String :=
  b.libraryDirs.map ("-L" ++ ·) ++ b.libraries.map ("-l" ++ ·) ++ b.linkFlags

end BuildInfo
end FlowCompiler
