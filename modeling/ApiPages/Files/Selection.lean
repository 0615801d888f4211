import ApiPages.Config.File
import ApiPages.Files.Glob
import ApiPages.Files.Regular

/-!
Which files are read: those that patterns match, or those that the rules of a configuration file
pick. Either way every file is named once.
-/
namespace ApiPages

def Path.addNew (paths more : List String) : List String :=
  more.foldl (fun found p => if found.any (Path.same p) then found else found ++ [p]) paths

namespace Selection

def ofPatterns (d : Disk) (base : String) (patterns : List String) :
    Except Problem (List String) :=
  patterns.foldlM (fun found pattern =>
    match Glob.read (Path.join base pattern) with
    | .error fault => .error (.invalidPattern pattern fault.message)
    | .ok glob => .ok (Path.addNew found (glob.files d))) []

end Selection

structure SourceRules where
  included : List String := []
  excluded : List String := []
  mustMatch : Option String := none
  mustNotMatch : Option String := none
  deriving DecidableEq, Repr

def SourceRules.codec : Codec SourceRules := Record.codecOrdered [
  .always "include" Codec.text.list (·.included) fun s v => { s with included := v },
  .always "exclude" Codec.text.list (·.excluded) fun s v => { s with excluded := v },
  .optional "includePattern" .text (·.mustMatch) fun s v => { s with mustMatch := v },
  .optional "excludePattern" .text (·.mustNotMatch) fun s v => { s with mustNotMatch := v }] {}

structure Selection where
  source : SourceRules := {}
  recurse : Bool := false
  deriving DecidableEq, Repr

namespace Selection

def searchCodec : Codec Bool :=
  Record.codecOrdered [.always "recurse" .flag id fun _ v => v] false

def codec : Codec Selection := Record.codecOrdered [
  .always "source" SourceRules.codec (·.source) fun s v => { s with source := v },
  .always "opts" searchCodec (·.recurse) fun s v => { s with recurse := v }] {}

def load (d : Disk) (path : String) : Except Failure Selection :=
  (Config.load d codec path).mapError (·.within ("Failed to load jsdoc configuration: " ++ path))

def defaultInclude (html : Bool) : String :=
  if html then ".+\\.(js(doc|x)?|html?)$" else ".+\\.js(doc|x)?$"

def defaultExclude : String := "(^|\\/|\\\\)_"

def expression (pattern : String) : Except Problem Regular :=
  match Regular.read? pattern with
  | some r => .ok r
  | none => .error (.invalidExpression pattern)

def depth (s : Selection) : Nat := if s.recurse then 10 else 1

def walk (d : Disk) : Nat → String → List String
  | 0, _ => []
  | n + 1, folder =>
    ((d.list? folder).getD []).flatMap fun name =>
      let path := Path.join folder name
      if d.isFile path then [path] else walk d n path

def candidates (s : Selection) (d : Disk) (fits : String → Bool) (root : String) :
    Except Failure (List String) :=
  if d.isFile root then .ok [root]
  else if d.holds root then .ok ((walk d s.depth root).filter fits)
  else .error { root := .outside "There is nothing to walk", contexts := ["Failed to walk " ++ root] }

def dropEqual : List String → List String
  | a :: b :: paths => if Path.same a b then dropEqual (a :: paths) else a :: dropEqual (b :: paths)
  | paths => paths

def files (s : Selection) (d : Disk) (base : String) (html : Bool) :
    Except Failure (List String) := do
  let wanted ← (expression (s.source.mustMatch.getD (defaultInclude html))).mapError Failure.ofProblem
  let barred ← (expression (s.source.mustNotMatch.getD defaultExclude)).mapError Failure.ofProblem
  let fits (path : String) := wanted.isMatch path && !barred.isMatch path
  let found ← s.source.included.mapM fun entry => s.candidates d fits (Path.join base entry)
  let excluded := s.source.excluded.map (Path.join base)
  let kept := found.flatten.filter fun path => !excluded.any (Path.isBelow path)
  pure (dropEqual (kept.mergeSort Path.le))

end Selection

end ApiPages
