/-!
What can go wrong. A `Problem` is a failure of this program itself, with its cause; a `Failure` is a
problem, or a failure from outside, together with what was being done at the time; a `Report` is
what a person is told about it.
-/
namespace ApiPages

inductive Problem where
  | noInput
  | filesNotFound (patterns : List String)
  | invalidPattern (pattern reason : String)
  | invalidExpression (pattern : String)
  | badSource (file : String) (line : Nat) (reason : String)
  | badConfiguration (path reason : String)
  | template (name message : String)
  | templateText (name : String)
  | templateFile (path reason : String)
  | other (message : String)
  deriving DecidableEq, Repr

namespace Problem

def message : Problem → String
  | noInput => "Must set either files, source or configure"
  | filesNotFound patterns => "None of the input files exist: " ++ ", ".intercalate patterns
  | invalidPattern pattern reason => "Invalid file pattern '" ++ pattern ++ "': " ++ reason
  | invalidExpression pattern => "Invalid file pattern '" ++ pattern ++ "': not a regular expression"
  | badSource file line reason =>
    "Syntax error in " ++ file ++ " at line " ++ toString line ++ ": " ++ reason
  | badConfiguration path reason => "Invalid configuration file " ++ path ++ ": " ++ reason
  | template name message => "Template error in '" ++ name ++ "': " ++ message
  | templateText name => "Template error in '" ++ name ++ "': the text cannot be read"
  | templateFile path reason => "Cannot load template file " ++ path ++ ": " ++ reason
  | other message => message

def suggestion : Problem → Option String
  | noInput => some "Pass one or more files, --source <text> or --configure <conf.json>"
  | filesNotFound _ =>
    some "Check the file paths and glob patterns; quote globs so the shell does not expand them"
  | invalidPattern _ _ | invalidExpression _ =>
    some "Glob patterns support *, ** and ? wildcards and [abc] character classes"
  | badSource _ _ _ => some "Make sure every /** doc comment is closed with */"
  | badConfiguration _ _ => some "Validate the configuration file syntax and option names"
  | template _ _ | templateText _ | templateFile _ _ =>
    some "Check the template, partial and helper files passed on the command line"
  | other _ => none

end Problem

inductive Root where
  | problem (problem : Problem)
  | outside (message : String)
  deriving DecidableEq, Repr

def Root.message : Root → String
  | .problem p => p.message
  | .outside message => message

structure Failure where
  root : Root
  contexts : List String := []
  deriving DecidableEq, Repr

namespace Failure

def ofProblem (p : Problem) : Failure := { root := .problem p }

def within (context : String) (f : Failure) : Failure := { f with contexts := context :: f.contexts }

def messages (f : Failure) : List String := f.contexts ++ [f.root.message]

def outermost (f : Failure) : String := f.messages.headD ""

end Failure

structure Report where
  problem : Problem
  suggestion : Option String := none
  details : Option String := none
  deriving DecidableEq, Repr

namespace Report

/-- A problem is reported with advice and with every message that does not repeat it; a failure
from outside is reported as one text. -/
def ofFailure (f : Failure) : Report :=
  match f.root with
  | .outside _ => { problem := .other (": ".intercalate f.messages) }
  | .problem p =>
    let details := ": ".intercalate (f.messages.filter (· ≠ p.message))
    { problem := p, suggestion := p.suggestion, details := if details = "" then none else some details }

def text (r : Report) : String :=
  r.problem.message ++ (r.details.map ("\nDetails: " ++ ·)).getD "" ++
    (r.suggestion.map ("\nSuggestion: " ++ ·)).getD ""

end Report

end ApiPages
