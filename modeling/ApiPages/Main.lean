import ApiPages.CommandLine.Run

/-!
The program. It takes a picture of the current folder and of the caches, carries the command line out
on it, prints what comes of it and stores what the caches gained.
-/
namespace ApiPages.Program

def routeOf (path : String) : Route :=
  (Path.parts path).filterMap fun part => match part with
    | .name text => some text
    | _ => none

def load : Nat → String → Route → Disk → IO Disk
  | 0, _, _, d => pure d
  | n + 1, path, route, d => do
    let mut d := d
    for e in ← (← IO.FS.realPath path).readDir do
      let p := route ++ [e.fileName]
      if ← e.path.isDir then
        d ← load n e.path.toString p (d.put p .folder)
      else
        try d := d.put p (.ofBytes (← IO.FS.readBinFile e.path)) catch _ => pure ()
    pure d

def above (route : Route) : List Route := (List.range route.length).map fun n => route.take (n + 1)

def picture (path : String) (d : Disk) : IO Disk := do
  let route := routeOf path
  let d := (above route).foldl (fun d p => d.put p .folder) d
  try load 64 path route d catch _ => pure d

def cacheFolder : IO (Option String) := do
  match ← IO.getEnv "JSDOC2MD_CACHE_DIR" with
  | some folder => pure (some folder)
  | none => pure ((← IO.getEnv "HOME").map (Path.join · ".cache/jsdoc2md"))

/-- What the cache in a folder gained and lost is done on the disk; a cache that cannot be stored is
passed over. -/
def storeCache (before after : Disk) (folder : String) : IO Unit := do
  let old : Cache := { folder, disk := before }
  let new : Cache := { folder, disk := after }
  try
    for name in old.entries do
      if !new.entries.contains name then IO.FS.removeFile (Path.join folder name)
    for name in new.entries do
      let path := Path.join folder name
      match after.readText? path with
      | some text =>
        if before.readText? path != some text then
          IO.FS.createDirAll folder
          IO.FS.writeFile path text
      | none => pure ()
  catch _ => pure ()

def usage : String :=
  let line (a : CommandLine.Argument) : String :=
    let short := match a.short with
      | some c => "-" ++ c.toString ++ ", "
      | none => "    "
    "  " ++ short ++ "--" ++ a.name ++ (if a.takesMany then " <VALUE>..." else
      if a.takesValue then " <VALUE>" else "")
  "Usage: jsdoc2md [OPTIONS] [FILES]...\n\nOptions:\n" ++
    "\n".intercalate (CommandLine.Argument.named.map line)

def carryOut (i : CommandLine.Invocation) : IO UInt32 := do
  let here := (← IO.currentDir).toString
  let root ← cacheFolder
  let extracted := root.map (Path.join · "explain")
  let rendered := root.map (Path.join · "render")
  let folders := extracted.toList ++ rendered.toList
  let disk ← (here :: folders).foldlM (fun d path => picture path d) { here := routeOf here }
  let service : Service := { base := here, extracted, rendered }
  let (result, _, after) := CommandLine.run service { disk } i
  for folder in folders do storeCache disk after folder
  match result with
  | .ok text =>
    IO.print text
    if i.mode = .clear ∧ ¬ i.quiet then IO.eprintln "Cache cleared"
    pure 0
  | .error f =>
    IO.eprintln ("Error: " ++ (Report.ofFailure f).text)
    pure 1

end ApiPages.Program

def main (args : List String) : IO UInt32 := do
  match ApiPages.CommandLine.read args with
  | .ok i => ApiPages.Program.carryOut i
  | .error .displayHelp => do
    IO.println ApiPages.Program.usage
    pure 0
  | .error .displayVersion => do
    IO.println ("jsdoc2md " ++ ApiPages.version)
    pure 0
  | .error _ => do
    IO.eprintln ApiPages.Program.usage
    pure 2
