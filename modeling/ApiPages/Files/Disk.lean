import ApiPages.Files.Path

/-!
A disk: what stands at each place below the root. A path names a place from the folder that is
current, piece by piece; every piece but the last must lead through a folder. Whatever changes a
disk returns the changed one, or nothing if the change is refused.
-/
namespace ApiPages

abbrev Route := List String

inductive Item where
  /-- A file. Bytes that are no text have no content. -/
  | file (content : Option String)
  | folder
  deriving DecidableEq, Repr

def Item.ofBytes (bytes : ByteArray) : Item := .file (String.fromUTF8? bytes)

structure Disk where
  here : Route := []
  /-- What stands where. The root is a folder and is not listed. -/
  items : List (Route × Item) := []
  deriving DecidableEq, Repr

namespace Disk

def itemAt? (d : Disk) (p : Route) : Option Item := if p = [] then some .folder else d.items.lookup p

def isFolderAt (d : Disk) (p : Route) : Bool := d.itemAt? p == some .folder

def children (d : Disk) (folder : Route) : List String :=
  d.items.filterMap fun (p, _) => if p.dropLast = folder then p.getLast? else none

def put (d : Disk) (p : Route) (i : Item) : Disk :=
  { d with items := (p, i) :: d.items.filter (·.1 ≠ p) }

def cutOff (d : Disk) (p : Route) : Disk :=
  { d with items := d.items.filter fun q => !p.isPrefixOf q.1 }

theorem itemAt?_put (d : Disk) (p : Route) (i : Item) (h : p ≠ []) :
    (d.put p i).itemAt? p = some i := by
  simp [itemAt?, put, h]

theorem itemAt?_put_of_ne (d : Disk) {p q : Route} (i : Item) (h : q ≠ p) :
    (d.put p i).itemAt? q = d.itemAt? q := by
  by_cases hq : q = []
  · simp [itemAt?, hq]
  · have hb : (q == p) = false := by simpa using h
    simp only [itemAt?, put, hq, if_false, List.lookup_cons, hb]
    induction d.items with
    | nil => rfl
    | cons item items ih =>
      by_cases hr : item.1 = p
      · have hq : (q == item.1) = false := by simpa [hr] using h
        rw [List.filter_cons_of_neg (by simp [hr]), ih, List.lookup_cons, hq]
      · rw [List.filter_cons_of_pos (by simp [hr]), List.lookup_cons, List.lookup_cons, ih]

def stepTo (folder : Route) (piece : List Char) : Route :=
  if piece = [] ∨ piece = ['.'] then folder
  else if piece = ['.', '.'] then folder.dropLast
  else folder ++ [String.ofList piece]

def enter? (d : Disk) (folder : Route) (piece : List Char) : Option Route :=
  let p := stepTo folder piece
  if d.isFolderAt folder ∧ (d.itemAt? p).isSome then some p else none

def start (d : Disk) (path : String) : Route := if Path.isAbsolute path then [] else d.here

def find? (d : Disk) (path : String) : Option Route :=
  if path = "" then none
  else (Text.split '/' path.toList).foldlM d.enter? (d.start path)

def item? (d : Disk) (path : String) : Option Item := (d.find? path).bind d.itemAt?

def isFile (d : Disk) (path : String) : Bool :=
  match d.item? path with
  | some (.file _) => true
  | _ => false

def isFolder (d : Disk) (path : String) : Bool := d.item? path == some .folder

def holds (d : Disk) (path : String) : Bool := (d.find? path).isSome

def readText? (d : Disk) (path : String) : Option String :=
  match d.item? path with
  | some (.file content) => content
  | _ => none

def list? (d : Disk) (path : String) : Option (List String) :=
  (d.find? path).bind fun p => if d.isFolderAt p then some (d.children p) else none

def slot? (d : Disk) (path : String) : Option Route :=
  let pieces := Text.split '/' path.toList
  let last := pieces.getLastD []
  if last = [] ∨ last = ['.'] ∨ last = ['.', '.'] then none
  else (pieces.dropLast.foldlM d.enter? (d.start path)).bind fun folder =>
    let p := stepTo folder last
    if d.isFolderAt folder ∧ ¬ d.isFolderAt p then some p else none

def write? (d : Disk) (path : String) (content : Item) : Option Disk :=
  (d.slot? path).map fun p => d.put p content

def open? (piece : List Char) (s : Disk × Route) : Option (Disk × Route) :=
  let (d, folder) := s
  let p := stepTo folder piece
  match d.itemAt? p with
  | some .folder => some (d, p)
  | some (.file _) => none
  | none => some (d.put p .folder, p)

def makeFolders? (d : Disk) (path : String) : Option Disk :=
  ((Text.split '/' path.toList).foldlM (fun s piece => open? piece s) (d, d.start path)).map (·.1)

def removeFolder? (d : Disk) (path : String) : Option Disk :=
  (d.find? path).bind fun p => if d.isFolderAt p then some (d.cutOff p) else none

def remove? (d : Disk) (path : String) : Option Disk := (d.find? path).map d.cutOff

def move? (d : Disk) (source target : String) : Option Disk := do
  let p ← d.find? source
  let i ← d.itemAt? p
  let q ← d.slot? target
  pure ((d.cutOff p).put q i)

end Disk

end ApiPages
