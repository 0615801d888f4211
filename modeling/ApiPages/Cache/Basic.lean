import ApiPages.Failure
import ApiPages.Files.Disk
import ApiPages.Json.Bounded
import ApiPages.Json.Printer
import ApiPages.Json.Shape

/-!
A cache: one folder on a disk, with a JSON file for every key. A value is written beside its place and
then moved there, so that a write that is refused changes no entry. Whatever cannot be read is a miss.
-/
namespace ApiPages

structure Cache where
  folder : String
  disk : Disk := {}
  deriving Repr

namespace Cache

def entry (c : Cache) (key : String) : String := Path.join c.folder (key ++ ".json")

def draft (c : Cache) (key : String) : String := Path.withExtension (c.entry key) "json.tmp"

def read? (c : Cache) (codec : Codec α) (key : String) : Option α :=
  ((c.disk.readText? (c.entry key)).bind Json.parseBounded?).bind codec.decode

def refused (what path : String) : Failure :=
  { root := .outside "The disk refuses", contexts := [what ++ " " ++ path] }

def writeText (c : Cache) (key text : String) : Except Failure Unit × Cache :=
  match c.disk.makeFolders? c.folder with
  | none => (.error (refused "Failed to create cache directory" c.folder), c)
  | some disk =>
    match disk.write? (c.draft key) (.file (some text)) with
    | none => (.error (refused "Failed to write cache entry" (c.draft key)), { c with disk })
    | some disk =>
      match disk.move? (c.draft key) (c.entry key) with
      | none =>
        (.error (refused "Failed to move cache entry into place" (c.entry key)), { c with disk })
      | some disk => (.ok (), { c with disk })

def write (c : Cache) (codec : Codec α) (key : String) (value : α) : Except Failure Unit × Cache :=
  c.writeText key (codec.encode value).compact

def clear (c : Cache) : Except Failure Unit × Cache :=
  if c.disk.holds c.folder then
    match c.disk.removeFolder? c.folder with
    | some disk => (.ok (), { c with disk })
    | none => (.error (refused "Failed to clear cache" c.folder), c)
  else (.ok (), c)

def isEntry (name : String) : Bool := (Path.splitName name).2 == some "json"

def entries (c : Cache) : List String := ((c.disk.list? c.folder).getD []).filter isEntry

def size (c : Cache) : Nat := c.entries.length

/-- The value stored under a key, or else the one computed, which is then stored. Failures are not
stored, and a value that cannot be stored is returned all the same. -/
def memo (c : Cache) (codec : Codec α) (key : String) (compute : Except Failure α) :
    Except Failure α × Cache :=
  match c.read? codec key with
  | some value => (.ok value, c)
  | none =>
    match compute with
    | .ok value => (.ok value, (c.write codec key value).2)
    | .error f => (.error f, c)

end Cache

end ApiPages
