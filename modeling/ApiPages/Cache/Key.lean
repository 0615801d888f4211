import ApiPages.Cache.Digest

/-!
Keys. What a result depends on is a list of parts; each part is framed by its length, so that the
framed text belongs to one list only, and the frame is digested.
-/
namespace ApiPages.Key

def littleEndian : Nat → Nat → List UInt8
  | 0, _ => []
  | n + 1, value => UInt8.ofNat value :: littleEndian n (value / 256)

theorem littleEndian_length (n value : Nat) : (littleEndian n value).length = n := by
  induction n generalizing value with
  | zero => rfl
  | succ n ih => simp [littleEndian, ih]

def frame (part : List UInt8) : List UInt8 := littleEndian 8 part.length ++ part

theorem frame_length (part : List UInt8) : (frame part).length = 8 + part.length := by
  simp [frame, littleEndian_length]

def framed (parts : List (List UInt8)) : List UInt8 := parts.flatMap frame

def bytes (text : String) : List UInt8 := text.toUTF8.data.toList

def ofParts (parts : List String) : String := Digest.hex (Digest.sha256 (framed (parts.map bytes)))

end ApiPages.Key
