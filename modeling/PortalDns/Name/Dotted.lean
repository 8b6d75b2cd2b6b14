-- Names as text: labels between dots. Reading takes the UTF-8 octets of a text,
-- printing gives each octet the character of its number, so a text comes back
-- as it was only if it is ASCII.
import PortalDns.Name.Basic
import PortalDns.Text.Dots

namespace PortalDns

/-! ## Texts and octets -/

/-- The octets of a text in UTF-8. -/
def utf8 (cs : List Char) : Octets :=
  cs.flatMap String.utf8EncodeChar

/-- The text in which each octet is the character of its number. -/
def latin1 (os : Octets) : List Char :=
  os.map fun o => Char.ofNat o.toNat

namespace Name

/-! ## Names from and to such texts -/

/-- The label that a stretch between dots stands for. No stretch stands for the empty label. -/
def labelOfChunk? (chunk : List Char) : Option Label :=
  if chunk = [] then none else Label.ofOctets? (utf8 chunk)

/-- The name that a text spells. A dot at the end may be left out, and the root is `.` or the
empty text. -/
def ofDotted? (s : String) : Option Name :=
  match dropEndDot s.toList with
  | [] => some root
  | cs => do
    let labels ← (splitDots cs).mapM labelOfChunk?
    ofLabels? (labels ++ [Label.empty])

/-- The labels that hold octets, joined by dots. -/
def dottedChars (n : Name) : List Char :=
  if n.isRoot then ['.']
  else joinDots ((n.labels.filter (! ·.isEmpty)).map (latin1 ·.octets))

def toDotted (n : Name) : String := String.ofList n.dottedChars

end Name

end PortalDns
