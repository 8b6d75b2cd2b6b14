-- Names in the form for diagnostics: the dotted text in quotes, with all that
-- does not print escaped.
import PortalDns.Name.Dotted

namespace PortalDns

/-- The digits of a character's number, in lower-case hexadecimal. -/
def hexDigits (c : Char) : List Char := Nat.toDigits 16 c.toNat

/-- The characters of a dotted text that do not print: the two blocks of controls, the space
that does not break, and the soft hyphen. Dotted texts hold nothing above `ÿ`. -/
def isControl (c : Char) : Bool :=
  c.toNat < 0x20 || (0x7F ≤ c.toNat && c.toNat ≤ 0xA0) || c.toNat = 0xAD

/-- A character as it stands between double quotes. -/
def escape (c : Char) : List Char :=
  if c = '\x00' then ['\\', '0']
  else if c = '\t' then ['\\', 't']
  else if c = '\n' then ['\\', 'n']
  else if c = '\r' then ['\\', 'r']
  else if c = '"' then ['\\', '"']
  else if c = '\\' then ['\\', '\\']
  else if isControl c then ['\\', 'u', '\x7b'] ++ hexDigits c ++ ['\x7d']
  else [c]

def Name.toQuoted (n : Name) : String :=
  "DomainName \x7b to_dotted_string(): \"" ++ String.ofList (n.dottedChars.flatMap escape) ++
    "\" \x7d"

end PortalDns
