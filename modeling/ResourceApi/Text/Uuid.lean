/-!
# Spellings of a UUID

A UUID is written as thirty-two hexadecimal digits, or as five groups joined by hyphens; the
hyphenated form may stand in braces or after `urn:uuid:`. Case never matters. The reader only
recognises spellings: texts are kept as they were given.
-/

namespace ResourceApi.Text.Uuid

/-- A hexadecimal digit of either case. -/
def isHex (c : Char) : Bool :=
  ('0' ≤ c && c ≤ '9') || ('a' ≤ c && c ≤ 'f') || ('A' ≤ c && c ≤ 'F')

/-- Thirty-two digits. -/
def isSimple (cs : List Char) : Bool := cs.length == 32 && cs.all isHex

/-- Groups of eight, four, four, four and twelve digits with hyphens between them. -/
def isHyphenated (cs : List Char) : Bool :=
  cs.length == 36 &&
    cs.zipIdx.all fun (c, i) =>
      if i = 8 ∨ i = 13 ∨ i = 18 ∨ i = 23 then c == '-' else isHex c

/-- What marks a UUID as a name. -/
def urn : List Char := "urn:uuid:".toList

/-- Whether a text is a spelling of a UUID. -/
def isSpelling (s : String) : Bool :=
  let cs := s.toList
  isSimple cs || isHyphenated cs
    || (cs.head? == some '\x7b' && cs.getLast? == some '\x7d' && isHyphenated cs.tail.dropLast)
    || ((cs.take urn.length).map Char.toLower == urn && isHyphenated (cs.drop urn.length))

/-- The sixteen bytes as thirty-two lower case digits: the UUID a spelling stands for. -/
def digits (s : String) : List Char :=
  let cs := s.toList.map Char.toLower
  (if cs.take urn.length == urn then cs.drop urn.length else cs).filter isHex

/-- The hyphenated spelling of thirty-two digits. -/
def hyphenate (ds : List Char) : String :=
  String.ofList (['-'].intercalate
    [ds.take 8, (ds.drop 8).take 4, (ds.drop 12).take 4, (ds.drop 16).take 4, ds.drop 20])

end ResourceApi.Text.Uuid
