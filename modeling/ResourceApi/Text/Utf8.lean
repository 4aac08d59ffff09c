/-!
# UTF-8

`encode` writes characters as bytes. Bytes are read one character at a time by `next`, which
either yields a character or says how many bytes form the longest start of one. `decode?`
refuses the second case; `decodeLossy` puts the replacement character in its place.
-/

namespace ResourceApi.Text.Utf8

/-- The bytes of a text. -/
def encode (cs : List Char) : List UInt8 := cs.flatMap String.utf8EncodeChar

/-- Outcome of reading at the start of a byte sequence. -/
inductive Next where
  /-- A character and the number of its bytes. -/
  | char (c : Char) (size : Nat)
  /-- No character starts here; `size` bytes are its longest well-formed beginning. -/
  | broken (size : Nat)
  deriving Repr

/-- Whether a byte can continue a character. -/
def isContinuation (b : UInt8) : Bool := 0x80 ≤ b && b ≤ 0xBF

/-- The range of the second byte that a first byte allows. The narrower ranges exclude overlong
forms, surrogates and values past U+10FFFF. -/
def secondRange (first : UInt8) : UInt8 × UInt8 :=
  if first = 0xE0 then (0xA0, 0xBF)
  else if first = 0xED then (0x80, 0x9F)
  else if first = 0xF0 then (0x90, 0xBF)
  else if first = 0xF4 then (0x80, 0x8F)
  else (0x80, 0xBF)

/-- How many bytes a character with this first byte has; `0` for a byte that starts none. -/
def sizeOf (first : UInt8) : Nat :=
  if first < 0x80 then 1
  else if first < 0xC2 then 0
  else if first < 0xE0 then 2
  else if first < 0xF0 then 3
  else if first < 0xF5 then 4
  else 0

/-- The six value bits of a continuation byte. -/
def low (b : UInt8) : Nat := b.toNat % 64

/-- Reads one character. -/
def next (first : UInt8) (rest : List UInt8) : Next :=
  let (least, most) := secondRange first
  let second (b : UInt8) : Bool := least ≤ b && b ≤ most
  match sizeOf first, rest with
  | 1, _ => .char (Char.ofNat first.toNat) 1
  | 2, b :: _ =>
    if second b then .char (Char.ofNat (first.toNat % 32 * 64 + low b)) 2 else .broken 1
  | 3, b :: c :: _ =>
    if !second b then .broken 1
    else if !isContinuation c then .broken 2
    else .char (Char.ofNat ((first.toNat % 16 * 64 + low b) * 64 + low c)) 3
  | 3, [b] => if second b then .broken 2 else .broken 1
  | 4, b :: c :: d :: _ =>
    if !second b then .broken 1
    else if !isContinuation c then .broken 2
    else if !isContinuation d then .broken 3
    else .char (Char.ofNat (((first.toNat % 8 * 64 + low b) * 64 + low c) * 64 + low d)) 4
  | 4, [b, c] =>
    if !second b then .broken 1 else if isContinuation c then .broken 3 else .broken 2
  | 4, [b] => if second b then .broken 2 else .broken 1
  | _, _ => .broken 1

/-- The text that the bytes encode, if they are well formed. -/
def decode? : List UInt8 → Option (List Char)
  | [] => some []
  | first :: rest =>
    match next first rest with
    | .char c size => (decode? (rest.drop (size - 1))).map (c :: ·)
    | .broken _ => none
  termination_by bytes => bytes.length
  decreasing_by simp only [List.length_drop, List.length_cons]; omega

/-- The text that the bytes encode, with U+FFFD for every broken beginning of a character. -/
def decodeLossy : List UInt8 → List Char
  | [] => []
  | first :: rest =>
    match next first rest with
    | .char c size => c :: decodeLossy (rest.drop (size - 1))
    | .broken size => '\uFFFD' :: decodeLossy (rest.drop (size - 1))
  termination_by bytes => bytes.length
  decreasing_by all_goals simp only [List.length_drop, List.length_cons]; omega

end ResourceApi.Text.Utf8
