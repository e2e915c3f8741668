import ChordScript.Yaml.Scalar

namespace ChordScript.Yaml

/-- The octets of a URI, each as the character with its number. -/
abbrev Uri := Text

/-- A tag with the handle that it is written with; without any, the suffix is the whole tag. -/
structure Tag where
  handle : Text
  suffix : Uri
deriving DecidableEq

inductive Declaration
  | version
  | tagHandle (handle : Text) (start : Uri)
deriving DecidableEq

def isNameChar (c : Char) : Bool := c.isAlphanum || c = '_' || c = '-'

/-- Commas and square brackets belong to a URI only where something else marks its end. -/
def isUriChar (delimited : Bool) (c : Char) : Bool :=
  isNameChar c || ";/?:@&=+$.!~*'()".toList.contains c || (delimited && ",[]".toList.contains c)

def octetCount? (n : Nat) : Option Nat :=
  if n < 0x80 then some 1
  else if n < 0xC0 then none
  else if n < 0xE0 then some 2
  else if n < 0xF0 then some 3
  else if n < 0xF8 then some 4
  else none

/-- Reads a URI as far as it goes. Escapes spell out a character octet by octet; so many octets of
one that has begun are missing. -/
def readUri (delimited : Bool) : (missing : Nat) → Text → Option (Uri × Text)
  | missing, '%' :: a :: b :: s => do
    let n ← number? 16 [a, b]
    let missing ←
      if missing = 0 then (octetCount? n).map (· - 1)
      else if 0x80 ≤ n && n < 0xC0 then some (missing - 1)
      else none
    let (uri, rest) ← readUri delimited missing s
    return (Char.ofNat n :: uri, rest)
  | _ + 1, _ => none
  | 0, [] => some ([], [])
  | 0, c :: s =>
    if c = '%' then none
    else if isUriChar delimited c then (readUri delimited 0 s).map fun (uri, rest) => (c :: uri, rest)
    else some ([], c :: s)

def untilZero (uri : Uri) : Uri := uri.takeWhile (· ≠ '\x00')

def readHandle : Text → Option (Text × Text)
  | '!' :: s =>
    let name := s.takeWhile isNameChar
    match s.drop name.length with
    | '!' :: rest => some (['!'] ++ name ++ ['!'], rest)
    | rest => if name = [] then some (['!'], rest) else none
  | _ => none

def Tag.read : Text → Option (Tag × Text)
  | '!' :: '<' :: s => do
    match ← readUri true 0 s with
    | (uri, '>' :: rest) => if uri = [] then none else some (⟨[], untilZero uri⟩, rest)
    | _ => none
  | '!' :: s =>
    match (readHandle ('!' :: s)).filter (·.1 ≠ ['!']) with
    | some (handle, rest) => do
      let (uri, rest) ← readUri false 0 rest
      if uri = [] then none else some (⟨handle, untilZero uri⟩, rest)
    | none => do
      let (uri, rest) ← readUri false 0 s
      let suffix := untilZero uri
      return (if suffix = [] then ⟨[], ['!']⟩ else ⟨['!'], suffix⟩, rest)
  | _ => none

namespace Declaration

def readNumber (s : Text) : Option (Nat × Text) :=
  let digits := s.takeWhile Char.isDigit
  if digits.length > 9 then none else (Text.natural? digits).map (·, s.drop digits.length)

def readVersion (s : Text) : Option (Declaration × Text) := do
  match ← readNumber s with
  | (1, '.' :: rest) =>
    let (minor, rest) ← readNumber rest
    if minor = 1 || minor = 2 then some (version, rest) else none
  | _ => none

def readTagHandle (s : Text) : Option (Declaration × Text) := do
  let (handle, rest) ← readHandle s
  if !(rest.head?.any isBlank) then failure
  let (uri, rest) ← readUri true 0 (rest.dropWhile isBlank)
  if uri = [] || !startsBlank rest then none else some (tagHandle handle (untilZero uri), rest)

def read (s : Text) : Option (Declaration × Text) := do
  let name := s.takeWhile isNameChar
  let value := s.drop name.length
  if !startsBlank value then failure
  let (declaration, rest) ←
    if name = "YAML".toList then readVersion (value.dropWhile isBlank)
    else if name = "TAG".toList then readTagHandle (value.dropWhile isBlank)
    else none
  let rest := rest.dropWhile isBlank
  let rest := if rest.head? = some '#' then rest.dropWhile (!isBreak ·) else rest
  if rest.head?.all isBreak then some (declaration, rest) else none

end Declaration

end ChordScript.Yaml
