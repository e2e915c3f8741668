import ChordScript.Yaml.Tag

namespace ChordScript.Yaml

inductive Token
  | declaration (d : Declaration)
  | documentStart
  | documentEnd
  | sequenceStart
  | mappingStart
  | blockEnd
  | flowSequenceStart
  | flowSequenceEnd
  | flowMappingStart
  | flowMappingEnd
  | item
  | comma
  | key
  | value
  | alias (name : Text)
  | anchor (name : Text)
  | tag (t : Tag)
  | scalar (text : Text) (style : Style)
deriving DecidableEq

/-- A place at which a key begins if a colon follows on the same line. Where nothing but a key can
stand, the colon is required. -/
structure KeyPlace where
  token : Nat
  position : Position
  required : Bool

structure Scanner where
  cursor : Cursor
  tokens : Array Token := #[]
  indent : Int := -1
  outer : List Int := []
  keyAllowed : Bool := true
  keyPlace : Option KeyPlace := none
  inner : List (Option KeyPlace) := []

namespace Scanner

def inFlow (s : Scanner) : Bool := s.inner ≠ []

def col (s : Scanner) : Int := s.cursor.col

def push (s : Scanner) (t : Token) : Scanner := { s with tokens := s.tokens.push t }

def lastKey (s : Scanner) : Option KeyPlace := s.inner.headD s.keyPlace

def setKey (s : Scanner) (k : Option KeyPlace) : Scanner :=
  match s.inner with
  | [] => { s with keyPlace := k }
  | _ :: inner => { s with inner := k :: inner }

def dropKey (s : Scanner) : Option Scanner :=
  if s.lastKey.any (·.required) then none else some (s.setKey none)

def saveKey (s : Scanner) : Option Scanner :=
  if s.keyAllowed then do
    let s ← s.dropKey
    let required := !s.inFlow && s.indent = s.col
    return s.setKey (some ⟨s.tokens.size, s.cursor.position, required⟩)
  else some s

def closeBlocks (s : Scanner) (col : Int) : Scanner :=
  if s.inFlow then s
  else
    let closed := (s.indent :: s.outer).takeWhile (col < ·)
    match (s.indent :: s.outer).drop closed.length with
    | [] => s
    | indent :: outer =>
      { s with indent, outer, tokens := s.tokens ++ closed.map fun _ => Token.blockEnd }

def openBlock (s : Scanner) (col : Int) (index : Nat) (t : Token) : Scanner :=
  if s.inFlow || col ≤ s.indent then s
  else { s with
    indent := col, outer := s.indent :: s.outer, tokens := s.tokens.insertIdxIfInBounds index t }

def skip (s : Scanner) (n : Nat) : Scanner := { s with cursor := s.cursor.skip n }

/-- White space and comments up to the next token. A line break lets a key begin, and where one may
begin a tab does not count as white space. -/
def toToken : Nat → Scanner → Scanner
  | 0, s => s
  | fuel + 1, s =>
    let s := if s.col = 0 && s.cursor.rest.head? = some '\ufeff' then s.skip 1 else s
    let tabs := s.inFlow || !s.keyAllowed
    let s := { s with cursor := s.cursor.skipWhile fun c => c = ' ' || (tabs && c = '\t') }
    let s :=
      if s.cursor.rest.head? = some '#' then
        { s with cursor := s.cursor.skipWhile (!isBreak ·) }
      else s
    if s.cursor.rest.head?.any isBreak then
      toToken fuel { s.skip 1 with keyAllowed := s.keyAllowed || !s.inFlow }
    else s

def leaveBlocks (s : Scanner) : Option Scanner := do
  let s ← (s.closeBlocks (-1)).dropKey
  return { s with keyAllowed := false }

def readDeclaration (s : Scanner) : Option Scanner := do
  let s ← s.leaveBlocks
  let (declaration, rest) ← Declaration.read s.cursor.rest.tail
  return { s.push (.declaration declaration) with cursor := s.cursor.moveTo rest }

def readMarker (s : Scanner) (t : Token) : Option Scanner := do
  let s ← s.leaveBlocks
  return (s.push t).skip 3

def openFlow (s : Scanner) (t : Token) : Option Scanner := do
  let s ← s.saveKey
  return { (s.push t).skip 1 with inner := none :: s.inner, keyAllowed := true }

def closeFlow (s : Scanner) (t : Token) : Option Scanner := do
  let s ← s.dropKey
  return { (s.push t).skip 1 with inner := s.inner.tail, keyAllowed := false }

def readComma (s : Scanner) : Option Scanner := do
  let s ← s.dropKey
  return { (s.push .comma).skip 1 with keyAllowed := true }

def readItem (s : Scanner) : Option Scanner := do
  if !s.inFlow && !s.keyAllowed then failure
  let s ← (s.openBlock s.col s.tokens.size .sequenceStart).dropKey
  return { (s.push .item).skip 1 with keyAllowed := true }

def readKey (s : Scanner) : Option Scanner := do
  if !s.inFlow && !s.keyAllowed then failure
  let s ← (s.openBlock s.col s.tokens.size .mappingStart).dropKey
  return { (s.push .key).skip 1 with keyAllowed := !s.inFlow }

/-- A key ends on the line on which it began, and within 1024 octets. -/
def reaches (s : Scanner) (k : KeyPlace) : Bool :=
  let p := s.cursor.position
  k.position.line = p.line && p.octet ≤ k.position.octet + 1024

def readValue (s : Scanner) : Option Scanner := do
  match s.lastKey.filter s.reaches with
  | some k =>
    let s := { s with tokens := s.tokens.insertIdxIfInBounds k.token .key }
    let s := (s.openBlock k.position.col k.token .mappingStart).setKey none
    return { (s.push .value).skip 1 with keyAllowed := false }
  | none =>
    let s ← s.dropKey
    if !s.inFlow && !s.keyAllowed then failure
    let s := s.openBlock s.col s.tokens.size .mappingStart
    return { (s.push .value).skip 1 with keyAllowed := !s.inFlow }

def readName (s : Scanner) (t : Text → Token) : Option Scanner := do
  let s ← s.saveKey
  let s := s.skip 1
  let name := s.cursor.rest.takeWhile isNameChar
  let next := s.cursor.rest.drop name.length
  if name = [] || !(startsBlank next || next.head?.any ("?:,]\x7d%@".toList.contains ·)) then failure
  return { (s.push (t name)).skip name.length with keyAllowed := false }

def readTag (s : Scanner) : Option Scanner := do
  let s ← s.saveKey
  let (t, rest) ← Tag.read s.cursor.rest
  if !(startsBlank rest || (s.inFlow && rest.head? = some ',')) then failure
  return { s.push (.tag t) with cursor := s.cursor.moveTo rest, keyAllowed := false }

def readBlock (s : Scanner) (fold : Bool) : Option Scanner := do
  let s ← s.dropKey
  let found ← block fold s.indent (s.cursor.skip 1)
  let style := if fold then Style.folded else .literal
  return { s.push (.scalar found.text style) with cursor := found.next, keyAllowed := true }

def readQuoted (s : Scanner) (read : Position → Text → Option Found) : Option Scanner := do
  let s ← s.saveKey
  let c := s.cursor.skip 1
  let found ← read c.position c.rest
  return { s.push (.scalar found.text .quoted) with cursor := found.next, keyAllowed := false }

def readPlain (s : Scanner) : Option Scanner := do
  let s ← s.saveKey
  let found ← plain s.inFlow (s.indent + 1) s.cursor.position {} s.cursor.rest
  return { s.push (.scalar found.text .plain) with
    cursor := found.next, keyAllowed := found.broken }

def startsPlain (flow : Bool) (c : Char) (rest : Text) : Bool :=
  !("-?:,[]\x7b\x7d#&*!|>'\"%@".toList.contains c || c = Char.ofNat 0x60 || isSpace c) ||
    (c = '-' && !(rest.head?.any isBlank)) ||
    (!flow && (c = '?' || c = ':') && !startsBlank rest)

def readToken (s : Scanner) (c : Char) (rest : Text) : Option Scanner :=
  let flow := s.inFlow
  let blank := startsBlank rest
  if s.col = 0 && c = '%' then s.readDeclaration
  else if s.col = 0 && isMarker '-' (c :: rest) then s.readMarker .documentStart
  else if s.col = 0 && isMarker '.' (c :: rest) then s.readMarker .documentEnd
  else if c = '[' then s.openFlow .flowSequenceStart
  else if c = '\x7b' then s.openFlow .flowMappingStart
  else if c = ']' then s.closeFlow .flowSequenceEnd
  else if c = '\x7d' then s.closeFlow .flowMappingEnd
  else if c = ',' then s.readComma
  else if c = '-' && blank then s.readItem
  else if c = '?' && (flow || blank) then s.readKey
  else if c = ':' && (flow || blank) then s.readValue
  else if c = '*' then s.readName .alias
  else if c = '&' then s.readName .anchor
  else if c = '!' then s.readTag
  else if c = '|' && !flow then s.readBlock false
  else if c = '>' && !flow then s.readBlock true
  else if c = '\'' then s.readQuoted fun p s => singleQuoted p {} s
  else if c = '"' then s.readQuoted fun p s => doubleQuoted p {} none s
  else if startsPlain flow c rest then s.readPlain
  else none

def scan : Nat → Scanner → Option Scanner
  | 0, _ => none
  | fuel + 1, s =>
    let s := s.toToken (s.cursor.rest.length + 1)
    let s := s.closeBlocks s.col
    match s.cursor.rest with
    | [] => s.leaveBlocks
    | c :: rest => s.readToken c rest >>= scan fuel

end Scanner

def tokens? (s : Text) : Option (List Token) := do
  let s := unifyBreaks s
  if !s.all isAllowed then failure
  let scanner ← Scanner.scan (s.length + 1) { cursor := ⟨s, {}⟩ }
  return scanner.tokens.toList

end ChordScript.Yaml
