import ChordScript.Text.Decimal

namespace ChordScript.Yaml

inductive Style
  | plain
  | quoted
  | literal
  | folded
deriving DecidableEq

structure Position where
  line : Nat := 0
  col : Nat := 0
  octet : Nat := 0

def isBlank (c : Char) : Bool := c = ' ' || c = '\t'

def isBreak (c : Char) : Bool := c = '\n' || c = '\u2028' || c = '\u2029'

def isSpace (c : Char) : Bool := isBlank c || isBreak c

def startsBlank (s : Text) : Bool := s.head?.all isSpace

def isAllowed (c : Char) : Bool :=
  let n := c.toNat
  c = '\t' || c = '\n' || (0x20 ≤ n && n ≤ 0x7E) || (0xA0 ≤ n && n ≤ 0xFFFD) || 0x10000 ≤ n

def unifyBreaks : Text → Text
  | [] => []
  | '\r' :: '\n' :: s => '\n' :: unifyBreaks s
  | c :: s => (if c = '\r' || c = '\u0085' then '\n' else c) :: unifyBreaks s

def Position.after (p : Position) (c : Char) : Position :=
  if isBreak c then ⟨p.line + 1, 0, 0⟩ else ⟨p.line, p.col + 1, p.octet + c.utf8Size⟩

structure Cursor where
  rest : Text
  position : Position := {}

namespace Cursor

def col (c : Cursor) : Nat := c.position.col

def line (c : Cursor) : Nat := c.position.line

def skip (n : Nat) (c : Cursor) : Cursor :=
  ⟨c.rest.drop n, (c.rest.take n).foldl Position.after c.position⟩

def skipWhile (test : Char → Bool) (c : Cursor) : Cursor := c.skip (c.rest.takeWhile test).length

def moveTo (rest : Text) (c : Cursor) : Cursor := c.skip (c.rest.length - rest.length)

end Cursor

def isMarker (mark : Char) (s : Text) : Bool :=
  [mark, mark, mark].isPrefixOf s && startsBlank (s.drop 3)

def startsMarker (p : Position) (s : Text) : Bool :=
  p.col = 0 && (isMarker '-' s || isMarker '.' s)

/-- White space within a scalar. The first break of a gap is dropped if it was escaped. -/
structure Gap where
  blanks : Text := []
  broken : Bool := false
  first : Text := []
  more : Text := []

namespace Gap

def add (g : Gap) (c : Char) : Gap :=
  if isBreak c then
    if g.broken then { g with more := g.more ++ [c] } else { g with broken := true, first := [c] }
  else if g.broken then g
  else { g with blanks := g.blanks ++ [c] }

def fold (g : Gap) : Text :=
  if !g.broken then g.blanks
  else if g.first = ['\n'] then if g.more = [] then [' '] else g.more
  else g.first ++ g.more

def escaped : Gap := { broken := true }

end Gap

structure Found where
  text : Text
  next : Cursor
  broken : Bool := false

def Found.cons (t : Text) (f : Found) : Found := { f with text := t ++ f.text }

def isFlowMark (c : Char) : Bool := [',', '[', ']', '\x7b', '\x7d'].contains c

def plain (flow : Bool) (indent : Int) (p : Position) (g : Gap) : Text → Option Found
  | [] => some ⟨[], ⟨[], p⟩, g.broken⟩
  | c :: s =>
    let ended := some ⟨[], ⟨c :: s, p⟩, g.broken⟩
    let inGap := g.broken || g.blanks ≠ []
    if isSpace c then
      if c = '\t' && g.broken && p.col < indent then none
      else plain flow indent (p.after c) (g.add c) s
    else if inGap && (c = '#' || startsMarker p (c :: s) || (!flow && p.col < indent)) then ended
    else if c = ':' && flow && s.head?.any (fun c => c = '?' || isFlowMark c) then none
    else if (c = ':' && startsBlank s) || (flow && isFlowMark c) then ended
    else (plain flow indent (p.after c) {} s).map (.cons (g.fold ++ [c]))

def singleQuoted (p : Position) (g : Gap) : Text → Option Found
  | [] => none
  | '\'' :: '\'' :: s =>
    (singleQuoted ((p.after '\'').after '\'') {} s).map (.cons (g.fold ++ ['\'']))
  | '\'' :: s => some ⟨g.fold, ⟨s, p.after '\''⟩, false⟩
  | c :: s =>
    if startsMarker p (c :: s) then none
    else if isSpace c then singleQuoted (p.after c) (g.add c) s
    else (singleQuoted (p.after c) {} s).map (.cons (g.fold ++ [c]))

def escapes : List (Char × Nat) := [
  ('0', 0x00), ('a', 0x07), ('b', 0x08), ('t', 0x09), ('\t', 0x09), ('n', 0x0A), ('v', 0x0B),
  ('f', 0x0C), ('r', 0x0D), ('e', 0x1B), (' ', 0x20), ('"', 0x22), ('/', 0x2F), ('\\', 0x5C),
  ('N', 0x85), ('_', 0xA0), ('L', 0x2028), ('P', 0x2029)]

def escapeDigits : Char → Nat
  | 'x' => 2
  | 'u' => 4
  | 'U' => 8
  | _ => 0

def digitValue? (c : Char) : Option Nat :=
  if c.isDigit then some (c.toNat - 48)
  else if 'a' ≤ c && c ≤ 'f' then some (c.toNat - 87)
  else if 'A' ≤ c && c ≤ 'F' then some (c.toNat - 55)
  else none

def number? (base : Nat) (s : Text) : Option Nat :=
  if s = [] then none
  else s.foldlM (fun n c => ((digitValue? c).filter (· < base)).map (base * n + ·)) 0

def charOf? (n : Nat) : Option Char := if h : n.isValidChar then some (Char.ofNatAux n h) else none

structure Digits where
  missing : Nat
  read : Text

def doubleQuoted (p : Position) (g : Gap) (escape : Option Digits) : Text → Option Found
  | [] => none
  | c :: s =>
    let next := p.after c
    match escape with
    | some ⟨0, _⟩ =>
      match escapes.lookup c with
      | some n => do
        let found ← doubleQuoted next {} none s
        return found.cons [← charOf? n]
      | none =>
        if isBreak c then doubleQuoted next .escaped none s
        else if escapeDigits c = 0 then none
        else doubleQuoted next {} (some ⟨escapeDigits c, []⟩) s
    | some ⟨n + 1, digits⟩ =>
      let digits := digits ++ [c]
      if n = 0 then do
        let char ← number? 16 digits >>= charOf?
        let found ← doubleQuoted next {} none s
        return found.cons [char]
      else doubleQuoted next {} (some ⟨n, digits⟩) s
    | none =>
      if c = '"' then some ⟨g.fold, ⟨s, next⟩, false⟩
      else if startsMarker p (c :: s) then none
      else if isSpace c then doubleQuoted next (g.add c) none s
      else if c = '\\' then (doubleQuoted next {} (some ⟨0, []⟩) s).map (.cons g.fold)
      else (doubleQuoted next {} none s).map (.cons (g.fold ++ [c]))

inductive Chomp
  | strip
  | clip
  | keep
deriving DecidableEq

def chomp? : Char → Option Chomp
  | '-' => some .strip
  | '+' => some .keep
  | _ => none

def indentDigit? (c : Char) : Option Nat :=
  if c.isDigit && c ≠ '0' then some (c.toNat - 48) else none

def blockHeader : Text → Chomp × Option Nat × Text
  | [] => (.clip, none, [])
  | [c] =>
    match chomp? c, indentDigit? c with
    | some m, _ => (m, none, [])
    | _, some n => (.clip, some n, [])
    | _, _ => (.clip, none, [c])
  | c :: d :: s =>
    match chomp? c, indentDigit? c, chomp? d, indentDigit? d with
    | some m, _, _, some n => (m, some n, s)
    | some m, _, _, none => (m, none, d :: s)
    | none, some n, some m, _ => (m, some n, s)
    | none, some n, none, _ => (.clip, some n, d :: s)
    | none, none, _, _ => (.clip, none, c :: d :: s)

structure Breaks where
  breaks : Text
  reach : Nat
  next : Cursor

/-- Reads empty lines, and the indentation of the line after them, up to the given column. A tab in
the indentation is an error. -/
def blockBreaks (indent : Option Nat) (p : Position) (breaks : Text) (reach : Nat) :
    Text → Option Breaks
  | [] => some ⟨breaks, max reach p.col, ⟨[], p⟩⟩
  | c :: s =>
    let within := indent.all (p.col < ·)
    if within && c = ' ' then blockBreaks indent (p.after c) breaks reach s
    else if within && c = '\t' then none
    else if isBreak c then
      blockBreaks indent (p.after c) (breaks ++ [c]) (max reach p.col) s
    else some ⟨breaks, max reach p.col, ⟨c :: s, p⟩⟩

/-- The lines of a block at the given column. In a folded block, a break between two lines that
both start with no blank is folded. -/
def blockLines (fold : Bool) (chomp : Chomp) (indent : Nat) :
    Nat → (pending : Text) → (blank : Bool) → Breaks → Option Found
  | 0, _, _, _ => none
  | fuel + 1, pending, blank, b =>
    if b.next.col ≠ indent || b.next.rest = [] then
      let kept := match chomp with
        | .strip => []
        | .clip => pending
        | .keep => pending ++ b.breaks
      some ⟨kept, b.next, true⟩
    else do
      let startsBlank := b.next.rest.head?.any isBlank
      let lead :=
        if fold && pending = ['\n'] && !blank && !startsBlank then
          if b.breaks = [] then [' '] else b.breaks
        else pending ++ b.breaks
      let line := b.next.rest.takeWhile (!isBreak ·)
      let ended := b.next.skip line.length
      let after := ended.skip 1
      let breaks ← blockBreaks indent after.position [] 0 after.rest
      let found ← blockLines fold chomp indent fuel (ended.rest.take 1) startsBlank breaks
      return found.cons (lead ++ line)

def block (fold : Bool) (indent : Int) (c : Cursor) : Option Found := do
  let (chomp, step, s) := blockHeader c.rest
  let c := (c.moveTo s).skipWhile isBlank
  let c := if c.rest.head? = some '#' then c.skipWhile (!isBreak ·) else c
  if !(c.rest.head?.all isBreak) then failure
  let c := c.skip 1
  let explicit := step.map fun n => n + indent.toNat
  let breaks ← blockBreaks explicit c.position [] 0 c.rest
  let column := explicit.getD (max breaks.reach (max (indent + 1).toNat 1))
  blockLines fold chomp column (c.rest.length + 1) [] false breaks

end ChordScript.Yaml
