import ChordScript.Yaml.Token

namespace ChordScript.Yaml

structure Scalar where
  text : Text
  style : Style := .plain
  tag : Option Uri := none

inductive Node
  | scalar (s : Scalar)
  | sequence (items : List Node)
  | mapping (entries : List (Node × Node))
  | alias (number : Nat)

namespace Node

def empty : Node := scalar ⟨[], .plain, none⟩

def isEmpty : Node → Bool
  | scalar s => s.text = [] && s.style = .plain
  | _ => false

end Node

inductive Target
  | scalar (s : Scalar)
  | collection

/-- What has been read so far: what the names of anchors are numbered and what the numbers lead to,
both with the latest first, and the tokens that follow. -/
structure Reader where
  numbers : List (Text × Nat) := []
  targets : List (Nat × Target) := []
  handles : List (Text × Uri) := []
  tokens : List Token

namespace Reader

def next (r : Reader) : Reader := { r with tokens := r.tokens.tail }

/-- An anchor is numbered by how many names there are before it, so one that takes over a known name
shares its number with the next anchor. -/
def mark (r : Reader) (anchor : Option Text) (t : Target) : Reader :=
  match anchor with
  | none => r
  | some name =>
    let number := r.numbers.length
    { r with
      numbers := (name, number) :: r.numbers.filter (·.1 ≠ name)
      targets := (number, t) :: r.targets }

def head (r : Reader) : Option Token := r.tokens.head?

def atAny (r : Reader) (ts : List Token) : Bool := r.head.all ts.contains

def pass? (r : Reader) (t : Token) : Option Reader := if r.head = some t then some r.next else none

def resolve (r : Reader) (t : Tag) : Option Uri :=
  if t.handle = [] then some t.suffix
  else (r.handles.lookup t.handle).map (· ++ t.suffix)

def properties : Nat → Reader → Option Text → Option Uri →
    Option (Option Text × Option Uri × Reader)
  | 0, r, anchor, tag => some (anchor, tag, r)
  | fuel + 1, r, anchor, tag =>
    match r.head, anchor, tag with
    | some (.anchor name), none, _ => properties fuel r.next (some name) tag
    | some (.tag t), _, none => do
      properties fuel r.next anchor (some (← r.resolve t))
    | _, _, _ => some (anchor, tag, r)

mutual

/-- Reads a node. Items of a sequence need no indentation of their own as the value of a key. -/
def node : Nat → (block unindented : Bool) → Reader → Option (Node × Reader)
  | 0, _, _, _ => none
  | fuel + 1, block, unindented, r =>
    match r.head with
    | some (.alias name) => (r.numbers.lookup name).map (.alias ·, r.next)
    | _ => do
      let (anchor, tag, r) ← properties 2 r none none
      match r.head with
      | some (.scalar text style) =>
        let s := ⟨text, style, tag⟩
        return (.scalar s, r.next.mark anchor (.scalar s))
      | some .flowSequenceStart => flowItems fuel [] (r.next.mark anchor .collection)
      | some .flowMappingStart => flowEntries fuel [] (r.next.mark anchor .collection)
      | some .sequenceStart =>
        if block then items fuel true [] (r.next.mark anchor .collection) else none
      | some .mappingStart =>
        if block then entries fuel [] (r.next.mark anchor .collection) else none
      | t =>
        if t = some .item && unindented then items fuel false [] (r.mark anchor .collection)
        else if anchor.isSome || tag.isSome then
          let s := ⟨[], .plain, tag⟩
          return (.scalar s, r.mark anchor (.scalar s))
        else none

def nodeUnless : Nat → (block unindented : Bool) → List Token → Reader → Option (Node × Reader)
  | 0, _, _, _, _ => none
  | fuel + 1, block, unindented, ts, r =>
    if r.atAny ts then some (.empty, r) else node fuel block unindented r

def items : Nat → (indented : Bool) → List Node → Reader → Option (Node × Reader)
  | 0, _, _, _ => none
  | fuel + 1, indented, ns, r =>
    match r.head with
    | some .item => do
      let ends := if indented then [.item, .blockEnd] else [.item, .key, .value, .blockEnd]
      let (n, r) ← nodeUnless fuel true false ends r.next
      items fuel indented (n :: ns) r
    | t =>
      if !indented then some (.sequence ns.reverse, r)
      else if t = some .blockEnd then some (.sequence ns.reverse, r.next)
      else none

def entries : Nat → List (Node × Node) → Reader → Option (Node × Reader)
  | 0, _, _ => none
  | fuel + 1, es, r =>
    match r.head with
    | some .blockEnd => some (.mapping es.reverse, r.next)
    | some .key => do
      let (k, r) ← nodeUnless fuel true true [.key, .value, .blockEnd] r.next
      match r.pass? .value with
      | none => entries fuel ((k, .empty) :: es) r
      | some r =>
        let (v, r) ← nodeUnless fuel true true [.key, .value, .blockEnd] r
        entries fuel ((k, v) :: es) r
    | _ => none

/-- The items of a bracket after the first are preceded by commas; the last may be followed by one.
An item may be a single pair, whose key takes up the mark after it if it is left out. -/
def flowItems : Nat → List Node → Reader → Option (Node × Reader)
  | 0, _, _ => none
  | fuel + 1, ns, r => do
    if let some r := r.pass? .flowSequenceEnd then return (.sequence ns.reverse, r)
    let r ← if ns = [] then some r else r.pass? .comma
    if let some r := r.pass? .flowSequenceEnd then return (.sequence ns.reverse, r)
    match r.pass? .key with
    | some r =>
      let (k, r) ←
        if r.atAny [.value, .comma, .flowSequenceEnd] then some (.empty, r.next)
        else node fuel false false r
      match r.pass? .value with
      | none => flowItems fuel (.mapping [(k, .empty)] :: ns) r
      | some r =>
        let (v, r) ← nodeUnless fuel false false [.comma, .flowSequenceEnd] r
        flowItems fuel (.mapping [(k, v)] :: ns) r
    | none =>
      let (n, r) ← node fuel false false r
      flowItems fuel (n :: ns) r

def flowEntries : Nat → List (Node × Node) → Reader → Option (Node × Reader)
  | 0, _, _ => none
  | fuel + 1, es, r => do
    if let some r := r.pass? .flowMappingEnd then return (.mapping es.reverse, r)
    let r ← if es = [] then some r else r.pass? .comma
    if let some r := r.pass? .flowMappingEnd then return (.mapping es.reverse, r)
    match r.pass? .key with
    | some r =>
      let (k, r) ← nodeUnless fuel false false [.value, .comma, .flowMappingEnd] r
      match r.pass? .value with
      | none => flowEntries fuel ((k, .empty) :: es) r
      | some r =>
        let (v, r) ← nodeUnless fuel false false [.comma, .flowMappingEnd] r
        flowEntries fuel ((k, v) :: es) r
    | none =>
      let (k, r) ← node fuel false false r
      flowEntries fuel ((k, .empty) :: es) r

end

def declarations (versioned : Bool) (handles : List (Text × Uri)) :
    List Token → Option (List (Text × Uri) × List Token)
  | .declaration .version :: ts => if versioned then none else declarations true handles ts
  | .declaration (.tagHandle handle start) :: ts =>
    if (handles.lookup handle).isSome then none
    else declarations versioned ((handle, start) :: handles) ts
  | ts => some (handles, ts)

def defaultHandles : List (Text × Uri) :=
  [(['!'], ['!']), (['!', '!'], "tag:yaml.org,2002:".toList)]

def document? (ts : List Token) : Option (Node × Reader) := do
  let (handles, rest) ← declarations false [] ts
  let r : Reader := { handles := handles ++ defaultHandles, tokens := rest }
  let fuel := 4 * (rest.length + 1)
  let (n, r) ← match r.pass? .documentStart with
    | some r => nodeUnless fuel true false [.documentStart, .documentEnd] r
    | none => if rest.length = ts.length then node fuel true false r else none
  if r.tokens.all (· = .documentEnd) then some (n, r) else none

end Reader

/-- A document: its node, and what the aliases within it lead to. -/
structure Tree where
  root : Node
  targets : List (Nat × Target) := []

namespace Tree

/-- The scalar that a node is, or that it leads to. Of the anchors with one number the last of the
document counts, wherever the alias stands. -/
def scalar? (t : Tree) : Node → Option Scalar
  | .scalar s => some s
  | .alias number =>
    match t.targets.lookup number with
    | some (.scalar s) => some s
    | _ => none
  | _ => none

def read? (s : Text) : Option Tree := do
  let ts ← tokens? s
  if ts = [] then return ⟨.empty, []⟩
  let (n, r) ← Reader.document? ts
  return ⟨n, r.targets⟩

end Tree

end ChordScript.Yaml
