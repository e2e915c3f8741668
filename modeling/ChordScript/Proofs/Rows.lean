import ChordScript.Yaml.Token
import ChordScript.Proofs.Words

namespace ChordScript.Yaml

inductive Row
  | comment (indent : Nat) (text : Text)
  | entry (key value : Text)

namespace Row

def text : Row → Text
  | comment indent text => List.replicate indent ' ' ++ '#' :: text
  | entry key value => key ++ ':' :: ' ' :: value

def entry? : Row → Option (Text × Text)
  | comment .. => none
  | entry key value => some (key, value)

/-- The colon behind a key stands within 1024 octets. -/
inductive Proper : Row → Prop
  | comment {indent : Nat} {text : Text} (h : ∀ c ∈ text, isAllowed c = true ∧ isBreak c = false) :
      Proper (comment indent text)
  | entry {key value : Text} (hkey : Word key) (hlength : key.length ≤ 1024) (hvalue : Word value) :
      Proper (entry key value)

end Row

def hasBreak (ended : Bool) (rows : List Row) : Bool := ended || !rows.isEmpty

def lineEnd (broken : Bool) : Text := if broken then ['\n'] else []

def written (ended : Bool) : List Row → Text
  | [] => []
  | row :: rows => row.text ++ (lineEnd (hasBreak ended rows) ++ written ended rows)

/-- A place at which rows follow. -/
structure At (ended : Bool) (rows : List Row) (c : Cursor) : Prop where
  rest : c.rest = written ended rows
  proper : ∀ row ∈ rows, row.Proper
  col : ∀ row ∈ rows.head?, row.entry? ≠ none → c.col = 0

variable {ended : Bool} {rows : List Row} {es : List (Text × Text)} {k v s : Text} {p : Position}

theorem At.nil (ended : Bool) (p : Position) : At ended [] ⟨[], p⟩ := ⟨rfl, nofun, nofun⟩

namespace Scanner

variable {t : Scanner} {c : Char} {fuel : Nat}

end Scanner

theorem Row.Proper.isAllowed {row : Row} (h : row.Proper) : ∀ c ∈ row.text, isAllowed c = true := by
  intro c hc
  cases h with
  | comment htext =>
      rcases List.mem_append.mp hc with hc | hc
      · cases List.eq_of_mem_replicate hc
        rfl
      · rcases List.mem_cons.mp hc with rfl | hc
        · rfl
        · exact (htext c hc).1
  | entry hkey hlength hvalue =>
      rcases List.mem_append.mp hc with hc | hc
      · exact isAllowed_of_isWordChar (hkey.chars c hc)
      · rcases List.mem_cons.mp hc with rfl | hc
        · rfl
        · rcases List.mem_cons.mp hc with rfl | hc
          · rfl
          · exact isAllowed_of_isWordChar (hvalue.chars c hc)

end ChordScript.Yaml
