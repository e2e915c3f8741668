namespace ChordScript

/-- A script, and anything cut out of one. -/
abbrev Text := List Char

namespace Text

def consHead (c : Char) : List Text → List Text
  | [] => [[c]]
  | p :: ps => (c :: p) :: ps

/-- A line ends at a newline, which takes one carriage return right before it along. What follows
the last newline is a line only if it is not empty, and it keeps its carriage return. -/
def lines : Text → List Text
  | [] => []
  | '\n' :: s => [] :: lines s
  | '\r' :: '\n' :: s => [] :: lines s
  | c :: s => consHead c (lines s)

/-- Blanks separate fields one by one, so two blanks in a row have an empty field between them. -/
def fields : Text → List Text
  | [] => [[]]
  | ' ' :: s => [] :: fields s
  | c :: s => consHead c (fields s)

def joinFields (fs : List Text) : Text := [' '].intercalate fs

end Text

end ChordScript
