import ChordScript.Text.Hidden

namespace ChordScript.Text

def hexadecimal (n : Nat) : Text := Nat.toDigits 16 n

def escaped (c : Char) : Text :=
  match c with
  | '\x00' => ['\\', '0']
  | '\t' => ['\\', 't']
  | '\r' => ['\\', 'r']
  | '\n' => ['\\', 'n']
  | '\\' => ['\\', '\\']
  | '"' => ['\\', '"']
  | c => if isHidden c then ['\\', 'u', '\x7b'] ++ hexadecimal c.toNat ++ ['\x7d'] else [c]

def quoted (s : Text) : Text := ['"'] ++ s.flatMap escaped ++ ['"']

def quotedList (ss : List Text) : Text := ['['] ++ [',', ' '].intercalate (ss.map quoted) ++ [']']

end ChordScript.Text
