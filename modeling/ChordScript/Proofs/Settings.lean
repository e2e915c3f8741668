import ChordScript.Proofs.Decimal
import ChordScript.Proofs.Mappings
import ChordScript.Yaml.Library

namespace ChordScript

namespace Yaml

/-- A line of a mapping: a comment, or a name with its number in decimal. -/
inductive SettingLine
  | comment (indent : Nat) (text : Text)
  | entry (name : Text) (value : UInt64)

def SettingLine.row : SettingLine → Row
  | comment indent text => .comment indent text
  | entry name value => .entry name (Text.decimal value.toNat)

def SettingLine.stated? : SettingLine → Option (Text × UInt64)
  | comment .. => none
  | entry name value => some (name, value)

def stated (lines : List SettingLine) : List (Text × UInt64) := lines.filterMap SettingLine.stated?

def text (ended : Bool) (lines : List SettingLine) : Text := written ended (lines.map SettingLine.row)

/-- Comments end with their lines, names are words, and none comes twice. -/
structure Proper (lines : List SettingLine) : Prop where
  comments : ∀ indent text, .comment indent text ∈ lines →
    ∀ c ∈ text, isAllowed c = true ∧ isBreak c = false
  names : ∀ e ∈ stated lines, Word e.1 ∧ e.1.length ≤ 1024
  once : ((stated lines).map Prod.fst).Nodup
  nonempty : stated lines ≠ []

end Yaml

namespace YamlLibrary

variable (y : YamlLibrary)

/-- Mappings of numbers in decimal are read entry by entry. -/
def Reads : Prop := ∀ (lines : List Yaml.SettingLine) (ended : Bool), Yaml.Proper lines →
  y.read? (Yaml.text ended lines) = some ((Yaml.stated lines).map fun e => (e.1, some e.2))

end YamlLibrary

namespace Yaml

theorem isWordChar_of_isDigit {c : Char} (h : c.isDigit = true) : isWordChar c = true := by
  have hdigit : '0' ≤ c ∧ c ≤ '9' := by simpa [Char.isDigit, Char.le_def] using h
  simp [isWordChar, hdigit]

theorem word_decimal (n : Nat) : Word (Text.decimal n) :=
  ⟨Nat.toDigits_ne_nil, fun _ hc => isWordChar_of_isDigit (Text.isDigit_of_mem_decimal hc)⟩

variable {lines : List SettingLine}

theorem Proper.row (h : Proper lines) : ∀ row ∈ lines.map SettingLine.row, row.Proper := by
  rintro _ hrow
  obtain ⟨line, hline, rfl⟩ := List.mem_map.mp hrow
  cases line with
  | comment indent text => exact .comment (h.comments indent text hline)
  | entry name value =>
      obtain ⟨hword, hlength⟩ := h.names (name, value) (List.mem_filterMap.mpr ⟨_, hline, rfl⟩)
      exact .entry hword hlength (word_decimal _)

end Yaml

namespace Setting

end Setting

namespace Config

open Yaml

variable {y : YamlLibrary}

def entries (c : Config) : List (Text × UInt64) := Setting.all.map fun s => (s.key, s.get c)

end Config

end ChordScript
