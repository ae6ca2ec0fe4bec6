import DebugLink.Text.DefaultIgnorable
import DebugLink.Text.ExtendingMark
import DebugLink.Text.Hex
import DebugLink.Text.NonGraphic

/-!
# Quoted text

A free text from the target is shown between double quotes. Quotes and backslashes are escaped,
and so is every character that would not show as one of its own, so that the text stays on one
line and nothing in it is hidden.
-/

namespace DebugLink.Text

/-- The letter that stands behind a backslash for a character, if it has one. -/
def escapeLetter? (c : Char) : Option Char :=
  if c = '"' then some '"'
  else if c = '\\' then some '\\'
  else if c = '\t' then some 't'
  else if c = '\r' then some 'r'
  else if c = '\n' then some 'n'
  else if c.toNat = 0 then some '0'
  else none

/-- A character is hidden if it shows nothing, or only together with the one before. -/
def isHidden (c : Char) : Bool :=
  isNonGraphic c || isDefaultIgnorable c || isExtendingMark c

/-- How one character is written between quotes. -/
def quotedChar (c : Char) : List Char :=
  match escapeLetter? c with
  | some letter => ['\\', letter]
  | none =>
    if isHidden c then
      ['\\', 'u', '\x7b'] ++ hexDigits c.toNat ++ ['\x7d']
    else [c]

/-- `s` between double quotes. -/
def quoted (s : String) : String :=
  String.ofList ('"' :: s.toList.flatMap quotedChar ++ ['"'])

end DebugLink.Text
