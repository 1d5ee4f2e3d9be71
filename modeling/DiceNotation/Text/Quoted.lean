import DiceNotation.Text.Printable

/-!
# Quoted text

A text between quotes, for messages: the quote in use and the backslash are escaped, and so is
every character that would not show.
-/

namespace DiceNotation.Text

def apostrophe : Char := '\x27'

def doubleQuote : Char := '\x22'

/-- An apostrophe, unless only the other quote leaves the text without escapes. -/
def quoteFor (text : Text) : Char :=
  if text.contains apostrophe && !text.contains doubleQuote then doubleQuote else apostrophe

/-- A code point in lower-case hexadecimal, with at least `width` digits. -/
def hex (width : Nat) (c : Char) : Text := (Nat.toDigits 16 c.toNat).leftpad width '0'

def escaped (quote c : Char) : Text :=
  if c == quote || c == '\\' then ['\\', c]
  else if c == '\n' then ['\\', 'n']
  else if c == '\r' then ['\\', 'r']
  else if c == '\t' then ['\\', 't']
  else if isPrintable c then [c]
  else if c.toNat < 0x100 then '\\' :: 'x' :: hex 2 c
  else if c.toNat < 0x10000 then '\\' :: 'u' :: hex 4 c
  else '\\' :: 'U' :: hex 8 c

def quoted (text : Text) : Text :=
  let quote := quoteFor text
  quote :: text.flatMap (escaped quote) ++ [quote]

end DiceNotation.Text
