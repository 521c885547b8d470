/-
Module: MiningPool.Text.Quoted
Purpose: text and characters between quotes, as they are shown in messages.
Main exports: quoteText, quoteChar
-/
import MiningPool.Hex
import MiningPool.Text.Printable

/-!
A quoted text shows every printable character as itself. The quote that encloses it, the backslash and
a few control characters are written as a backslash and one character; everything else that does not
show is written as its code point in hexadecimal between braces. Only the enclosing kind of quote is
escaped.
-/

namespace MiningPool.Text

/-- The hexadecimal digits of a code point, without leading zeros. -/
def codePointDigits (code : Nat) : List Char :=
  if code < 16 then [Hex.digit code] else codePointDigits (code / 16) ++ [Hex.digit (code % 16)]
termination_by code
decreasing_by omega

/-- A code point between braces. -/
def escapeCodePoint (c : Char) : List Char :=
  ['\\', 'u', '\x7b'] ++ codePointDigits c.toNat ++ ['\x7d']

/-- One character inside a pair of `quote` characters. -/
def escapeChar (quote c : Char) : List Char :=
  if c = Char.ofNat 0 then ['\\', '0']
  else if c = '\t' then ['\\', 't']
  else if c = '\r' then ['\\', 'r']
  else if c = '\n' then ['\\', 'n']
  else if c = '\\' then ['\\', '\\']
  else if c = quote then ['\\', quote]
  else if extendsGrapheme c then escapeCodePoint c
  else if isPrintable c then [c]
  else escapeCodePoint c

/-- A text between double quotes. -/
def quoteText (text : String) : String :=
  String.ofList ('"' :: text.toList.flatMap (escapeChar '"') ++ ['"'])

/-- A character between single quotes. -/
def quoteChar (c : Char) : String :=
  String.ofList ('\'' :: escapeChar '\'' c ++ ['\''])

end MiningPool.Text
