import FlowScript.Text.Hex
import FlowScript.Text.Printable

/-!
# Quoted text in messages

Messages show names and ids between double quotes. A quote, a backslash and everything that is not
printable is escaped, so a quoted text always stays on one line.
-/

namespace FlowScript.Text

/-- The characters that stand for `c` between double quotes. -/
def quotedChar (c : Char) : List Char :=
  if c == '"' || c == '\\' then ['\\', c]
  else if isPrintable c then [c]
  else
    match c.toNat with
    | 7 => ['\\', 'a']
    | 8 => ['\\', 'b']
    | 9 => ['\\', 't']
    | 10 => ['\\', 'n']
    | 11 => ['\\', 'v']
    | 12 => ['\\', 'f']
    | 13 => ['\\', 'r']
    | n =>
      if n < 0x80 then '\\' :: 'x' :: hex 2 n
      else if n < 0x10000 then '\\' :: 'u' :: hex 4 n
      else '\\' :: 'U' :: hex 8 n

/-- The text between double quotes. -/
def quotedChars (cs : List Char) : List Char :=
  '"' :: (cs.flatMap quotedChar ++ ['"'])

end FlowScript.Text

namespace FlowScript

/-- A text between double quotes, as messages show it. -/
def quoted (s : String) : String :=
  String.ofList (Text.quotedChars s.toList)

end FlowScript
