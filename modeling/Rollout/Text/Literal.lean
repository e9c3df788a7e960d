import Rollout.Text.Printable

namespace Rollout.Text

/-- The quote that a literal of `t` stands in: single, unless `t` holds single quotes only. -/
def literalQuote (t : Text) : Char :=
  if t.contains '\'' && !t.contains '"' then '"' else '\''

def escapeChar (quote c : Char) : Text :=
  if c = '\\' then "\\\\".toList
  else if c = quote then ['\\', quote]
  else if c = '\n' then "\\n".toList
  else if c = '\r' then "\\r".toList
  else if c = '\t' then "\\t".toList
  else if isPrintable c then [c]
  else if c.toNat < 0x100 then "\\x".toList ++ ofHex 2 c.toNat
  else if c.toNat < 0x10000 then "\\u".toList ++ ofHex 4 c.toNat
  else "\\U".toList ++ ofHex 8 c.toNat

def literal (t : Text) : Text :=
  let quote := literalQuote t
  quote :: (t.flatMap (escapeChar quote) ++ [quote])

def listLiteral (ts : List Text) : Text :=
  '[' :: (join ", ".toList (ts.map literal) ++ [']'])

def tupleLiteral : List Text → Text
  | [t] => '(' :: (literal t ++ ",)".toList)
  | ts => '(' :: (join ", ".toList (ts.map literal) ++ [')'])

end Rollout.Text
