import ArticleArchive.Number.Binary64
import ArticleArchive.Text.Printable

namespace ArticleArchive.Text

def apostrophe : Char := '\x27'

def hexDigit (n : Nat) : Char :=
  if n < 10 then Char.ofNat (48 + n) else Char.ofNat (87 + n)

def hexDigits (width n : Nat) : Text :=
  (List.range width).reverse.map fun k => hexDigit (n / 16 ^ k % 16)

def quotedChar (q c : Char) : Text :=
  if c = q ∨ c = '\\' then ['\\', c]
  else if c = '\n' then ['\\', 'n']
  else if c = '\r' then ['\\', 'r']
  else if c = '\t' then ['\\', 't']
  else if isPrintable c then [c]
  else if c.toNat < 0x100 then '\\' :: 'x' :: hexDigits 2 c.toNat
  else if c.toNat < 0x10000 then '\\' :: 'u' :: hexDigits 4 c.toNat
  else '\\' :: 'U' :: hexDigits 8 c.toNat

/-- Apostrophes, unless the text holds an apostrophe and no double quote. -/
def quoteFor (t : Text) : Char :=
  if t.contains apostrophe && !t.contains '"' then '"' else apostrophe

def quoted (t : Text) : Text :=
  let q := quoteFor t
  q :: (t.flatMap (quotedChar q) ++ [q])

end ArticleArchive.Text
