import TypedModel.Text.Hex

/-!
# Quoted strings

A quoted string stands between double quotes, with an escape for every
character that may not stand there as itself. Which characters have a letter
escape and which are written by their code depends on where the string is
written: `Escapes.json` in documents, `Escapes.log` in log lines.
-/

namespace TypedModel.Text

/-- How the characters of a quoted string are written. -/
structure Escapes where
  /-- Characters written as a backslash and a letter. -/
  letters : List (Char × Char)
  /-- Further characters written as a backslash, `u` and four digits. -/
  coded : Char → Bool

/-- Escapes of documents: only what a JSON string may not hold as itself. -/
def Escapes.json : Escapes where
  letters := [('"', '"'), ('\\', '\\'), ('\x08', 'b'), ('\x0c', 'f'), ('\n', 'n'), ('\r', 'r'),
    ('\t', 't')]
  coded c := c.toNat < 0x20

/-- Escapes of log lines: every control character is escaped. -/
def Escapes.log : Escapes where
  letters := [('"', '"'), ('\\', '\\'), ('\n', 'n'), ('\r', 'r'), ('\t', 't')]
  coded c := c.toNat < 0x20 || (0x7f ≤ c.toNat && c.toNat ≤ 0x9f)

/-- One character inside the quotes. -/
def escapeChar (e : Escapes) (c : Char) : List Char :=
  match e.letters.lookup c with
  | some letter => ['\\', letter]
  | none => if e.coded c then '\\' :: 'u' :: hexDigits 4 c.toNat else [c]

/-- The text between double quotes. -/
def quote (e : Escapes) (s : String) : List Char :=
  '"' :: (s.toList.flatMap (escapeChar e) ++ ['"'])

end TypedModel.Text
