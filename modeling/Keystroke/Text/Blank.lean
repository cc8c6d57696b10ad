/-!
# Blank characters

The Unicode property White_Space, and trimming and splitting text at such characters.
-/

namespace Keystroke.Text

/-- The characters with the Unicode property White_Space, as closed ranges of code points. -/
def blankRanges : List (Nat × Nat) :=
  [(0x09, 0x0D), (0x20, 0x20), (0x85, 0x85), (0xA0, 0xA0), (0x1680, 0x1680), (0x2000, 0x200A),
   (0x2028, 0x2029), (0x202F, 0x202F), (0x205F, 0x205F), (0x3000, 0x3000)]

def isBlank (character : Char) : Bool :=
  blankRanges.any fun range => range.1 ≤ character.toNat && character.toNat ≤ range.2

/-- Drop the blanks at the start. -/
def trimLeft (text : List Char) : List Char := text.dropWhile isBlank

/-- Drop the blanks at the end. -/
def trimRight (text : List Char) : List Char := (text.reverse.dropWhile isBlank).reverse

/-- Drop the blanks at both ends. -/
def trim (text : List Char) : List Char := trimRight (trimLeft text)

/-- The maximal runs of characters that are not blank. -/
def words (text : List Char) : List (List Char) :=
  go [] text
where
  go (word : List Char) : List Char → List (List Char)
    | [] => if word.isEmpty then [] else [word.reverse]
    | character :: rest =>
      if isBlank character then
        if word.isEmpty then go [] rest else word.reverse :: go [] rest
      else go (character :: word) rest

/-- What follows the first `count` words, trimmed. -/
def afterWords : Nat → List Char → List Char
  | 0, text => trim text
  | count + 1, text => afterWords count ((trimLeft text).dropWhile fun c => !isBlank c)

/-- Upper-case the letters from a to z and leave every other character alone. -/
def upper (text : List Char) : List Char := text.map Char.toUpper

/-- Replace every occurrence of a pattern, scanning from the left without overlaps. -/
def substitute (pattern replacement text : List Char) : List Char :=
  go 0 text
where
  go : Nat → List Char → List Char
    | _, [] => []
    | skipped + 1, _ :: rest => go skipped rest
    | 0, character :: rest =>
      if pattern.isPrefixOf (character :: rest) then replacement ++ go (pattern.length - 1) rest
      else character :: go 0 rest

end Keystroke.Text
