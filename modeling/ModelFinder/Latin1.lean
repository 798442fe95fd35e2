/-!
# Words of a line of bytes

Where a format leaves open how its text is encoded, a line is taken as Latin-1, in which every byte
is the character of the same code.  `Latin1.text` shows such a line, and `Latin1.words` cuts it at
the characters that count as white space.
-/

namespace ModelFinder.Latin1

/-- Whether the character of a byte is white space: the blank, the controls from tab to carriage
return, the next-line control and the no-break space. -/
def isBlank (b : UInt8) : Bool := b == 32 || (9 ≤ b && b ≤ 13) || b == 133 || b == 160

/-- The characters of some bytes. -/
def text (bytes : List UInt8) : String := String.ofList (bytes.map fun b => Char.ofNat b.toNat)

/-- A line without the white space at both ends. -/
def trim (bytes : List UInt8) : List UInt8 :=
  ((bytes.dropWhile isBlank).reverse.dropWhile isBlank).reverse

/-- A word in front of other words, unless it is empty. -/
def consWord (word : List UInt8) (words : List (List UInt8)) : List (List UInt8) :=
  if word.isEmpty then words else word :: words

/-- Cuts a line at its white space: the word it starts with, which is empty if there is white space
at the start, and the words after that. -/
def cut : List UInt8 → List UInt8 × List (List UInt8)
  | [] => ([], [])
  | b :: bytes =>
    let (word, words) := cut bytes
    if isBlank b then ([], consWord word words) else (b :: word, words)

/-- The words of a line: the longest runs without white space. -/
def words (bytes : List UInt8) : List (List UInt8) := consWord (cut bytes).1 (cut bytes).2

end ModelFinder.Latin1
