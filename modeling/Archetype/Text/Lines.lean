namespace Archetype.Text

def endsLine (character : Char) : Bool :=
  let code := character.toNat
  (10 ≤ code && code ≤ 13) || (0x1C ≤ code && code ≤ 0x1E) || code == 0x85 || code == 0x2028 ||
    code == 0x2029

/-- The lines of the characters, after the characters `line` of the current line (in reverse);
`begun` says whether a line has begun that has no end yet. -/
def linesFrom (line : List Char) (begun : Bool) : List Char → List (List Char)
  | [] => if begun then [line.reverse] else []
  | '\r' :: '\n' :: rest => line.reverse :: linesFrom [] false rest
  | character :: rest =>
    if endsLine character then line.reverse :: linesFrom [] false rest
    else linesFrom (character :: line) true rest

def lines (text : String) : List String :=
  (linesFrom [] false text.toList).map String.ofList

/-- A text file's line ends in the form of the line feed: a carriage return, with the line feed
after it if there is one, becomes a line feed. -/
def unifyLineEnds : List Char → List Char
  | [] => []
  | '\r' :: '\n' :: rest => '\n' :: unifyLineEnds rest
  | character :: rest => (if character = '\r' then '\n' else character) :: unifyLineEnds rest

end Archetype.Text
