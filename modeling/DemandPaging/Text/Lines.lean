/-!
# Lines

Text read from a file has its line ends unified first: a carriage return
followed by a line feed, and a carriage return alone, each become one line
feed.  The text is then cut into lines at every line boundary: line feed,
carriage return (a carriage return and line feed together are one boundary),
vertical tab, form feed, the separators U+001C to U+001E, next line U+0085,
and the line and paragraph separators U+2028 and U+2029.  The boundaries
are not part of the lines, and a boundary at the very end starts no new
line.
-/

namespace DemandPaging.Text

/-- Line ends unified to line feeds. -/
def unifyLineEnds : List Char → List Char
  | [] => []
  | '\r' :: '\n' :: rest => '\n' :: unifyLineEnds rest
  | '\r' :: rest => '\n' :: unifyLineEnds rest
  | c :: rest => c :: unifyLineEnds rest

/-- Whether a character ends a line. -/
def isLineBreak (c : Char) : Bool :=
  c = '\n' || c = '\r' || c = '\x0b' || c = '\x0c' || c = '\x1c' || c = '\x1d' || c = '\x1e' ||
    c = '\x85' || c = '\u2028' || c = '\u2029'

/-- The lines of `cs`, where `current` holds the characters of the line being
read, most recent first. -/
def splitLinesFrom : List Char → List Char → List (List Char)
  | [], current => if current.isEmpty then [] else [current.reverse]
  | '\r' :: '\n' :: rest, current => current.reverse :: splitLinesFrom rest []
  | c :: rest, current =>
    if isLineBreak c then current.reverse :: splitLinesFrom rest []
    else splitLinesFrom rest (c :: current)

/-- The lines of a text. -/
def splitLines (s : String) : List String :=
  (splitLinesFrom s.toList []).map String.ofList

example : splitLinesFrom "a\r\nb\n\nc\x0bd\n".toList [] = ["a", "b", "", "c", "d"].map String.toList ∧
    splitLinesFrom "\n\n\n".toList [] = [[], [], []] ∧ splitLinesFrom [] [] = [] := by
  decide +kernel

example : unifyLineEnds "a\r\nb\rc\n".toList = "a\nb\nc\n".toList := by decide +kernel

end DemandPaging.Text
