/-!
# Lines

A text cut at its line feeds. A carriage return before a line feed belongs to the line's end, and what
follows the last line feed is a line only if it is not empty.
-/

namespace PushMetrics.Text

/-- A line without the carriage return at its end. -/
def dropReturn (line : List Char) : List Char :=
  if line.getLast? = some '\r' then line.dropLast else line

/-- The stretches between the occurrences of a character; there is always one more than occurrences. -/
def cutAt (mark : Char) (cs : List Char) : List (List Char) :=
  cs.foldr (fun c parts => match parts with
    | [] => [[c]]
    | part :: rest => if c = mark then [] :: part :: rest else (c :: part) :: rest) [[]]

def lines (s : String) : List String :=
  let parts := cutAt '\n' s.toList
  let ended := parts.dropLast.map dropReturn
  let last := parts.getLast?.getD []
  (if last.isEmpty then ended else ended ++ [last]).map String.ofList

end PushMetrics.Text
