/-!
# Cutting text into parts

Paths are cut at slashes, files of documents at line ends and settings at equals signs.
-/

namespace AliasCheck

/-- The parts of a text between the occurrences of a separator; there is always one more of them. -/
def splitAt (separator : Char) : List Char → List (List Char)
  | [] => [[]]
  | c :: cs =>
    if c = separator then [] :: splitAt separator cs
    else match splitAt separator cs with
      | [] => [[c]]
      | part :: parts => (c :: part) :: parts

/-- The text in front of the first separator, and the text behind it if there is one. -/
def cutAt (separator : Char) (text : List Char) : List Char × Option (List Char) :=
  (text.takeWhile (· ≠ separator), (text.dropWhile (· ≠ separator)).tail?)

/-- A line without the carriage return at its end. -/
def dropReturn (line : List Char) : List Char :=
  if line.getLast? = some '\r' then line.dropLast else line

/-- The lines that the parts between line feeds amount to: the last part had no line feed behind it,
so it counts only if there is something in it, and a carriage return at its end belongs to it. -/
def linesOfParts : List (List Char) → List (List Char)
  | [] => []
  | [last] => if last.isEmpty then [] else [last]
  | part :: parts => dropReturn part :: linesOfParts parts

/-- The lines of a text, without their ends. -/
def lines (text : List Char) : List (List Char) := linesOfParts (splitAt '\n' text)

end AliasCheck
