/-!
# Painted text

Text that a terminal shows in bold or in a colour.
-/

namespace AliasCheck

/-- A way of showing text. -/
inductive Paint where
  | bold | red | green
  deriving DecidableEq, Repr

namespace Paint

/-- Tells a terminal to show what follows in a certain way. -/
def code (parameter : String) : String := "\x1b[" ++ parameter ++ "m"

/-- Tells a terminal to show what follows in the usual way. -/
def reset : String := code "0"

/-- Tells a terminal to show what follows in this way. -/
def start : Paint → String
  | bold => code "1"
  | red => code "31"
  | green => code "32"

/-- A text that is shown in this way if `enabled`. After a reset in the text it goes on in the same
way. -/
def apply (enabled : Bool) (p : Paint) (text : String) : String :=
  if enabled then p.start ++ text.replace reset (reset ++ p.start) ++ reset else text

end Paint

end AliasCheck
