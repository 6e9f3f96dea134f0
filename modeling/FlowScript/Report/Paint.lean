/-!
# Paint

Terminal colours of report lines. A line is painted either as a whole, its break included, or without
its break.
-/

namespace FlowScript

/-- The paints that reports use. -/
inductive Paint where
  | bold
  | red
  | green
  | yellow
  | cyan
  deriving DecidableEq

namespace Paint

/-- The code that switches a paint on. -/
def code : Paint → String
  | bold => "1"
  | red => "31"
  | green => "32"
  | yellow => "33"
  | cyan => "36"

/-- The code that switches just this paint off again. -/
def resetCode : Paint → String
  | bold => "22"
  | _ => "0"

/-- A terminal control sequence. -/
def control (code : String) : String :=
  "\x1b[" ++ code ++ "m"

/-- A line painted with its break. -/
def whole (colored : Bool) (p : Paint) (line : String) : String :=
  if colored then control p.code ++ line ++ "\n" ++ control "0" else line ++ "\n"

/-- A line painted up to its break. -/
def inner (colored : Bool) (p : Paint) (line : String) : String :=
  if colored then control p.code ++ line ++ control p.resetCode ++ "\n" else line ++ "\n"

end Paint

end FlowScript
