/-! Ends of lines. -/
namespace PropShear.Text

/-- Turns every end of line, be it a carriage return, a line feed or both, into a line feed. -/
def unifyLines : List Char → List Char
  | [] => []
  | '\r' :: '\n' :: rest => '\n' :: unifyLines rest
  | '\r' :: rest => '\n' :: unifyLines rest
  | c :: rest => c :: unifyLines rest

end PropShear.Text
