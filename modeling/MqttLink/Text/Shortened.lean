/-!
Long texts in a report are cut down to their two ends.
-/

namespace MqttLink.Text

/-- Most bytes of UTF-8 that a report shows of one text in full. -/
def shownBytes : Nat := 300

/-- Characters kept at each end of a longer text. -/
def keptChars : Nat := 20

/-- A text of at most `shownBytes` as it is; of a longer one its size and its two ends. -/
def shortened (s : String) : String :=
  if s.utf8ByteSize ≤ shownBytes then s
  else
    let cs := s.toList
    s!"<{s.utf8ByteSize} bytes>" ++ String.ofList (cs.take keptChars) ++ "..." ++
      String.ofList (cs.drop (cs.length - keptChars))

end MqttLink.Text
