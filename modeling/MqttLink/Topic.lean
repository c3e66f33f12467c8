import MqttLink.Fault

/-!
Topic names, which a message is published to, and topic filters, which a subscription names.
A filter is checked level by level: `#` stands alone in the last level, `+` alone in any level.
-/

namespace MqttLink.Topic

/-- Most bytes that a topic may have in UTF-8. -/
def maxBytes : Nat := 65535

/-- The levels of a topic: its parts between slashes. -/
def levels (cs : List Char) : List (List Char) :=
  cs.foldr (fun c ls =>
    match ls with
    | l :: rest => if c = '/' then [] :: l :: rest else (c :: l) :: rest
    | [] => []) [[]]

/-- Whether a level may stand in a filter; `last` tells that it is the last one. -/
def levelAllowed (last : Bool) (level : List Char) : Bool :=
  (!level.contains '#' || (last && level == ['#'])) && (!level.contains '+' || level == ['+'])

def levelsAllowed : List (List Char) → Bool
  | [] => true
  | [l] => levelAllowed true l
  | l :: rest => levelAllowed false l && levelsAllowed rest

/-- What names and filters share: some text, not too long, without the null character. -/
def wellFormed (s : String) : Bool :=
  !s.isEmpty && s.utf8ByteSize ≤ maxBytes && !s.toList.contains '\x00'

def isFilter (s : String) : Bool :=
  wellFormed s && levelsAllowed (levels s.toList)

/-- A name has no wildcards. -/
def isName (s : String) : Bool :=
  wellFormed s && !s.toList.any (fun c => c == '+' || c == '#')

def checkName (s : String) : Except Fault Unit :=
  if isName s then .ok () else .error (.invalidTopic s)

def checkFilter (s : String) : Except Fault Unit :=
  if isFilter s then .ok () else .error (.invalidTopic s)

end MqttLink.Topic
