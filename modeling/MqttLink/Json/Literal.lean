import MqttLink.Text.Hex

/-!
The smallest pieces of a JSON text, read off the front of a list of characters: blanks, words such
as `null`, and string literals.
-/

namespace MqttLink.Json

/-- Why a text is no JSON: it is spoilt, or it ends too early. -/
inductive TextFault
  | malformed
  | truncated
  deriving DecidableEq, Repr

def isBlank (c : Char) : Bool :=
  c == ' ' || c == '\n' || c == '\t' || c == '\r'

def skipBlanks (cs : List Char) : List Char :=
  cs.dropWhile isBlank

def isDigit (c : Char) : Bool :=
  '0' ≤ c && c ≤ '9'

/-- Reads the given characters and returns what follows them. -/
def readWord : List Char → List Char → Except TextFault (List Char)
  | [], cs => .ok cs
  | _ :: _, [] => .error .truncated
  | w :: ws, c :: cs => if c = w then readWord ws cs else .error .malformed

/-! ## String literals -/

/-- The form of a character between the quotes of a string literal. -/
def escape (c : Char) : List Char :=
  if c = '"' then ['\\', '"']
  else if c = '\\' then ['\\', '\\']
  else if c = '\x08' then ['\\', 'b']
  else if c = '\x0c' then ['\\', 'f']
  else if c = '\n' then ['\\', 'n']
  else if c = '\r' then ['\\', 'r']
  else if c = '\t' then ['\\', 't']
  else if c.toNat < 32 then ['\\', 'u', '0', '0'] ++ Text.hexByte c.toNat.toUInt8
  else [c]

/-- The string literal that stands for `s`. -/
def literal (s : String) : List Char :=
  '"' :: (s.toList.flatMap escape ++ ['"'])

/-- The character that a single character after a backslash stands for. -/
def unescape? : Char → Option Char
  | '"' => some '"'
  | '\\' => some '\\'
  | '/' => some '/'
  | 'b' => some '\x08'
  | 'f' => some '\x0c'
  | 'n' => some '\n'
  | 'r' => some '\r'
  | 't' => some '\t'
  | _ => none

def isLeadingSurrogate (n : Nat) : Bool :=
  0xd800 ≤ n && n ≤ 0xdbff

def isTrailingSurrogate (n : Nat) : Bool :=
  0xdc00 ≤ n && n ≤ 0xdfff

/-- The character that a pair of surrogates stands for. -/
def joinSurrogates (leading trailing : Nat) : Char :=
  Char.ofNat ((leading - 0xd800) * 1024 + (trailing - 0xdc00) + 0x10000)

def utf8Length (cs : List Char) : Nat :=
  cs.foldl (fun n c => n + c.utf8Size) 0

/-- The fault of a character that is no digit among the four of an escape: a text that has fewer
than four bytes left ends too early, whatever they are. `seen` digits stand before `rest`. -/
def codeFault (seen : Nat) (rest : List Char) : TextFault :=
  if seen + utf8Length (rest.take 4) < 4 then .truncated else .malformed

/-- Where a reader stands inside a string literal: between characters, after a backslash, among
the four digits of a code (`leading` is a surrogate that waits for its partner), or on the
backslash and the mark that have to follow a leading surrogate. -/
inductive StringState
  | plain
  | escaped
  | code (leading : Option Nat) (seen value : Nat)
  | partnerBackslash (leading : Nat)
  | partnerMark (leading : Nat)

/-- What four digits of a code lead to: a state to go on in and perhaps a character. -/
def closeCode (leading : Option Nat) (value : Nat) :
    Except TextFault (StringState × Option Char) :=
  match leading with
  | some high =>
    if isTrailingSurrogate value then .ok (.plain, some (joinSurrogates high value))
    else .error .malformed
  | none =>
    if isTrailingSurrogate value then .error .malformed
    else if isLeadingSurrogate value then .ok (.partnerBackslash value, none)
    else .ok (.plain, some (Char.ofNat value))

/-- Reads a string literal after its opening quote: its characters, added to `acc` in reverse, and
what follows the closing quote. Every surrogate has to be one of a pair. -/
def readString : StringState → (acc : List Char) → List Char →
    Except TextFault (List Char × List Char)
  | _, _, [] => .error .truncated
  | .plain, acc, c :: cs =>
    if c = '"' then .ok (acc.reverse, cs)
    else if c = '\\' then readString .escaped acc cs
    else if c.toNat < 32 then .error .malformed
    else readString .plain (c :: acc) cs
  | .escaped, acc, c :: cs =>
    if c = 'u' then readString (.code none 0 0) acc cs
    else
      match unescape? c with
      | some d => readString .plain (d :: acc) cs
      | none => .error .malformed
  | .code leading seen value, acc, c :: cs =>
    match Text.hexValue? c with
    | none => .error (codeFault seen (c :: cs))
    | some d =>
      if seen < 3 then readString (.code leading (seen + 1) (value * 16 + d)) acc cs
      else
        match closeCode leading (value * 16 + d) with
        | .error e => .error e
        | .ok (state, some d) => readString state (d :: acc) cs
        | .ok (state, none) => readString state acc cs
  | .partnerBackslash leading, acc, c :: cs =>
    if c = '\\' then readString (.partnerMark leading) acc cs else .error .malformed
  | .partnerMark leading, acc, c :: cs =>
    if c = 'u' then readString (.code (some leading) 0 0) acc cs else .error .malformed

end MqttLink.Json
