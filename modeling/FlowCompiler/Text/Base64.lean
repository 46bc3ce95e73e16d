import FlowCompiler.Text.Quoted

/-!
# Base64

Four characters of the alphabet stand for three bytes. The last group is filled up with `=`. Line ends
between the characters do not count, and the bits that the last group has too many are not looked at.
-/

namespace FlowCompiler.Text

/-- The six bits that a character of the alphabet stands for. -/
def sextet? (c : Char) : Option Nat :=
  if c.isUpper then some (c.toNat - 'A'.toNat)
  else if c.isLower then some (c.toNat - 'a'.toNat + 26)
  else if c.isDigit then some (c.toNat - '0'.toNat + 52)
  else if c == '+' then some 62
  else if c == '/' then some 63
  else none

def group? (a b c d : Char) : Option Nat :=
  (sextet? a).bind fun a => (sextet? b).bind fun b => (sextet? c).bind fun c => (sextet? d).map fun d =>
    ((a * 64 + b) * 64 + c) * 64 + d

def groupBytes? : List Char → Option (List Nat)
  | [] => some []
  | [a, b, '=', '='] => (group? a b 'A' 'A').map fun n => [n / 65536]
  | [a, b, c, '='] => (group? a b c 'A').map fun n => [n / 65536, n / 256 % 256]
  | a :: b :: c :: d :: rest =>
    (group? a b c d).bind fun n =>
      (groupBytes? rest).map ([n / 65536, n / 256 % 256, n % 256] ++ ·)
  | _ => none

def ofBase64? (s : String) : Option String :=
  (groupBytes? (s.toList.filter fun c => c != '\n' && c != '\r')).map fun bytes =>
    String.ofList (ofBytes bytes)

end FlowCompiler.Text
