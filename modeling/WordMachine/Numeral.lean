/-!
# Octal and hexadecimal numerals

Words are shown in octal, addresses in hexadecimal.  Letters among the digits
are small, and a numeral that is narrower than its field is filled with zeros
on the left; one that is wider is shown in full.
-/

namespace WordMachine.Numeral

/-- The numeral of a number in a base, without leading zeros. -/
def digits (base number : Nat) : String :=
  String.ofList (Nat.toDigits base number)

/-- The numeral of a number, at least `width` digits wide. -/
def padded (base width number : Nat) : String :=
  String.ofList ((Nat.toDigits base number).leftpad width '0')

def octal (number : Nat) : String := digits 8 number

/-- Six octal digits hold every word. -/
def octalWord (number : Nat) : String := padded 8 6 number

/-- Four hexadecimal digits hold every word. -/
def hexWord (number : Nat) : String := padded 16 4 number

/-- An address as messages show it, such as `0x0100`. -/
def address (number : Nat) : String := "0x" ++ hexWord number

/-- An instruction word as messages show it, such as `0o0777`.  The field is
four digits wide, so only small words are filled. -/
def opcode (number : Nat) : String := "0o" ++ padded 8 4 number

end WordMachine.Numeral
