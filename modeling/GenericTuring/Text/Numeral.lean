import GenericTuring.Text.Blank
import GenericTuring.Text.Digit

/-!
Reading whole numbers, and setting numbers and texts in columns.
-/

namespace GenericTuring.Text

/-- The number that a run of digits spells, most significant digit first; a single underscore may
stand between two digits. The accumulator holds the digits already read. -/
def readDigits? (value : Nat) : List Char → Option Nat
  | [] => some value
  | '_' :: c :: rest => (decimalValue? c).bind fun d => readDigits? (10 * value + d) rest
  | c :: rest => (decimalValue? c).bind fun d => readDigits? (10 * value + d) rest

def isDecimal (c : Char) : Bool := (decimalValue? c).isSome

def digitLimit : Nat := 4300

def readNat? : List Char → Option Nat
  | [] => none
  | c :: rest =>
    if digitLimit < (c :: rest).countP isDecimal then none
    else (decimalValue? c).bind fun d => readDigits? d rest

/-- White space that may stand around a numeral. The four separators among the control characters are
white space and yet may not. -/
def isPadding (c : Char) : Bool := isBlank c && !(0x1c ≤ c.toNat && c.toNat ≤ 0x1f)

def readInt? (text : String) : Option Int :=
  match trimWhile isPadding text.toList with
  | '-' :: digits => (readNat? digits).map fun n => -(n : Int)
  | '+' :: digits => (readNat? digits).map Int.ofNat
  | digits => (readNat? digits).map Int.ofNat

def spaces (count : Int) : String :=
  String.ofList (List.replicate count.toNat ' ')

def alignRight (width : Nat) (text : String) : String :=
  spaces (width - text.length) ++ text

def alignLeft (width : Nat) (text : String) : String :=
  text ++ spaces (width - text.length)

def zeroPadded (width : Nat) (n : Int) : String :=
  let digits := toString n.natAbs
  let sign := if n < 0 then "-" else ""
  sign ++ String.ofList (List.replicate (width - sign.length - digits.length) '0') ++ digits

end GenericTuring.Text
