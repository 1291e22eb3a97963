import GenericTuring.Text.CodeRange

/-!
White space: trimming a text at both ends and cutting off its first word.
-/

namespace GenericTuring.Text

def blankRanges : CodeRanges :=
  [(0x9, 0xd), (0x1c, 0x20), (0x85, 0x85), (0xa0, 0xa0), (0x1680, 0x1680), (0x2000, 0x200a),
  (0x2028, 0x2029), (0x202f, 0x202f), (0x205f, 0x205f), (0x3000, 0x3000)]

def isBlank (c : Char) : Bool := blankRanges.contains c

def isBlankText (text : String) : Bool :=
  !text.isEmpty && text.toList.all isBlank

def trimWhile (kind : Char → Bool) (cs : List Char) : List Char :=
  ((cs.dropWhile kind).reverse.dropWhile kind).reverse

def trim (cs : List Char) : List Char := trimWhile isBlank cs

def strip (text : String) : String :=
  String.ofList (trim text.toList)

def firstWord? (cs : List Char) : Option String :=
  match (cs.dropWhile isBlank).takeWhile fun c => !isBlank c with
  | [] => none
  | word => some (String.ofList word)

end GenericTuring.Text
