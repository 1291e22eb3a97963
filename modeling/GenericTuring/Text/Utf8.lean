import GenericTuring.Text.Quoted

/-!
Decoding UTF-8. The first fault is reported with the bytes it spans: a byte that starts no sequence, a
sequence broken off by a byte that does not continue it, or one cut short by the end of the data.
-/

namespace GenericTuring.Text

inductive Utf8Fault where
  | badStart
  | badContinuation
  | truncated
  deriving DecidableEq, Repr

def Utf8Fault.reason : Utf8Fault → String
  | .badStart => "invalid start byte"
  | .badContinuation => "invalid continuation byte"
  | .truncated => "unexpected end of data"

structure Utf8Error where
  fault : Utf8Fault
  position : Nat
  bytes : List UInt8

def Utf8Error.message (e : Utf8Error) : String :=
  let place := match e.bytes with
    | [byte] => "byte 0x" ++ String.ofList (hex 2 byte.toNat) ++ s!" in position {e.position}"
    | bytes => s!"bytes in position {e.position}-{e.position + bytes.length - 1}"
  s!"'utf-8' codec can't decode {place}: {e.fault.reason}"

/-- How many continuation bytes a first byte calls for, and the range of the first of them. Longer
spellings of short codes, surrogates and codes past the last one are ruled out here. -/
def sequenceShape? (first : Nat) : Option (Nat × Nat × Nat) :=
  if first < 0x80 then some (0, 0x80, 0xbf)
  else if first < 0xc2 then none
  else if first < 0xe0 then some (1, 0x80, 0xbf)
  else if first = 0xe0 then some (2, 0xa0, 0xbf)
  else if first = 0xed then some (2, 0x80, 0x9f)
  else if first < 0xf0 then some (2, 0x80, 0xbf)
  else if first = 0xf0 then some (3, 0x90, 0xbf)
  else if first < 0xf4 then some (3, 0x80, 0xbf)
  else if first = 0xf4 then some (3, 0x80, 0x8f)
  else none

def continuation (count lo hi : Nat) : List UInt8 → List UInt8
  | [] => []
  | byte :: rest =>
    match count with
    | 0 => []
    | n + 1 =>
      if lo ≤ byte.toNat && byte.toNat ≤ hi then byte :: continuation n 0x80 0xbf rest else []

def leadBits (count first : Nat) : Nat :=
  match count with
  | 0 => first
  | 1 => first % 0x20
  | 2 => first % 0x10
  | _ => first % 0x08

def decodeFrom (position : Nat) : List UInt8 → Except Utf8Error (List Char)
  | [] => .ok []
  | first :: rest =>
    match sequenceShape? first.toNat with
    | none => .error ⟨.badStart, position, [first]⟩
    | some (count, lo, hi) =>
      let more := continuation count lo hi rest
      if more.length < count then
        let fault := if more.length = rest.length then .truncated else .badContinuation
        .error ⟨fault, position, first :: more⟩
      else
        let code := more.foldl (fun code byte => 64 * code + byte.toNat % 64)
          (leadBits count first.toNat)
        (decodeFrom (position + count + 1) (rest.drop count)).map (Char.ofNat code :: ·)
termination_by bytes => bytes.length
decreasing_by
  rw [List.length_drop, List.length_cons]
  omega

def decodeUtf8 (bytes : List UInt8) : Except Utf8Error (List Char) :=
  decodeFrom 0 bytes

end GenericTuring.Text
