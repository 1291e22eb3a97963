import GenericTuring.Text.Numeral
import GenericTuring.Text.Quoted

/-!
Flags on the command line and how a word is taken for one. A long flag may be shortened as long as it
stays unique, a value may be attached, and short flags without values may be run together.
-/

namespace GenericTuring.CommandLine

inductive Flag where
  | help
  | version
  | verbose
  | output
  | naming
  | name
  | tape
  | maxSteps
  | trace
  deriving DecidableEq, Repr

namespace Flag

def spellings : Flag → List String
  | help => ["-h", "--help"]
  | version => ["--version"]
  | verbose => ["-v", "--verbose"]
  | output => ["-o", "--output"]
  | naming => ["--naming"]
  | name => ["--name"]
  | tape => ["--tape"]
  | maxSteps => ["--max-steps"]
  | trace => ["--trace"]

def takesValue : Flag → Bool
  | output | naming | name | tape | maxSteps => true
  | help | version | verbose | trace => false

def label (f : Flag) : String := "/".intercalate f.spellings

end Flag

def spellingTable (flags : List Flag) : List (String × Flag) :=
  flags.flatMap fun f => f.spellings.map fun s => (s, f)

inductive Reading where
  | plain
  /-- The text attached to the flag, after an equals sign or directly, may be empty. -/
  | flag (flag : Flag) (spelling : String) (attached : Option (List Char))
  | unknown

def splitAtSign (cs : List Char) : List Char × Option (List Char) :=
  match cs.dropWhile (· != '=') with
  | [] => (cs, none)
  | _ :: value => (cs.takeWhile (· != '='), some value)

def candidates (flags : List Flag) (word : List Char) : List (Flag × String × Option (List Char)) :=
  match word with
  | '-' :: '-' :: _ =>
    let (front, value) := splitAtSign word
    (spellingTable flags).filterMap fun (spelling, f) =>
      if front.isPrefixOf spelling.toList then some (f, spelling, value) else none
  | '-' :: c :: rest =>
    (spellingTable flags).filterMap fun (spelling, f) =>
      if spelling.toList = ['-', c] then some (f, spelling, some rest)
      else if word.isPrefixOf spelling.toList then some (f, spelling, none)
      else none
  | _ => []

def looksNegative : List Char → Bool
  | '-' :: cs =>
    let cs := if cs.getLast? = some '\n' then cs.dropLast else cs
    match cs.dropWhile Text.isDecimal with
    | [] => !cs.isEmpty
    | '.' :: fraction => !fraction.isEmpty && fraction.all Text.isDecimal
    | _ => false
  | _ => false

def readWord (flags : List Flag) (text : String) : Except (List String) Reading :=
  let word := text.toList
  match word with
  | '-' :: _ :: _ =>
    match (spellingTable flags).lookup text with
    | some f => .ok (.flag f text none)
    | none =>
      let (front, value) := splitAtSign word
      let exact := value.bind fun v =>
        ((spellingTable flags).lookup (String.ofList front)).map fun f =>
          Reading.flag f (String.ofList front) (some v)
      match exact with
      | some reading => .ok reading
      | none =>
        match candidates flags word with
        | [(f, spelling, attached)] => .ok (.flag f spelling attached)
        | [] =>
          if looksNegative word || word.contains ' ' then .ok .plain else .ok .unknown
        | several => .error (several.map fun c => c.2.1)
  | _ => .ok .plain

structure Unpacked where
  flags : List (Flag × Option String)
  /-- The value stood in the next word. -/
  usesNext : Bool

structure FlagError where
  flag : Flag
  message : String

def isShort (spelling : String) : Bool :=
  match spelling.toList with
  | '-' :: '-' :: _ => false
  | _ => true

def attachedValue : List Char → Option String
  -- Two dashes give no value.
  | ['-', '-'] => none
  | cs => some (String.ofList cs)

def FlagError.ignored (flag : Flag) (attached : List Char) : FlagError :=
  ⟨flag, "ignored explicit argument " ++ Text.quoted (String.ofList attached)⟩

/-- Takes the characters after a flag apart. They are the value of a flag that takes one. After a short
flag that takes none, each stands for a short flag of its own, up to one that takes a value. `next` is
the following word if it may serve as a value. -/
def unpackRest (flags : List Flag) (next : Option String) :
    (flag : Flag) → (spelling : String) → List Char → Except FlagError Unpacked
  | flag, _, [] =>
    if flag.takesValue then
      match next with
      | some value => .ok ⟨[(flag, some value)], true⟩
      | none => .error ⟨flag, "expected one argument"⟩
    else .ok ⟨[(flag, none)], false⟩
  | flag, spelling, c :: rest =>
    if flag.takesValue then .ok ⟨[(flag, attachedValue (c :: rest))], false⟩
    else if isShort spelling then
      let letter := String.ofList ['-', c]
      match (spellingTable flags).lookup letter with
      | none => .error (.ignored flag (c :: rest))
      | some other =>
        (unpackRest flags next other letter rest).map fun u =>
          { u with flags := (flag, none) :: u.flags }
    else .error (.ignored flag (c :: rest))

def unpack (flags : List Flag) (next : Option String) (flag : Flag) (spelling : String) :
    (attached : Option (List Char)) → Except FlagError Unpacked
  | some [] =>
    if flag.takesValue then .ok ⟨[(flag, attachedValue [])], false⟩ else .error (.ignored flag [])
  | attached => unpackRest flags next flag spelling (attached.getD [])

end GenericTuring.CommandLine
