import GenericTuring.FileTree
import GenericTuring.Program.Parse
import GenericTuring.Text.Utf8

/-!
Programs in files.
-/

namespace GenericTuring

inductive OpenError where
  | file (error : FileError)
  | encoding (error : Text.Utf8Error)
  | malformed (diagnostic : Diagnostic)
  | crashed (crash : Program.Crash)

def OpenError.ofFailed : Failed Diagnostic → OpenError
  | .refused diagnostic => malformed diagnostic
  | .crashed crash => crashed crash

def Program.openFile (files : FileTree) (path : Path) : Except OpenError Program := do
  -- Line ends of every form count as line feeds, and a byte order mark is part of the text.
  let bytes ← (files.read path).mapError .file
  let cs ← (Text.decodeUtf8 bytes).mapError .encoding
  let source := String.ofList (Text.normalizeNewlines cs)
  (Program.parse source path.text).mapError fun failed =>
    .ofFailed (failed.map fun e => e.diagnostic source path.text)

end GenericTuring
