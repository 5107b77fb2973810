import ScriptVM.Saved.Image
import ScriptVM.Saved.Json
import ScriptVM.Saved.MessagePack

/-!
# Saving and loading code

Code is saved as JSON under a file name that ends in `.json`, and as MessagePack under any other
name. Loading reads the whole image before it looks at the format number. A loaded program
starts at its first instruction.
-/
namespace ScriptVM

/-- Why a file cannot be read. -/
inductive FileError where
  | notFound
  | notUtf8
  /-- Anything else that the system has to say. -/
  | other (text : String)
  deriving DecidableEq, Repr

/-- The system's words for a file error. -/
def FileError.message : FileError → String
  | .notFound => "No such file or directory (os error 2)"
  | .notUtf8 => "stream did not contain valid UTF-8"
  | .other text => text

/-- Why saved code cannot be loaded. -/
inductive LoadError where
  /-- The text is not an image in JSON. -/
  | json
  /-- The bytes are not an image in MessagePack. -/
  | messagePack
  | file (cause : FileError)
  | unsupportedFormat (found : Nat)
  deriving DecidableEq, Repr

/-- What is wrong, in words. -/
def LoadError.message : LoadError → String
  | .json => "JSON error: not an image of code"
  | .messagePack => "MessagePack decode error: not an image of code"
  | .file cause => "IO error: " ++ cause.message
  | .unsupportedFormat found =>
    "Unsupported bytecode format " ++ toString found ++ " (expected " ++ toString imageFormat ++ ")"

/-- The code of an image, if the image has the known format. -/
def Image.code (image : Image) : Except LoadError View :=
  if image.format = imageFormat then .ok (View.ofList image.instructions)
  else .error (.unsupportedFormat image.format)

namespace View

/-- The text form of code. -/
def toJson (v : View) : String := Json.print (Image.ofCode v.instructions).toTree

/-- Code from its text form. -/
def ofJson (text : String) : Except LoadError View :=
  match (Json.read? text).bind (Image.ofTree? Json.dialect) with
  | some image => image.code
  | none => .error .json

/-- The binary form of code. -/
def toMessagePack (v : View) : List UInt8 :=
  MessagePack.write (Image.ofCode v.instructions).toTree

/-- Code from its binary form. -/
def ofMessagePack (bytes : List UInt8) : Except LoadError View :=
  match (MessagePack.read? bytes).bind (Image.ofTree? MessagePack.dialect) with
  | some image => image.code
  | none => .error .messagePack

end View

/-- The last part of a path, without slashes at its end; the parts `.` in between count as
nothing. -/
def fileName? (path : String) : Option (List Char) :=
  let parts := (path.splitOn "/").filter fun part => part ≠ "" ∧ part ≠ "."
  match parts.getLast? with
  | some ".." | none => none
  | some part => some part.toList

/-- The extension of a file name: what follows its last point, unless the point comes first. -/
def extension? (name : List Char) : Option (List Char) :=
  let (extension, rest) := name.reverse.span fun c => c ≠ '.'
  match rest with
  | _ :: _ :: _ => some extension.reverse
  | _ => none

/-- Whether code under a path is saved in the text form. -/
def isJsonPath (path : String) : Bool :=
  match (fileName? path).bind extension? with
  | some extension => extension.map Char.toLower = "json".toList
  | none => false

/-- The content of the file in which code is saved under a path. -/
def View.fileContent (path : String) (v : View) : List UInt8 :=
  if isJsonPath path then Text.encodeUtf8 v.toJson else v.toMessagePack

/-- Code from the content of a file, or from why the file could not be read. -/
def View.ofFile (path : String) (content : Except FileError (List UInt8)) :
    Except LoadError View :=
  match content with
  | .error cause => .error (.file cause)
  | .ok bytes =>
    if isJsonPath path then
      match Text.decodeUtf8? bytes with
      | some text => ofJson text
      | none => .error (.file .notUtf8)
    else ofMessagePack bytes

end ScriptVM
