import Resolution.Text.Quoted

/-!
# What a program needs from its surroundings

Files, two output streams, a key and a text service. Programs are written against this interface, so
that they run in `IO` as well as in a model of their surroundings that can be reasoned about.

Files hold bytes. A text file may end its lines with a line feed, a carriage return or both; inside
the program a line ends with a line feed.
-/

namespace Resolution

inductive FileFault where
  | missing
  | isDirectory
  | notDirectory
  | nullCharacter
  | nameTooLong
  | noSpace
  | denied
  deriving DecidableEq, Repr

structure FileError where
  fault : FileFault
  path : String
  deriving DecidableEq, Repr

def FileError.message (e : FileError) : String :=
  match e.fault with
  | .missing => "[Errno 2] No such file or directory: " ++ Text.quoted e.path
  | .denied => "[Errno 13] Permission denied: " ++ Text.quoted e.path
  | .notDirectory => "[Errno 20] Not a directory: " ++ Text.quoted e.path
  | .isDirectory => "[Errno 21] Is a directory: " ++ Text.quoted e.path
  | .noSpace => "[Errno 28] No space left on device"
  | .nameTooLong => "[Errno 36] File name too long: " ++ Text.quoted e.path
  | .nullCharacter => "embedded null byte"

/-- A question to the text service, with the model named for it if one was named. -/
structure Request where
  model : Option String
  maxTokens : Nat
  content : String
  deriving DecidableEq, Repr

class Host (m : Type → Type) where
  /-- The key for the text service, if one is set. -/
  serviceKey : m (Option String)
  /-- Opens the service with a key; false if the service is not installed. -/
  connect : Option String → m Bool
  /-- Asks the service; `none` if its answer has no content. -/
  ask : Request → m (Option String)
  readFile : String → m (Except FileError ByteArray)
  writeFile : String → String → m (Except FileError Unit)
  out : String → m Unit
  err : String → m Unit

namespace Text

def unifyLineEnds : List Char → List Char
  | [] => []
  | '\r' :: '\n' :: rest => '\n' :: unifyLineEnds rest
  | '\r' :: rest => '\n' :: unifyLineEnds rest
  | c :: rest => c :: unifyLineEnds rest

/-- The text of a file, if its bytes are valid UTF-8. -/
def ofFileBytes? (bytes : ByteArray) : Option String :=
  (String.fromUTF8? bytes).map fun text => String.ofList (unifyLineEnds text.toList)

end Text

end Resolution
