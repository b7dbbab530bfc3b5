/-!
# Errors of the operating system

The causes for which an operation on files fails, by the system's own number and text.
-/

namespace TypeLoom.Files

structure OsError where
  code : Nat
  text : String
  deriving DecidableEq, Inhabited, Repr

namespace OsError

def notFound : OsError := ⟨2, "No such file or directory"⟩

def alreadyExists : OsError := ⟨17, "File exists"⟩

def notADirectory : OsError := ⟨20, "Not a directory"⟩

def isADirectory : OsError := ⟨21, "Is a directory"⟩

def nameTooLong : OsError := ⟨36, "File name too long"⟩

def tooManyLinks : OsError := ⟨40, "Too many levels of symbolic links"⟩

/-- The errors whose texts are fixed. -/
def known : List OsError :=
  [⟨1, "Operation not permitted"⟩, notFound, ⟨5, "Input/output error"⟩, ⟨13, "Permission denied"⟩,
    ⟨16, "Device or resource busy"⟩, alreadyExists, notADirectory, isADirectory,
    ⟨22, "Invalid argument"⟩, ⟨23, "Too many open files in system"⟩, ⟨24, "Too many open files"⟩,
    ⟨26, "Text file busy"⟩, ⟨27, "File too large"⟩, ⟨28, "No space left on device"⟩,
    ⟨30, "Read-only file system"⟩, nameTooLong, tooManyLinks]

/-- The error with a number; `text` is used where the number is not a known one. -/
def ofCode (code : Nat) (text : String) : OsError :=
  (known.find? (·.code == code)).getD ⟨code, text⟩

def message (e : OsError) : String := s!"{e.text} (os error {e.code})"

end OsError

end TypeLoom.Files
