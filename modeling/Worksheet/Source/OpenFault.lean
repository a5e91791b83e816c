import Worksheet.Text.Quoted

/-! # Refused files

Why the operating system does not open a file: its number for the cause, and its words.
-/
namespace Worksheet
open Text

structure OpenFault where
  code : Nat
  description : Text
deriving DecidableEq, Repr

namespace OpenFault

def notFound : OpenFault := ⟨2, "No such file or directory".toList⟩

def notPermitted : OpenFault := ⟨13, "Permission denied".toList⟩

def notAFolder : OpenFault := ⟨20, "Not a directory".toList⟩

def isAFolder : OpenFault := ⟨21, "Is a directory".toList⟩

def nameTooLong : OpenFault := ⟨36, "File name too long".toList⟩

def known : List OpenFault :=
  [notFound, notPermitted, notAFolder, isAFolder, nameTooLong]

/-- The fault with a number; the given words serve only for one that is not known. -/
def ofCode (code : Nat) (description : Text) : OpenFault :=
  (known.find? (·.code = code)).getD ⟨code, description⟩

def message (f : OpenFault) (path : Text) : Text :=
  "[Errno ".toList ++ Nat.toDigits 10 f.code ++ "] ".toList ++ f.description ++
    ": ".toList ++ quote path

end OpenFault

end Worksheet
