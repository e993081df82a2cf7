import MonkeyFront.Files.Path
import MonkeyFront.Text.Lines
import MonkeyFront.Text.Quoted

namespace MonkeyFront

/-- Why a path yields no bytes: nothing is there, the path goes on behind a file, it leads to a
folder, it or one of its names is too long, it holds the null character, or something else that has
a number and a wording. -/
inductive FileError where
  | missing
  | notFolder
  | isFolder
  | tooLong
  | nullCharacter
  | other (number : Nat) (reason : String)
  deriving DecidableEq, Repr

namespace FileError

def number : FileError → Nat
  | missing => 2
  | notFolder => 20
  | isFolder => 21
  | nullCharacter => 22
  | tooLong => 36
  | other number _ => number

def reason : FileError → String
  | missing => "No such file or directory"
  | notFolder => "Not a directory"
  | isFolder => "Is a directory"
  | nullCharacter => "embedded null byte"
  | tooLong => "File name too long"
  | other _ reason => reason

/-- Whether a path with this error is known to lead to no file. Of the other reasons this is so for
a descriptor that is not open, 9, and for links that lead in a circle, 40. -/
def meansNoFile : FileError → Bool
  | tooLong => false
  | other number _ => number = 9 || number = 40
  | _ => true

def message (e : FileError) (p : Path) : String :=
  "[Errno " ++ toString e.number ++ "] " ++ e.reason ++ ": " ++ quoted p.text

end FileError

structure Disk where
  read : Path → Except FileError ByteArray

namespace Disk

end Disk

inductive Entry where
  | file (bytes : ByteArray)
  | folder

/-- The entries of a disk, by the names that lead to them. -/
abbrev Entries := List (List String × Entry)

namespace Entries

/-- What stands at a place: an entry, or a folder that an entry lies in. -/
def at? (entries : Entries) (place : List String) : Option Entry :=
  match entries.lookup place with
  | some entry => some entry
  | none =>
    if place = [] || entries.any (fun e => place.isPrefixOf e.1) then some .folder else none

/-- Follows names from a folder, given by the names that lead to it in reverse; `none` is any
folder above the one in which the program runs, of which nothing is known but that it is there. -/
def follow (entries : Entries) : Option (List String) → List String → Except FileError Entry
  | _, [] => .ok .folder
  | place, name :: names =>
    if name = Path.up then
      match place with
      | some (_ :: above) => follow entries (some above) names
      | _ => follow entries none names
    else
      match place.bind fun place => entries.at? (name :: place).reverse, names with
      | none, _ => .error (if Path.nameLimit < name.utf8ByteSize then .tooLong else .missing)
      | some (.file bytes), [] => .ok (.file bytes)
      | some (.file _), _ => .error .notFolder
      | some .folder, names => follow entries (place.map (name :: ·)) names

def disk (entries : Entries) : Disk where
  read p :=
    if p.text.contains '\x00' then .error .nullCharacter
    else if Path.sizeLimit < p.text.utf8ByteSize then .error .tooLong
    else
      match entries.follow (if p.root = "" then some [] else none) p.names with
      | .ok (.file bytes) => .ok bytes
      | .ok .folder => .error .isFolder
      | .error e => .error e

end Entries

/-- The text that bytes write, if they are well formed. -/
def decoded? (bytes : ByteArray) : Option String := String.fromUTF8? bytes

end MonkeyFront
