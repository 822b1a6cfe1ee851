import FileSearch.Text.Basic

/-!
The reasons for which a file system refuses a request, with the number and the wording of each.
-/

namespace FileSearch

inductive Errno where
  | noEntry
  | busy
  | notDirectory
  | isDirectory
  | invalid
  | nameTooLong
  | notEmpty
  | tooManyLinks
  deriving DecidableEq, Repr

def Errno.number : Errno → Nat
  | .noEntry => 2
  | .busy => 16
  | .notDirectory => 20
  | .isDirectory => 21
  | .invalid => 22
  | .nameTooLong => 36
  | .notEmpty => 39
  | .tooManyLinks => 40

def Errno.wording : Errno → Text
  | .noEntry => "No such file or directory".toList
  | .busy => "Device or resource busy".toList
  | .notDirectory => "Not a directory".toList
  | .isDirectory => "Is a directory".toList
  | .invalid => "Invalid argument".toList
  | .nameTooLong => "File name too long".toList
  | .notEmpty => "Directory not empty".toList
  | .tooManyLinks => "Too many levels of symbolic links".toList

end FileSearch
