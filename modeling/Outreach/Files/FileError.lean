/-!
# File Errors

The reasons for which the operating system refuses a file operation, with the words it uses.
-/

namespace Outreach

/-- Why a file operation failed, as far as the program tells the causes apart. Whatever else the
system says is kept as its text. -/
inductive FileError where
  /-- A name on the path stands for nothing. -/
  | notFound
  /-- A name that has to be a directory is a file. -/
  | notDirectory
  /-- A name that has to be a file is a directory. -/
  | isDirectory
  /-- The name to be made is taken. -/
  | alreadyExists
  /-- A name, or the whole path, is longer than the system allows. -/
  | nameTooLong
  /-- The path ends in the root, in `.` or in `..`, which cannot be replaced. -/
  | busy
  /-- The path holds the null character. -/
  | nullInPath
  /-- The file is not encoded text. -/
  | notText
  /-- Any other reason, in the words of the system. -/
  | other (words : String)
  deriving DecidableEq, Repr

/-- The words for an error, as the operating system gives them. They end the message of the
failure that an operation leads to. -/
def FileError.message : FileError → String
  | .notFound => "No such file or directory (os error 2)"
  | .notDirectory => "Not a directory (os error 20)"
  | .isDirectory => "Is a directory (os error 21)"
  | .alreadyExists => "File exists (os error 17)"
  | .nameTooLong => "File name too long (os error 36)"
  | .busy => "Device or resource busy (os error 16)"
  | .nullInPath => "file name contained an unexpected NUL byte"
  | .notText => "stream did not contain valid UTF-8"
  | .other words => words

end Outreach
