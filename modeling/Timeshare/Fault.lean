/-!
# Faults

What can go wrong when a file is opened, read, created or written, and when a line of input is
decoded. Every fault has one message, which is what a log line or a complaint shows.
-/

namespace Timeshare

/-- Why reading or writing failed. -/
inductive Fault where
  | notFound
  | alreadyExists
  | notADirectory
  /-- A directory was read or written as if it were a file. -/
  | isADirectory
  | nameTooLong
  /-- The name holds the character U+0000. -/
  | nulInName
  | invalidText
  /-- Any other cause, in its own words. -/
  | other (text : String)
  deriving DecidableEq, Repr

/-- The wording of a fault; those of the file system carry their error number. -/
def Fault.message : Fault → String
  | notFound => "No such file or directory (os error 2)"
  | alreadyExists => "File exists (os error 17)"
  | notADirectory => "Not a directory (os error 20)"
  | isADirectory => "Is a directory (os error 21)"
  | nameTooLong => "File name too long (os error 36)"
  | nulInName => "file name contained an unexpected NUL byte"
  | invalidText => "stream did not contain valid UTF-8"
  | other text => text

end Timeshare
