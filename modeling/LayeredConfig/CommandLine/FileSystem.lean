/-!
# Files

What the commands see of a file system: the text of a file or the reason why it cannot be read, and
where a written text goes or why it cannot be written.
-/

namespace LayeredConfig.CommandLine

/-- Why a file cannot be read or written. -/
inductive FileFault where
  | missing
  /-- There is a file where a directory would have to be. -/
  | notDirectory
  /-- There is a directory where a file would have to be. -/
  | isDirectory
  | noSpace
  | nameTooLong
  /-- A reason that the system gives. -/
  | other (reason : String)
deriving DecidableEq, Repr

/-- The wording of a fault. -/
def FileFault.message : FileFault → String
  | .missing => "No such file or directory (os error 2)"
  | .notDirectory => "Not a directory (os error 20)"
  | .isDirectory => "Is a directory (os error 21)"
  | .noSpace => "No space left on device (os error 28)"
  | .nameTooLong => "File name too long (os error 36)"
  | .other reason => reason

/-- Where a written text goes. -/
inductive Sink where
  /-- Into the file, where it can be read again. -/
  | file
  /-- To what the program writes itself, before that. -/
  | stdout
  | stderr
  /-- It is gone. -/
  | nothing
deriving DecidableEq, Repr

/-- A file system, with reasons for what it refuses. -/
structure FileSystem where
  /-- The text of a file. -/
  read : String → Except FileFault String
  /-- Where a text goes that is written to a file. -/
  sink : String → Except FileFault Sink

end LayeredConfig.CommandLine
