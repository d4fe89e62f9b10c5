/-!
# Failures of files and streams

What reading and writing can run into. A failure that the operating system reports has a number and
a text of its own; the others are found by the library.
-/

namespace PeerCluster

/-- A failure that the operating system reports. -/
inductive OsError where
  | isADirectory
  | invalidArgument
  | noSuchDevice
  | brokenPipe
  | addressInUse
  | addressNotAvailable
  | networkUnreachable
  | connectionReset
  | timedOut
  | connectionRefused
  /-- Any other failure, by its number and text. -/
  | other (code : Nat) (text : String)
  deriving DecidableEq, Repr

namespace OsError

/-- The number of a failure. -/
def code : OsError → Nat
  | isADirectory => 21
  | invalidArgument => 22
  | noSuchDevice => 19
  | brokenPipe => 32
  | addressInUse => 98
  | addressNotAvailable => 99
  | networkUnreachable => 101
  | connectionReset => 104
  | timedOut => 110
  | connectionRefused => 111
  | other code _ => code

/-- The text of a failure. -/
def text : OsError → String
  | isADirectory => "Is a directory"
  | invalidArgument => "Invalid argument"
  | noSuchDevice => "No such device"
  | brokenPipe => "Broken pipe"
  | addressInUse => "Address already in use"
  | addressNotAvailable => "Cannot assign requested address"
  | networkUnreachable => "Network is unreachable"
  | connectionReset => "Connection reset by peer"
  | timedOut => "Connection timed out"
  | connectionRefused => "Connection refused"
  | other _ text => text

/-- The failure of a number, with its text in case it is none of those known. -/
def ofCode (code : Nat) (text : String) : OsError :=
  let known := [isADirectory, invalidArgument, noSuchDevice, brokenPipe, addressInUse,
    addressNotAvailable, networkUnreachable, connectionReset, timedOut, connectionRefused]
  (known.find? fun e => e.code == code).getD (other code text)

end OsError

/-- Why reading or writing failed. -/
inductive IoFault where
  | os (error : OsError)
  /-- A stream ended inside a frame. -/
  | earlyEnd
  /-- The other side of a stream is gone. -/
  | brokenPipe
  /-- A write did not finish in time. -/
  | writeTimedOut
  /-- A host name has no address. -/
  | noAddress (name : String)
  /-- A file is not text. -/
  | notText
  /-- What was to be written is not acceptable. -/
  | invalidData (reason : String)
  /-- A failure known only by its description. -/
  | other (description : String)
  deriving DecidableEq, Repr

/-- How a failure is described to a reader. -/
def IoFault.message : IoFault → String
  | os error => error.text ++ s!" (os error {error.code})"
  | earlyEnd => "early eof"
  | brokenPipe => "broken pipe"
  | writeTimedOut => "write timed out"
  | noAddress name => "No address for " ++ name
  | notText => "stream did not contain valid UTF-8"
  | invalidData reason => reason
  | other description => description

end PeerCluster
