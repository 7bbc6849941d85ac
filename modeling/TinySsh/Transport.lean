/-!
# The SSH transport

What the session driver sees of the SSH library (`transport/ssh`): the errors with their texts, the messages a channel
yields, and the events `SshSession::next_event` makes of them. The texts of the library's own errors are opaque.
-/

namespace TinySsh

/-- `SshError`; a source is the text of the library's error. -/
inductive SshError
  | connect (source : String)
  | authRejected
  | auth (source : String)
  | keyLoad (path source : String)
  | channelOpen (source : String)
  | pty (source : String)
  | shell (source : String)
  | write (source : String)
  | resize (source : String)
  | connectTimeout (duration : String)
  | closed
  | other (source : String)
deriving DecidableEq

def SshError.toString : SshError → String
  | .connect e => "connection failed: " ++ e
  | .authRejected => "authentication rejected by server"
  | .auth e => "authentication error: " ++ e
  | .keyLoad path e => "failed to load private key from " ++ path ++ ": " ++ e
  | .channelOpen e => "failed to open channel: " ++ e
  | .pty e => "PTY request failed: " ++ e
  | .shell e => "shell request failed: " ++ e
  | .write e => "write failed: " ++ e
  | .resize e => "resize failed: " ++ e
  | .connectTimeout d => "connect timed out after " ++ d
  | .closed => "session is already closed"
  | .other e => "ssh error: " ++ e

/-- A message of the channel; `other` stands for the kinds that `next_event` skips. -/
inductive ChannelMsg
  | data (data : List UInt8)
  | extendedData (data : List UInt8) (ext : Nat)
  | eof
  | exitStatus (status : Nat)
  | close
  | other
deriving DecidableEq

/-- Events of the remote shell. -/
inductive SshEvent
  | data (d : List UInt8)
  | stderr (d : List UInt8)
  | eof
  | exitStatus (status : Nat)
  | closed
deriving DecidableEq

/-- The `match` of `SshSession::next_event`: the event of a message, `none` where the loop continues. -/
def ChannelMsg.event : ChannelMsg → Option SshEvent
  | .data d => some (.data d)
  | .extendedData d ext => if ext = 1 then some (.stderr d) else none
  | .eof => some .eof
  | .exitStatus s => some (.exitStatus s)
  | .close => some .closed
  | .other => none

end TinySsh
