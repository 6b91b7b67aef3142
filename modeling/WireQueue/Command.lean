/-! # Commands

The first field of a request header says what is asked for. `Command.code` is the table and
`Command.ofCode?` searches it. -/

namespace WireQueue

/-- The minor protocol version that a client announces with `Command.version`. -/
def minorVersion : Nat := 13

inductive Command where
  /-- Announces the protocol version. -/
  | version
  /-- Subscribes to the changes of a value. -/
  | eventAdd
  /-- Ends a subscription. -/
  | eventCancel
  /-- Writes without notice of completion. -/
  | write
  /-- Resolves a channel name. -/
  | search
  /-- Suspends the updates of subscriptions. -/
  | eventsOff
  /-- Resumes the updates of subscriptions. -/
  | eventsOn
  /-- A barrier between reads. -/
  | readSync
  /-- Gives up a channel. -/
  | clearChannel
  /-- Reads with notice of completion. -/
  | readNotify
  /-- Sets up a channel. -/
  | createChannel
  /-- Writes with notice of completion. -/
  | writeNotify
  /-- Tells the user's name. -/
  | clientName
  /-- Tells the host's name. -/
  | hostName
  /-- Asks for a sign of life. -/
  | echo
  deriving DecidableEq

namespace Command

def all : List Command :=
  [version, eventAdd, eventCancel, write, search, eventsOff, eventsOn, readSync, clearChannel,
    readNotify, createChannel, writeNotify, clientName, hostName, echo]

def code : Command → UInt16
  | version => 0
  | eventAdd => 1
  | eventCancel => 2
  | write => 4
  | search => 6
  | eventsOff => 8
  | eventsOn => 9
  | readSync => 10
  | clearChannel => 12
  | readNotify => 15
  | createChannel => 18
  | writeNotify => 19
  | clientName => 20
  | hostName => 21
  | echo => 23

def ofCode? (code : UInt16) : Option Command :=
  all.find? fun command => command.code == code

def name : Command → String
  | version => "Version"
  | eventAdd => "EventAdd"
  | eventCancel => "EventCancel"
  | write => "Write"
  | search => "Search"
  | eventsOff => "EventsOff"
  | eventsOn => "EventsOn"
  | readSync => "ReadSync"
  | clearChannel => "ClearChannel"
  | readNotify => "ReadNotify"
  | createChannel => "CreateChannel"
  | writeNotify => "WriteNotify"
  | clientName => "ClientName"
  | hostName => "HostName"
  | echo => "Echo"

/-- Reading a command's code gives the command. -/
theorem ofCode?_code (command : Command) : ofCode? command.code = some command := by
  cases command <;> decide

end Command

end WireQueue
