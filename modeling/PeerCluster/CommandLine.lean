import PeerCluster.Net.Reader
import PeerCluster.Settings.Load

/-!
# The command line

A node is told on its command line where its settings file is, and which settings differ from it.

* `--name value` and `--name=value` give a setting. Two settings have a short name too, and the
  value may follow it at once, behind an equals sign, or as the next argument.
* A value that is the next argument does not begin with a hyphen, unless it is one.
* Nothing is given twice, and nothing stands without a name. After `--` nothing may follow.

Arguments are taken from left to right. The first that asks for help, or is not acceptable, ends the
reading.
-/

namespace PeerCluster.CommandLine

/-- A setting that the command line can give. -/
inductive Key where
  /-- The settings file. -/
  | config
  /-- Where the data channel listens. -/
  | listen
  /-- The port of the heartbeats. -/
  | port
  /-- The multicast group of the heartbeats. -/
  | address
  | domain
  deriving DecidableEq, Repr

/-- What a command line tells a node. -/
structure Options where
  config : Option String := none
  listen : Option SocketAddress := none
  port : Option UInt16 := none
  address : Option IPAddress := none
  domain : Option String := none
  /-- Whether the log is told in full. -/
  verbose : Bool := false
  deriving DecidableEq, Repr

/-- Why a command line is not acceptable. -/
inductive Misuse where
  /-- Nothing is known by this name. -/
  | unknown (argument : String)
  | missingValue (key : Key)
  /-- A value where none belongs. -/
  | strayValue (value : String)
  | repeatedKey (key : Key)
  | repeatedVerbose
  | badValue (key : Key) (value : String)
  deriving DecidableEq, Repr

/-- What a command line asks for. -/
inductive Request where
  | help
  | run (options : Options)
  deriving DecidableEq, Repr

/-! ## Names -/

/-- The name of a setting. -/
def Key.name : Key → String
  | config => "config"
  | listen => "listen"
  | port => "port"
  | address => "address"
  | domain => "domain"

/-- The setting of a name. -/
def Key.ofName? : String → Option Key
  | "config" => some config
  | "listen" => some listen
  | "port" => some port
  | "address" => some address
  | "domain" => some domain
  | _ => none

/-- The setting of a short name. -/
def Key.ofShortName? : Char → Option Key
  | 'c' => some config
  | 'l' => some listen
  | _ => none

/-! ## Arguments -/

/-- What one argument is. -/
inductive Argument where
  | help
  | verbose
  /-- A setting, with its value if that is part of the argument. -/
  | setting (key : Key) (value : Option String)
  /-- Two hyphens. -/
  | last
  /-- A value where none belongs. -/
  | stray (value : String)
  /-- Something that begins with a hyphen and is nothing of the above. -/
  | unknown
  /-- Something that may be a value. -/
  | plain

/-- The argument that consists of two hyphens, a name, and perhaps an equals sign and a value. -/
def Argument.ofLong (text : List Char) : Argument :=
  let name := String.ofList (text.takeWhile (· ≠ '='))
  let value := match text.dropWhile (· ≠ '=') with
    | _ :: value => some (String.ofList value)
    | [] => none
  match name, value with
  | "help", none => .help
  | "verbose", none => .verbose
  | "help", some value | "verbose", some value => .stray value
  | _, _ =>
    match Key.ofName? name with
    | some key => .setting key value
    | none => .unknown

/-- The argument that consists of a hyphen, a short name, and perhaps a value. -/
def Argument.ofShort (name : Char) (text : List Char) : Argument :=
  if name = 'h' then .help
  else match Key.ofShortName? name, text with
    | none, _ => .unknown
    | some key, [] => .setting key none
    | some key, '=' :: value => .setting key (some (String.ofList value))
    | some key, value => .setting key (some (String.ofList value))

/-- What one argument is. -/
def Argument.ofText (text : String) : Argument :=
  match text.toList with
  | ['-', '-'] => .last
  | '-' :: '-' :: rest => ofLong rest
  | '-' :: name :: rest => ofShort name rest
  | _ => .plain

/-! ## Values -/

/-- The port that a text names: a number that may have a sign. -/
def port? (text : String) : Option UInt16 :=
  let (negative, digits) := match text.toList with
    | '-' :: rest => (true, rest)
    | '+' :: rest => (false, rest)
    | cs => (false, cs)
  match Net.number? .plain UInt16.size digits with
  | some (n, []) => if negative && n != 0 then none else some n.toUInt16
  | _ => none

/-- Gives a setting a value. -/
def Options.give (o : Options) (key : Key) (value : String) : Except Misuse Options :=
  match key with
  | .config => once o.config (if value.isEmpty then none else some value)
      fun config => { o with config }
  | .listen => once o.listen (SocketAddress.ofText? value) fun listen => { o with listen }
  | .port => once o.port (port? value) fun port => { o with port }
  | .address => once o.address (IPAddress.ofText? value) fun address => { o with address }
  | .domain => once o.domain (some value) fun domain => { o with domain }
where
  /-- The options with a setting that was not given before. -/
  once {α : Type} (before found : Option α) (result : Option α → Options) : Except Misuse Options :=
    if before.isSome then .error (.repeatedKey key)
    else if found.isSome then .ok (result found)
    else .error (.badValue key value)

/-! ## Reading -/

/-- What the next argument may be. -/
inductive Expecting where
  | anything
  /-- The value of a setting. -/
  | value (key : Key)
  | nothing
  deriving DecidableEq, Repr

/-- How far the reading is. -/
structure Reading where
  options : Options := {}
  expecting : Expecting := .anything

/-- Why the reading ends at an argument. -/
inductive Stop where
  | help
  | misuse (reason : Misuse)

/-- Takes an argument where anything may stand. -/
def Reading.takeAny (r : Reading) (text : String) : Except Stop Reading :=
  match Argument.ofText text with
  | .help => .error .help
  | .verbose =>
    if r.options.verbose then .error (.misuse .repeatedVerbose)
    else .ok { r with options := { r.options with verbose := true } }
  | .setting key none => .ok { r with expecting := .value key }
  | .setting key (some value) =>
    ((r.options.give key value).map fun options => { r with options }).mapError .misuse
  | .last => .ok { r with expecting := .nothing }
  | .stray value => .error (.misuse (.strayValue value))
  | .unknown | .plain => .error (.misuse (.unknown text))

/-- Takes an argument. -/
def Reading.take (r : Reading) (text : String) : Except Stop Reading :=
  match r.expecting with
  | .anything => r.takeAny text
  | .value key =>
    match Argument.ofText text with
    | .plain => ((r.options.give key text).map fun options => ⟨options, .anything⟩).mapError .misuse
    | _ => .error (.misuse (.missingValue key))
  | .nothing => .error (.misuse (.unknown text))

/-- What a command line asks for. -/
def read (arguments : List String) : Except Misuse Request :=
  match arguments.foldlM Reading.take {} with
  | .error .help => .ok .help
  | .error (.misuse reason) => .error reason
  | .ok ⟨_, .value key⟩ => .error (.missingValue key)
  | .ok ⟨options, _⟩ => .ok (.run options)

/-! ## Settings -/

/-- The settings with those that the command line gives in their place. -/
def Options.override (o : Options) (s : Settings) : Settings :=
  { s with
    listening := { s.listening with listen := o.listen.getD s.listening.listen }
    membership := { s.membership with
      port := o.port.getD s.membership.port
      address := o.address.getD s.membership.address
      domain := o.domain.or s.membership.domain } }

/-- The settings of a node whose settings file is as given. The file alone has to make sense, and so
has what the command line makes of it. -/
def Options.settings (o : Options) (file : Settings.File) : Except Settings.LoadError Settings := do
  let s := o.override (← Settings.load file)
  match s.check with
  | .ok () => return s
  | .error cause => throw (.unusable cause)

/-! ## Texts -/

/-- What is shown to somebody who asks for help. -/
def help : String :=
  "Cluster membership and replication node\n\n" ++
  "Usage: cluster-node [OPTIONS]\n\n" ++
  "Options:\n" ++
  "  -c, --config <CONFIG>    Path to a JSON config file\n" ++
  "  -l, --listen <LISTEN>    Address to listen on for replication traffic\n" ++
  "      --port <PORT>        Multicast port\n" ++
  "      --address <ADDRESS>  Multicast group address\n" ++
  "      --domain <DOMAIN>    Only track members announcing the same domain\n" ++
  "      --verbose            Enable verbose logging\n" ++
  "  -h, --help               Print help\n"

/-- How a misuse is described to a reader. -/
def Misuse.message : Misuse → String
  | unknown argument => "unexpected argument '" ++ argument ++ "' found"
  | missingValue key => "a value is required for '--" ++ key.name ++ "' but none was supplied"
  | strayValue value => "unexpected value '" ++ value ++ "' found; no more were expected"
  | repeatedKey key => "the argument '--" ++ key.name ++ "' cannot be used multiple times"
  | repeatedVerbose => "the argument '--verbose' cannot be used multiple times"
  | badValue key value => "invalid value '" ++ value ++ "' for '--" ++ key.name ++ "'"

end PeerCluster.CommandLine
