import CnfSolver.Event
import CnfSolver.Session
import CnfSolver.Text.Characters

/-!
# Command line options

An option is spelled by one dash and a letter, or by two dashes and a name that may be cut short as
long as it fits one option only. A value follows as the next argument or stands in the same one,
behind an equals sign or directly behind the letter. Two dashes in place of a value in the same
argument leave it out. Of the three sources of clauses only one may be used.
-/

namespace CnfSolver

/-- What the command line asks for. A value that is left out is `none`, so a benchmark directory
that is left out is `some none`. -/
structure Options where
  input : List (Option String)
  clause : List (Option String)
  bench : Option (Option String)
  format : Option Format
  check : Bool
  logLevel : Option Level
  deriving DecidableEq, Repr

namespace Options

def default : Options := ⟨[], [], none, some .string, false, some .default⟩

inductive Flag where
  | help
  | input
  | clause
  | bench
  | format
  | check
  | logLevel
  deriving DecidableEq, Repr

namespace Flag

def takesValue : Flag → Bool
  | help | check => false
  | input | clause | bench | format | logLevel => true

def letters : List (Char × Flag) :=
  [('h', help), ('i', input), ('c', clause), ('b', bench), ('f', format), ('l', logLevel)]

def names : List (String × Flag) :=
  [("help", help), ("input", input), ("clause", clause), ("bench", bench), ("format", format),
    ("check", check), ("log-level", logLevel)]

def ofLetter? (c : Char) : Option Flag := letters.lookup c

def name : Flag → String
  | help => "help"
  | input => "input"
  | clause => "clause"
  | bench => "bench"
  | format => "format"
  | check => "check"
  | logLevel => "log-level"

def title : Flag → String
  | help => "-h/--help"
  | input => "-i/--input"
  | clause => "-c/--clause"
  | bench => "-b/--bench"
  | format => "-f/--format"
  | check => "--check"
  | logLevel => "-l/--log-level"

def choices : Flag → List String
  | format => Format.all.map Format.name
  | logLevel => Level.all.map Level.name
  | _ => []

/-- The flags whose name begins with `start`. A whole name stands for itself alone. -/
def ofStart (start : List Char) : List Flag :=
  match names.lookup (String.ofList start) with
  | some flag => [flag]
  | none => (names.filter fun entry => start.isPrefixOf entry.1.toList).map (·.2)

end Flag

inductive Argument where
  | plain (text : String)
  /-- Two dashes alone, behind which every argument is plain. -/
  | dashes
  /-- A flag spelled by its letter, with the text behind it or behind an equals sign. -/
  | short (flag : Flag) (text : Option (List Char))
  /-- A flag spelled by its name, with the text behind an equals sign. -/
  | long (flag : Flag) (text : Option (List Char))
  /-- It looks like an option, but there is none of that spelling. -/
  | unknown (text : String)
  deriving DecidableEq, Repr

inductive Complaint where
  | ambiguous (text : String) (flags : List Flag)
  | ignoredValue (flag : Flag) (value : List Char)
  | missingValue (flag : Flag)
  | conflict (flag other : Flag)
  | unknownValue (flag : Flag) (value : String)
  | leftover (texts : List String)
  deriving DecidableEq, Repr

def Complaint.message : Complaint → String
  | ambiguous text flags =>
      let matching := ", ".intercalate (flags.map fun flag => "--" ++ flag.name)
      s!"ambiguous option: {text} could match {matching}"
  | ignoredValue flag value =>
      let shown := Text.quoted (String.ofList value)
      s!"argument {flag.title}: ignored explicit argument {shown}"
  | missingValue flag => s!"argument {flag.title}: expected one argument"
  | conflict flag other => s!"argument {flag.title}: not allowed with argument {other.title}"
  | unknownValue flag value =>
      let choices := ", ".intercalate (flag.choices.map Text.quoted)
      s!"argument {flag.title}: invalid choice: {Text.quoted value} (choose from {choices})"
  | leftover texts => "unrecognized arguments: " ++ " ".intercalate texts

inductive Stop where
  | help
  | usage (complaint : Complaint)
  deriving DecidableEq, Repr

def Stop.status : Stop → Nat
  | help => 0
  | usage _ => 2

/-- A minus sign and digits, with at most one point among them and a digit behind it. A line end may
follow. -/
def isNegativeNumber : List Char → Bool
  | '-' :: cs =>
      let body := if cs.getLast? = some '\n' then cs.dropLast else cs
      let fraction := body.dropWhile Text.isDigit
      match fraction with
      | [] => !body.isEmpty
      | '.' :: digits => !digits.isEmpty && digits.all Text.isDigit
      | _ => false
  | _ => false

/-- An argument that begins with a dash but is no option: a plain one if it is a negative number or
holds a space. -/
def withoutFlag (text : List Char) : Argument :=
  if isNegativeNumber text || text.contains ' ' then .plain (String.ofList text)
  else .unknown (String.ofList text)

def splitEquals (cs : List Char) : List Char × Option (List Char) :=
  (cs.takeWhile (· != '='), (cs.dropWhile (· != '=')).tail?)

/-- Reads an argument by itself. A shortened name that fits several options is an error. -/
def classify (text : String) : Except Stop Argument :=
  match text.toList with
  | ['-', '-'] => .ok .dashes
  | '-' :: '-' :: cs =>
      let (start, behind) := splitEquals cs
      match Flag.ofStart start with
      | [] => .ok (withoutFlag text.toList)
      | [flag] => .ok (.long flag behind)
      | flags => .error (.usage (.ambiguous text flags))
  | '-' :: c :: cs =>
      match Flag.ofLetter? c with
      | none => .ok (withoutFlag text.toList)
      | some flag =>
          .ok (.short flag
            (match cs with
            | [] => none
            | '=' :: behind => some behind
            | behind => some behind))
  | _ => .ok (.plain text)

def classifyAll : List String → Except Stop (List Argument)
  | [] => .ok []
  | text :: texts =>
      match classify text with
      | .error stop => .error stop
      | .ok .dashes => .ok (.dashes :: texts.map .plain)
      | .ok argument =>
          match classifyAll texts with
          | .error stop => .error stop
          | .ok arguments => .ok (argument :: arguments)

/-- A flag as it is given, with its value if it takes one that is not left out. -/
structure Setting where
  flag : Flag
  value : Option String
  deriving DecidableEq, Repr

/-- What an argument says by itself: the settings that it makes, the flag that waits for the next
argument as its value, and the texts that are left over. -/
structure Reading where
  settings : List Setting
  waiting : Option Flag
  leftover : List String
  deriving DecidableEq, Repr

def readBare (flag : Flag) : Reading :=
  if flag.takesValue then ⟨[], some flag, []⟩ else ⟨[⟨flag, none⟩], none, []⟩

def joinedValue (text : List Char) : Option String :=
  if text = ['-', '-'] then none else some (String.ofList text)

def readJoined (flag : Flag) (text : List Char) : Except Stop Reading :=
  if flag.takesValue then .ok ⟨[⟨flag, joinedValue text⟩], none, []⟩
  else .error (.usage (.ignoredValue flag text))

/-- A flag spelled by its letter with text behind it: its value or, if it takes none, more
letters. -/
def readLetters (flag : Flag) : List Char → Except Stop Reading
  | [] => readJoined flag []
  | c :: cs =>
      if flag.takesValue then readJoined flag (c :: cs)
      else
        match Flag.ofLetter? c with
        | none => .error (.usage (.ignoredValue flag (c :: cs)))
        | some next =>
            let reading := if cs.isEmpty then .ok (readBare next) else readLetters next cs
            reading.map fun r => { r with settings := ⟨flag, none⟩ :: r.settings }

def Argument.read : Argument → Except Stop Reading
  | plain text | unknown text => .ok ⟨[], none, [text]⟩
  | dashes => .ok ⟨[], none, ["--"]⟩
  | short flag none | long flag none => .ok (readBare flag)
  | short flag (some text) => readLetters flag text
  | long flag (some text) => readJoined flag text

def set (o : Options) (s : Setting) : Except Stop Options :=
  match s.flag with
  | .help => .error .help
  | .check => .ok { o with check := true }
  | .input =>
      if o.clause.isEmpty && o.bench.isNone then .ok { o with input := o.input ++ [s.value] }
      else .error (.usage (.conflict s.flag (if o.clause.isEmpty then .bench else .clause)))
  | .clause =>
      if o.input.isEmpty && o.bench.isNone then .ok { o with clause := o.clause ++ [s.value] }
      else .error (.usage (.conflict s.flag (if o.input.isEmpty then .bench else .input)))
  | .bench =>
      if o.input.isEmpty && o.clause.isEmpty then .ok { o with bench := some s.value }
      else .error (.usage (.conflict s.flag (if o.input.isEmpty then .clause else .input)))
  | .format =>
      match s.value with
      | none => .ok { o with format := none }
      | some value =>
          match Format.ofName? value with
          | some format => .ok { o with format }
          | none => .error (.usage (.unknownValue s.flag value))
  | .logLevel =>
      match s.value with
      | none => .ok { o with logLevel := none }
      | some value =>
          match Level.ofName? (Text.upper value) with
          | some logLevel => .ok { o with logLevel }
          | none => .error (.usage (.unknownValue s.flag (Text.upper value)))

/-- Goes through the arguments in order. Arguments that no option takes are an error in the end. -/
def consume (o : Options) (leftover : List String) : List Argument → Except Stop Options
  | [] => if leftover.isEmpty then .ok o else .error (.usage (.leftover leftover))
  | argument :: rest =>
      match argument.read with
      | .error stop => .error stop
      | .ok r =>
          match r.waiting, rest with
          | none, rest =>
              (r.settings.foldlM set o).bind fun o => consume o (leftover ++ r.leftover) rest
          | some flag, .plain value :: rest =>
              ((r.settings ++ [Setting.mk flag (some value)]).foldlM set o).bind fun o =>
                consume o (leftover ++ r.leftover) rest
          | some flag, _ => .error (.usage (.missingValue flag))

def parse (argv : List String) : Except Stop Options :=
  match classifyAll argv with
  | .error stop => .error stop
  | .ok arguments => consume default [] arguments

end Options

end CnfSolver
