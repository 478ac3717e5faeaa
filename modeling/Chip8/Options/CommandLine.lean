import Chip8.Options

/-!
Reading options from the words of a command line.

A word is an option with a long name, a row of one-letter switches, the mark after which every
word is plain, or plain.  A plain word is the value of the setting named just before it, or else
the input, of which there is one.  `scan` goes through the words from left to right and stops at
the first that has no meaning or asks for help; `Scan.finish` then checks that the input is there,
that settings have values, and that nothing is given twice.
-/

namespace Chip8

/-- Why a command line starts no program. -/
inductive Refusal
  | missingInput
  /-- A word is no option, or a second input. -/
  | unknownArgument (word : String)
  /-- A setting is named without a value. -/
  | emptyValue (name : String)
  /-- The value of a setting is no number of its range. -/
  | invalidValue (name value : String)
  /-- A setting or a switch is given more than once. -/
  | repeated (name : String)
  | help
  | version
  deriving DecidableEq, Repr

namespace CommandLine

/-- An option that takes a number. -/
inductive Setting
  | rate
  | seed
  | duration
  deriving DecidableEq, Repr

/-- An option that is on when it is given. -/
inductive Switch
  | shiftVx
  | keepIndex
  | indexOverflow
  | verbose
  | help
  | version
  deriving DecidableEq, Repr

/-- What the name of an option stands for. -/
inductive Meaning
  | setting (setting : Setting)
  | switch (switch : Switch)
  deriving DecidableEq, Repr

def Setting.name : Setting → String
  | rate => "hz"
  | seed => "seed"
  | duration => "duration"

/-- The numbers a setting can have are those below this one. -/
def Setting.bound : Setting → Nat
  | rate => UInt32.size
  | seed => UInt64.size
  | duration => UInt64.size

def Switch.name : Switch → String
  | shiftVx => "shift-vx"
  | keepIndex => "keep-index"
  | indexOverflow => "index-overflow"
  | verbose => "verbose"
  | help => "help"
  | version => "version"

/-- The settings, each of which may be given once. -/
def settings : List Setting :=
  [.rate, .seed, .duration]

def switches : List Switch :=
  [.shiftVx, .keepIndex, .indexOverflow, .verbose, .help, .version]

def ofLongName? (name : String) : Option Meaning :=
  match settings.find? (·.name == name) with
  | some setting => some (.setting setting)
  | none => (switches.find? (·.name == name)).map .switch

def ofLetter? : Char → Option Switch
  | 'v' => some .verbose
  | 'h' => some .help
  | 'V' => some .version
  | _ => none

inductive Form
  /-- The mark after which every word is plain. -/
  | endOfOptions
  /-- A long name, and the value written behind its equals sign. -/
  | long (name : String) (value : Option String)
  | letters (letters : List Char)
  | plain
  deriving DecidableEq, Repr

/-- The form of a word that starts with two hyphens: more of them count for nothing, and neither
do more equals signs. -/
def longForm (word : List Char) : Form :=
  let body := word.dropWhile (· == '-')
  let name := String.ofList (body.takeWhile (· != '='))
  match body.dropWhile (· != '=') with
  | [] => .long name none
  | value => .long name (some (String.ofList (value.dropWhile (· == '='))))

/-- The form of a word; a lone hyphen is plain. -/
def form (word : String) : Form :=
  match word.toList with
  | ['-', '-'] => .endOfOptions
  | '-' :: '-' :: rest => longForm rest
  | '-' :: letter :: rest => .letters (letter :: rest)
  | _ => .plain

/-- What has been found in the words so far. -/
structure Scan where
  named : List Setting
  values : List (Setting × String)
  given : List Switch
  input : Option String
  /-- The setting whose value may come next. -/
  expecting : Option Setting
  /-- Every word from here on is plain. -/
  onlyPlain : Bool
  deriving DecidableEq, Repr

namespace Scan

def empty : Scan where
  named := []
  values := []
  given := []
  input := none
  expecting := none
  onlyPlain := false

/-- Take a switch; those that ask for information end the scan. -/
def addSwitch (s : Scan) : Switch → Except Refusal Scan
  | .help => .error .help
  | .version => .error .version
  | switch => .ok { s with given := s.given ++ [switch], expecting := none }

/-- Take a setting, with its value if it came along. -/
def addSetting (s : Scan) (setting : Setting) : Option String → Scan
  | some value =>
      { s with
        named := s.named ++ [setting]
        values := s.values ++ [(setting, value)]
        expecting := none }
  | none => { s with named := s.named ++ [setting], expecting := some setting }

def addLong (s : Scan) (word name : String) (value : Option String) : Except Refusal Scan :=
  match ofLongName? name with
  | some (.setting setting) => .ok (s.addSetting setting value)
  | some (.switch switch) => s.addSwitch switch
  | none => .error (.unknownArgument word)

def addLetters (s : Scan) (word : String) : List Char → Except Refusal Scan
  | [] => .ok s
  | letter :: rest =>
      match ofLetter? letter with
      | none => .error (.unknownArgument word)
      | some switch =>
          match s.addSwitch switch with
          | .error refusal => .error refusal
          | .ok next => next.addLetters word rest

def addInput (s : Scan) (word : String) : Except Refusal Scan :=
  match s.input with
  | none => .ok { s with input := some word }
  | some _ => .error (.unknownArgument word)

/-- Take a plain word while options are still possible. -/
def addPlain (s : Scan) (word : String) : Except Refusal Scan :=
  match s.expecting with
  | some setting => .ok { s with values := s.values ++ [(setting, word)], expecting := none }
  | none => s.addInput word

/-- Take the next word.  Behind the mark that ends the options every word is plain, and so is the
mark itself when it comes again. -/
def add (s : Scan) (word : String) : Except Refusal Scan :=
  if s.onlyPlain then s.addInput word
  else
    match form word with
    | .endOfOptions => .ok { s with onlyPlain := true }
    | .long name value => s.addLong word name value
    | .letters letters => s.addLetters word letters
    | .plain => s.addPlain word

def addAll (s : Scan) : List String → Except Refusal Scan
  | [] => .ok s
  | word :: rest =>
      match s.add word with
      | .error refusal => .error refusal
      | .ok next => next.addAll rest

def valuesOf (s : Scan) (setting : Setting) : List String :=
  (s.values.filter (·.1 == setting)).map (·.2)

def uses (s : Scan) (setting : Setting) : Nat :=
  s.named.count setting

def isOn (s : Scan) (switch : Switch) : Bool :=
  s.given.contains switch

end Scan

def decimalValue (digits : List Char) : Nat :=
  digits.foldl (fun value digit => 10 * value + (digit.toNat - '0'.toNat)) 0

/-- A number below `bound`: one digit or more, with or without a plus sign before them. -/
def number? (bound : Nat) (text : String) : Option Nat :=
  let digits :=
    match text.toList with
    | '+' :: rest => rest
    | chars => chars
  let value := decimalValue digits
  if digits ≠ [] ∧ digits.all Char.isDigit ∧ value < bound then some value else none

namespace Scan

/-- The value of a setting, if it is given one: it must be a number, and given once. -/
def settle (s : Scan) (setting : Setting) : Except Refusal (Option Nat) :=
  match (s.valuesOf setting).find? fun value => (number? setting.bound value).isNone with
  | some value => .error (.invalidValue setting.name value)
  | none =>
      if s.uses setting > 1 then .error (.repeated setting.name)
      else .ok ((s.valuesOf setting).head?.bind (number? setting.bound))

/-- The first setting that is named without a value, although it has no standard one. -/
def valueless? (s : Scan) : Option Setting :=
  [Setting.seed, Setting.duration].find? fun setting =>
    decide (0 < s.uses setting) && (s.valuesOf setting).isEmpty

/-- The first switch that is given more than once; asking for more detail may be repeated. -/
def repeatedSwitch? (s : Scan) : Option Switch :=
  [Switch.shiftVx, Switch.keepIndex, Switch.indexOverflow].find? fun switch =>
    decide (1 < s.given.count switch)

def finish (s : Scan) : Except Refusal Options := do
  let some input := s.input | .error .missingInput
  if let some setting := s.valueless? then
    .error (.emptyValue setting.name)
  let rate ← s.settle .rate
  let seed ← s.settle .seed
  let duration ← s.settle .duration
  if let some switch := s.repeatedSwitch? then
    .error (.repeated switch.name)
  return {
    rate := UInt32.ofNat (rate.getD Clock.standardRate)
    shiftVx := s.isOn .shiftVx
    keepIndex := s.isOn .keepIndex
    indexOverflow := s.isOn .indexOverflow
    seed := seed.map UInt64.ofNat
    duration := duration.map UInt64.ofNat
    verbosity := UInt8.ofNat (s.given.count .verbose)
    input := input }

end Scan

/-- The options that the words of a command line give. -/
def read (words : List String) : Except Refusal Options :=
  match Scan.empty.addAll words with
  | .error refusal => .error refusal
  | .ok scan => scan.finish

end CommandLine

end Chip8
