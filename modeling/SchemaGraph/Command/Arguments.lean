import SchemaGraph.Command.Request
import SchemaGraph.Decimal.Digits

/-! # Arguments

How a list of words becomes a request. The words are read from left to right, first those
before the verb and then those behind it. A flag that both places allow counts where it
stands last; whoever asks for help or the version gets it when the words so far are right.
A value that is a word of its own is judged only at the next word that is not a verb, or at
the end.
-/

namespace SchemaGraph.Command

/-- A number of a machine word: digits only, with an optional plus sign. -/
def count? (text : String) : Option Nat :=
  let digits := match text.toList with
    | '+' :: rest => rest
    | chars => chars
  (Decimal.natural? 10 digits).filter (· < UInt64.size)

/-- A path, which has to have a name. -/
def path? (text : String) : Option String := if text.isEmpty then none else some text

/-- What the words in one place say. -/
structure Settings where
  schema : Option String := none
  verbose : Bool := false
  format : Option ReportFormat := none
  count : Option Nat := none
  operand : Option String := none
  /-- An option and the word behind it, which is not judged yet. -/
  unjudged : Option (Flag × String) := none

namespace Settings

/-- The value of an option that was `held` before it. -/
def once {α : Type} (flag : Flag) (read? : String → Option α) (held : Option α)
    (value : String) : Except Interruption (Option α) :=
  match held, read? value with
  | some _, _ => .error (.misuse (.repeated flag))
  | none, none => .error (.misuse (.invalidValue flag value))
  | none, some a => .ok (some a)

/-- Set an option to a value. -/
def assign (s : Settings) (flag : Flag) (value : String) : Except Interruption Settings :=
  match flag with
  | .schema => (once flag path? s.schema value).map fun schema => { s with schema }
  | .format => (once flag ReportFormat.ofName? s.format value).map fun format => { s with format }
  | .count => (once flag count? s.count value).map fun count => { s with count }
  | .verbose | .help | .version => .error (.misuse (.unneededValue flag))

/-- Judge the value that is not judged yet. -/
def settle (s : Settings) : Except Interruption Settings :=
  match s.unjudged with
  | none => .ok s
  | some (flag, value) => { s with unjudged := none }.assign flag value

/-- Ask for more to be logged, once. -/
def raiseVerbose (s : Settings) : Except Interruption Settings :=
  if s.verbose then .error (.misuse (.repeated .verbose)) else .ok { s with verbose := true }

end Settings

/-- Where the next word stands. -/
inductive Place where
  | beforeVerb
  | behind (verb : Verb)
  /-- Behind the word for help and perhaps a topic. -/
  | inHelp (topic : Topic)

/-- How far the words were read. -/
structure Reading where
  place : Place := .beforeVerb
  outer : Settings := {}
  inner : Settings := {}
  /-- The option whose value comes next. -/
  waiting : Option Flag := none
  /-- Whether flags were ended by two dashes. -/
  flagsEnded : Bool := false

namespace Reading

/-- The verb before the place, if any. -/
def verb? (r : Reading) : Option Verb :=
  match r.place with
  | .behind verb => some verb
  | .beforeVerb | .inHelp _ => none

def topic (r : Reading) : Topic :=
  match r.place with
  | .behind verb => .verb verb
  | .beforeVerb => .overview
  | .inHelp topic => topic

/-- What the words in the present place say so far. -/
def settings (r : Reading) : Settings :=
  match r.place with
  | .behind _ => r.inner
  | .beforeVerb | .inHelp _ => r.outer

def withSettings (r : Reading) (s : Settings) : Reading :=
  match r.place with
  | .behind _ => { r with inner := s }
  | .beforeVerb | .inHelp _ => { r with outer := s }

/-- Judge the value in the present place that is not judged yet. -/
def settle (r : Reading) : Except Interruption Reading := r.settings.settle.map r.withSettings

/-- Set an option in the present place to a value in the same word. -/
def assign (r : Reading) (flag : Flag) (value : String) : Except Interruption Reading := do
  return r.withSettings (← (← r.settings.settle).assign flag value)

/-- Keep the word behind an option as its value. -/
def keep (r : Reading) (flag : Flag) (value : String) : Reading :=
  { r.withSettings { r.settings with unjudged := some (flag, value) } with waiting := none }

/-- Take a flag without a value. -/
def raise (r : Reading) (flag : Flag) : Except Interruption Reading := do
  let r ← r.settle
  match flag with
  | .help => .error (.help r.topic)
  | .version => .error .version
  | .verbose => r.settings.raiseVerbose.map r.withSettings
  | .schema | .format | .count => .ok { r with waiting := some flag }

/-- Take a flag by its long name, with a value behind an equals sign or without one. -/
def longFlag (r : Reading) (text : List Char) : Except Interruption Reading :=
  let name := String.ofList (text.takeWhile (· ≠ '='))
  match (Flag.allowed r.verb?).find? fun f => f.long = name with
  | none => .error (.misuse (.unknownFlag ("--" ++ name)))
  | some flag =>
      match text.dropWhile (· ≠ '=') with
      | [] => r.raise flag
      | _ :: value => r.assign flag (String.ofList value)

/-- Take flags by their letters; what stands behind one that takes a value is the value. -/
def letterFlags (r : Reading) : List Char → Except Interruption Reading
  | [] => .ok r
  | c :: rest =>
      match (Flag.allowed r.verb?).find? fun f => f.letter? = some c with
      | none => .error (.misuse (.unknownFlag (String.ofList ['-', c])))
      | some flag =>
          match flag.takesValue, rest with
          | true, '=' :: value => r.assign flag (String.ofList value)
          | true, first :: more => r.assign flag (String.ofList (first :: more))
          | _, _ => r.raise flag >>= fun r => r.letterFlags rest

/-- Take a word that is no flag. -/
def operand (r : Reading) (word : String) : Except Interruption Reading :=
  match r.place with
  | .inHelp .overview =>
      match Topic.ofName? word with
      | some topic => .ok { r with place := .inHelp topic }
      | none => .error (.misuse (.unknownVerb word))
  | .inHelp _ => .error (.misuse (.unknownVerb word))
  | .beforeVerb =>
      if r.flagsEnded then .error (.misuse (.unknownVerb word))
      else if word = helpWord then .ok { r with place := .inHelp .overview }
      else match Verb.ofName? word with
        | some verb => .ok { r with place := .behind verb }
        | none => .error (.misuse (.unknownVerb word))
  | .behind verb =>
      if verb.operand?.isNone || r.inner.operand.isSome then
        .error (.misuse (.extraOperand word))
      else if verb = .check ∧ (path? word).isNone then
        .error (.misuse (.invalidOperand verb word))
      else .ok { r with inner := { r.inner with operand := some word } }

/-- Whether a word can only be a flag; a single dash is not. -/
def isFlag (word : String) : Bool :=
  match word.toList with
  | '-' :: _ :: _ => true
  | _ => false

/-- Read one more word. -/
def step (r : Reading) (word : String) : Except Interruption Reading :=
  match r.place, r.waiting with
  | .inHelp _, _ => r.operand word
  | _, some flag =>
      if isFlag word then .error (.misuse (.missingValue flag)) else .ok (r.keep flag word)
  | _, none =>
      if r.flagsEnded then r.operand word
      else match word.toList with
        | ['-', '-'] => .ok { r with flagsEnded := true }
        | '-' :: '-' :: text => r.longFlag text
        | '-' :: c :: rest => r.letterFlags (c :: rest)
        | _ => r.operand word

/-- The task of a verb. -/
def task (verb : Verb) (s : Settings) : Except Interruption Task :=
  match verb, s.operand with
  | .id, _ => .ok (.mint (s.count.getD 1))
  | .chain, some expression => .ok (.chain expression)
  | .check, some path => .ok (.check path)
  | .verify, some id => .ok (.verify id)
  | verb, none => .error (.misuse (.missingOperand verb))

/-- The schema of a request. What the environment says has to be right even where an option
    overrules it in one of the two places only. -/
def schema (environment : Option String) (r : Reading) : Except Interruption (Option String) :=
  let chosen := r.inner.schema.or r.outer.schema
  match environment with
  | none => .ok chosen
  | some path =>
      if (path? path).isNone ∧ (r.inner.schema.isNone ∨ r.outer.schema.isNone) then
        .error (.misuse (.invalidValue .schema path))
      else .ok (chosen.or (some path))

/-- What the words ask for at their end. -/
def request (environment : Option String) (r : Reading) : Except Interruption Request :=
  match r.place, r.waiting with
  | .inHelp topic, _ => .error (.help topic)
  | _, some flag => .error (.misuse (.missingValue flag))
  | .beforeVerb, none => .error (.misuse .noVerb)
  | .behind verb, none => do
      let r := { r with inner := ← r.inner.settle, outer := ← r.outer.settle }
      let task ← task verb r.inner
      let schema ← r.schema environment
      let format := (r.inner.format.or r.outer.format).getD .text
      return { schema, format, task }

end Reading

/-- The request that words make beside the path which the environment gives for a schema. -/
def Request.ofArguments (environment : Option String) (words : List String) :
    Except Interruption Request := do
  (← words.foldlM Reading.step {}).request environment

end SchemaGraph.Command
