import PixelEffects.Text.Blank

/-!
# Options of the Command Line

The words of a command line, sorted into options, names of commands and everything else.

An option has a long name, written after two dashes, and maybe a letter, written after one. A value
follows it as the next word, or in the same word: after an equals sign, or right behind a letter.
Letters of options without a value may share a word. A word that starts with a dash is no value and
nothing else but an option, except for the dash alone. After two dashes alone, no word is an option.

Most options can be given once. An option that is counted or whose values are collected can be given
several times. Behind an option that closes the command line, nothing is read, not even the letters
that share its word.

## Main definitions

* `OptionName`, `OptionName.arity`: The options.
* `Word`, `Word.read`: What one word is.
* `Given`, `Given.read`: What several words say.
-/

namespace PixelEffects

namespace CommandLine

/-- The options of all commands. -/
inductive OptionName
  | version
  | root
  | threads
  | verbose
  | param
  | noTemplate
  | size
  | json
  | name
  | id
  | author
  | description
deriving Repr, DecidableEq

/-- What follows an option, and how often it can be given. Nothing at all follows one that closes
    the command line. -/
inductive Arity
  | closing
  | flag
  | counted
  | value
  | values
deriving Repr, DecidableEq

namespace OptionName

/-- The name of an option behind two dashes. -/
def long : OptionName → String
  | version => "version"
  | root => "root"
  | threads => "threads"
  | verbose => "verbose"
  | param => "param"
  | noTemplate => "no-template"
  | size => "size"
  | json => "json"
  | name => "name"
  | id => "id"
  | author => "author"
  | description => "desc"

/-- The letter of an option behind one dash. -/
def letter? : OptionName → Option Char
  | version => some 'V'
  | verbose => some 'v'
  | param => some 'p'
  | _ => none

/-- What follows an option. -/
def arity : OptionName → Arity
  | version => .closing
  | verbose => .counted
  | noTemplate => .flag
  | json => .flag
  | param => .values
  | _ => .value

/-- Whether a value follows an option. -/
def takesValue (o : OptionName) : Bool :=
  match o.arity with
  | .value => true
  | .values => true
  | .closing => false
  | .flag => false
  | .counted => false

/-- Whether an option can be given several times. -/
def repeats (o : OptionName) : Bool :=
  match o.arity with
  | .counted => true
  | .values => true
  | .closing => false
  | .flag => false
  | .value => false

/-- Whether nothing is read behind an option. -/
def closes (o : OptionName) : Bool :=
  o.arity == .closing

end OptionName

/-- Options with their values, in the order in which they were given. An option without a value has
    the empty one. -/
abbrev Occurrences := List (OptionName × String)

/-- What a word of a command line is. -/
inductive Word
  | plain (text : String)
  | endOfOptions
  | options (found : Occurrences)
  | optionsThenValue (found : Occurrences) (last : OptionName)
  | unknown
deriving Repr, DecidableEq

namespace Word

/-- A value that is written behind a letter, with or without an equals sign. -/
def attached : List Char → String
  | '=' :: value => String.ofList value
  | value => String.ofList value

/-- The letters of options that share a word. -/
def readLetters (known : List OptionName) (found : Occurrences) : List Char → Word
  | [] => options found
  | c :: cs =>
    match known.find? fun o => o.letter? == some c with
    | none => unknown
    | some o =>
      if o.takesValue then
        match cs with
        | [] => optionsThenValue found o
        | value => options (found ++ [(o, attached value)])
      else if o.closes then options (found ++ [(o, "")])
      else readLetters known (found ++ [(o, "")]) cs

/-- An option by its long name, and what follows an equals sign. -/
def readLong (known : List OptionName) (text : List Char) : Word :=
  let (name, value) :=
    match Text.splitOnce '=' text with
    | some (name, value) => (name, some value)
    | none => (text, none)
  match known.find? fun o => o.long.toList == name with
  | none => unknown
  | some o =>
    match value, o.takesValue with
    | some value, true => options [(o, String.ofList value)]
    | none, true => optionsThenValue [] o
    | none, false => options [(o, "")]
    | some _, false => unknown

/-- What a word is, with the options that are known. -/
def read (known : List OptionName) (word : String) : Word :=
  match word.toList with
  | ['-', '-'] => endOfOptions
  | '-' :: '-' :: text => readLong known text
  | '-' :: c :: cs => readLetters known [] (c :: cs)
  | _ => plain word

/-- Whether a word can be the value of an option in front of it. -/
def isValue (word : String) : Bool :=
  match word.toList with
  | '-' :: _ :: _ => false
  | _ => true

end Word

/-- What words say: options, other words, and a command with the words behind it. -/
structure Given where
  options : Occurrences
  positional : List String
  command : Option (String × List String)
deriving Repr, DecidableEq

namespace Given

/-- No words. -/
def empty : Given :=
  ⟨[], [], none⟩

/-- Add options. -/
def withOptions (g : Given) (found : Occurrences) : Given :=
  { g with options := g.options ++ found }

/-- Add words that are no options. -/
def withPositional (g : Given) (words : List String) : Given :=
  { g with positional := g.positional ++ words }

/-- Read words up to the name of a command, or up to what closes the command line. -/
def read? (known : List OptionName) (isCommand : String → Bool) (g : Given) :
    List String → Option Given
  | [] => some g
  | word :: rest =>
    match Word.read known word with
    | .unknown => none
    | .endOfOptions => some (g.withPositional rest)
    | .options found =>
      if found.any (·.1.closes) then some (g.withOptions found)
      else read? known isCommand (g.withOptions found) rest
    | .optionsThenValue found last =>
      match rest with
      | [] => none
      | value :: rest =>
        if Word.isValue value then
          read? known isCommand (g.withOptions (found ++ [(last, value)])) rest
        else none
    | .plain text =>
      if isCommand text then some { g with command := some (text, rest) }
      else read? known isCommand (g.withPositional [text]) rest

/-- The values of an option. -/
def values (g : Given) (o : OptionName) : List String :=
  (g.options.filter (·.1 == o)).map (·.2)

/-- The value of an option that can be given once. -/
def value? (g : Given) (o : OptionName) : Option String :=
  (g.values o).head?

/-- Whether an option was given. -/
def has (g : Given) (o : OptionName) : Bool :=
  g.options.any (·.1 == o)

/-- Whether no option was given more often than it can be. -/
def isWithinArity (g : Given) : Bool :=
  g.options.all fun f => f.1.repeats || (g.values f.1).length ≤ 1

end Given

end CommandLine

end PixelEffects
