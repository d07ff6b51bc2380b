import Scaffold.Text.Ranges
import Scaffold.Text.Quoted

/-!
# Command lines

What a command line may hold, and how it is read. A grammar lists the options of a command and its one
positional argument, which may be the name of a subcommand that reads the rest.

* **Every word is classified first,** as an option, an argument, or the separator after which there
  are only arguments. An option may be shortened as long as it stays unambiguous.
* **Then options and arguments are consumed** from left to right. Short options without values may be
  run together; only when all of them have been read do they take effect.
* **A value may stand in the same word** as its option. If it is the separator, it is dropped, and the
  option stands without a value.
* **What is left over** is collected, and refused at the end.
-/

namespace Scaffold.Command

/-- Why reading a command line ends without a result. -/
inductive Stop where
  /-- help was asked for -/
  | help (text : String)
  /-- the command line is wrong; the message comes from the named command -/
  | usage (program message : String)
  deriving DecidableEq, Repr

/-- What an option does to the settings of a command. -/
inductive Action (σ : Type) where
  /-- it asks for help -/
  | help
  /-- it takes no value -/
  | flag (set : σ → σ)
  /-- it takes a value, which may have to be one of several words, and which may be missing -/
  | value (choices : Option (List String)) (set : Option String → σ → σ)

/-- An option of a command. -/
structure Flag (σ : Type) where
  /-- the ways to write it -/
  names : List String
  /-- what it does -/
  action : Action σ

/-- The positional argument of a command. -/
inductive Positional (σ : Type) where
  /-- one argument -/
  | single (name : String) (set : String → σ → σ)
  /-- a subcommand, which reads everything after its name and gives what it did not understand -/
  | command (name : String) (choices : List String)
      (run : String → List String → σ → Except Stop (σ × List String))

/-- What a command's line may hold. -/
structure Grammar (σ : Type) where
  /-- how the command is called -/
  program : String
  /-- what is shown when help is asked for -/
  help : String
  /-- the options -/
  flags : List (Flag σ)
  /-- the positional argument -/
  positional : Positional σ

variable {σ : Type}

/-- The name of an option in messages. -/
def Flag.label (f : Flag σ) : String := "/".intercalate f.names

/-- Whether an option takes a value. -/
def Flag.takesValue (f : Flag σ) : Bool :=
  match f.action with
  | .value _ _ => true
  | _ => false

/-- The name of the positional argument. -/
def Positional.name : Positional σ → String
  | .single name _ => name
  | .command name _ _ => name

/-- A wrong command line. -/
def Grammar.fail {α : Type} (g : Grammar σ) (message : String) : Except Stop α :=
  .error (.usage g.program message)

/-- A wrong use of one option or argument. -/
def Grammar.failAt {α : Type} (g : Grammar σ) (label message : String) : Except Stop α :=
  g.fail s!"argument {label}: {message}"

/-! ## Classifying words -/

/-- An option as it is written in a word. -/
structure Use (σ : Type) where
  /-- the option -/
  flag : Flag σ
  /-- whether it is written with two dashes -/
  long : Bool
  /-- what else stands in the word, behind an equals sign or at once -/
  inline? : Option String

/-- A classified word. -/
inductive Word (σ : Type) where
  /-- an argument -/
  | argument (text : String)
  /-- the separator -/
  | separator
  /-- an option, which the command may not know -/
  | option (text : String) (use : Option (Use σ))

/-- Whether a word is an option. -/
def Word.isOption : Word σ → Bool
  | .option _ _ => true
  | _ => false

/-- A word as it was written. -/
def Word.text : Word σ → String
  | .argument text => text
  | .separator => "--"
  | .option text _ => text

/-- The option with a name. -/
def Grammar.flag? (g : Grammar σ) (name : String) : Option (Flag σ) :=
  g.flags.find? (·.names.contains name)

/-- All names of options, each with its option. -/
def Grammar.names (g : Grammar σ) : List (String × Flag σ) :=
  g.flags.flatMap fun f => f.names.map (·, f)

/-- Whether a text begins with two dashes. -/
def isLong (s : List Char) : Bool := ['-', '-'].isPrefixOf s

/-- A text up to its first equals sign, and what follows the sign. -/
def splitSign? (s : List Char) : Option (List Char × List Char) :=
  match s.dropWhile (· != '=') with
  | [] => none
  | _ :: value => some (s.takeWhile (· != '='), value)

/-- The options that a word may be meant for, with their names: those that a long word begins, or
the short one that the word begins with. -/
def Grammar.candidates (g : Grammar σ) (s : List Char) : List (String × Use σ) :=
  if isLong s then
    let start := s.takeWhile (· != '=')
    let inline? := (splitSign? s).map fun (_, value) => String.ofList value
    (g.names.filter fun (name, _) => start.isPrefixOf name.toList).map
      fun (name, f) => (name, ⟨f, true, inline?⟩)
  else
    g.names.filterMap fun (name, f) =>
      if name.toList == s.take 2 then some (name, ⟨f, false, some (String.ofList (s.drop 2))⟩)
      else if s.isPrefixOf name.toList then some (name, ⟨f, false, none⟩)
      else none

/-- Whether a text is a negative number: a minus, digits, and maybe a point followed by digits. -/
def isNegativeNumber (s : List Char) : Bool :=
  let s := if s.getLast? == some '\n' then s.dropLast else s
  match s with
  | '-' :: number =>
    match number.dropWhile Text.isDecimalDigit with
    | [] => !number.isEmpty
    | '.' :: fraction => !fraction.isEmpty && fraction.all Text.isDecimalDigit
    | _ => false
  | _ => false

/-- The option that the start of a word up to an equals sign is the name of. -/
def Grammar.signedUse? (g : Grammar σ) (s : List Char) : Option (Use σ) := do
  let (start, value) ← splitSign? s
  let f ← g.flag? (String.ofList start)
  return ⟨f, isLong start, some (String.ofList value)⟩

/-- Classifies a word that is not the separator. -/
def Grammar.classify (g : Grammar σ) (text : String) : Except Stop (Word σ) :=
  let s := text.toList
  if s.head? != some '-' then .ok (.argument text)
  else match g.flag? text with
    | some f => .ok (.option text (some ⟨f, isLong s, none⟩))
    | none =>
      if s.length == 1 then .ok (.argument text)
      else match g.signedUse? s with
        | some use => .ok (.option text (some use))
        | none =>
          match g.candidates s with
          | [(_, use)] => .ok (.option text (some use))
          | [] =>
            if isNegativeNumber s || s.contains ' ' then .ok (.argument text)
            else .ok (.option text none)
          | several =>
            let names := ", ".intercalate (several.map Prod.fst)
            g.fail s!"ambiguous option: {text} could match {names}"

/-- Classifies the words of a command line. -/
def Grammar.classifyAll (g : Grammar σ) : List String → Except Stop (List (Word σ))
  | [] => .ok []
  | "--" :: rest => .ok (.separator :: rest.map .argument)
  | text :: rest => do
    let word ← g.classify text
    return word :: (← g.classifyAll rest)

/-! ## Consuming words -/

/-- What has been read so far. -/
structure Progress (σ : Type) where
  /-- the settings -/
  settings : σ
  /-- the words that were not understood -/
  extras : List String
  /-- the words that a subcommand did not understand -/
  commandExtras : List String

/-- The name of the short option with a letter. -/
def shortName (letter : Char) : String := String.ofList ['-', letter]

/-- What the options of one word come to. -/
structure Uses (σ : Type) where
  /-- the options and their values -/
  uses : List (Flag σ × Option String)
  /-- how many of the following words are values -/
  taken : Nat

/-- The value written in the same word as its option; a separator is dropped. -/
def inlineValue? (text : String) : Option String := if text == "--" then none else some text

/-- Reads an option with nothing else in its word: its value is the word after it. -/
def Grammar.readAlone (g : Grammar σ) (f : Flag σ) (following : List (Word σ)) :
    Except Stop (Uses σ) :=
  if f.takesValue then
    match following with
    | .argument value :: _ => .ok ⟨[(f, some value)], 1⟩
    | _ => g.failAt f.label "expected one argument"
  else .ok ⟨[(f, none)], 0⟩

/-- Refuses what stands in the word of an option that takes no value. -/
def Grammar.ignored {α : Type} (g : Grammar σ) (f : Flag σ) (text : String) : Except Stop α :=
  g.failAt f.label s!"ignored explicit argument {Text.quoted text}"

/-- Reads a short option with `tail` behind it in its word: the option's value, or the letters of
more options that are run together with it, the last of which may have its value in the word. -/
def Grammar.readTail (g : Grammar σ) (f : Flag σ) (tail : List Char)
    (following : List (Word σ)) : Except Stop (Uses σ) :=
  if f.takesValue then .ok ⟨[(f, inlineValue? (String.ofList tail))], 0⟩
  else match tail with
    | [] => g.ignored f ""
    | letter :: rest =>
      match g.flag? (shortName letter) with
      | none => g.ignored f (String.ofList (letter :: rest))
      | some next => do
        let more ←
          if rest.isEmpty then g.readAlone next following else g.readTail next rest following
        return { more with uses := (f, none) :: more.uses }

/-- Reads the options of one word. -/
def Grammar.readUse (g : Grammar σ) (u : Use σ) (following : List (Word σ)) :
    Except Stop (Uses σ) :=
  match u.inline? with
  | none => g.readAlone u.flag following
  | some text =>
    if u.long && !u.flag.takesValue then g.ignored u.flag text
    else g.readTail u.flag text.toList following

/-- Refuses a value that is none of the choices. -/
def Grammar.check (g : Grammar σ) (label : String) (choices : List String) (value : String) :
    Except Stop Unit :=
  if choices.contains value then .ok ()
  else
    let list := ", ".intercalate (choices.map Text.quoted)
    g.failAt label s!"invalid choice: {Text.quoted value} (choose from {list})"

/-- Does what an option asks for. Choices are not looked at if there is no value. -/
def Grammar.perform (g : Grammar σ) (s : σ) (u : Flag σ × Option String) : Except Stop σ :=
  match u.1.action with
  | .help => .error (.help g.help)
  | .flag set => .ok (set s)
  | .value choices set => do
    match choices, u.2 with
    | some choices, some value => g.check u.1.label choices value
    | _, _ => .ok ()
    return set u.2 s

/-- Consumes an option: the progress, and how many of the following words are values. -/
def Grammar.takeOption (g : Grammar σ) (text : String) (use : Option (Use σ))
    (following : List (Word σ)) (p : Progress σ) : Except Stop (Progress σ × Nat) :=
  match use with
  | none => .ok ({ p with extras := p.extras ++ [text] }, 0)
  | some u => do
    let uses ← g.readUse u following
    let settings ← uses.uses.foldlM g.perform p.settings
    return ({ p with settings }, uses.taken)

/-- How many words after the first belong to the positional argument, if it begins here. A separator
may stand next to a single argument; a subcommand takes everything. -/
def Positional.reach? : Positional σ → List (Word σ) → Option Nat
  | .single _ _, .separator :: .argument _ :: _ => some 1
  | .single _ _, .argument _ :: .separator :: _ => some 1
  | .single _ _, .argument _ :: _ => some 0
  | .command _ _ _, .separator :: .argument _ :: rest => some (1 + rest.length)
  | .command _ _ _, .argument _ :: rest => some rest.length
  | _, _ => none

/-- Consumes the positional argument, given its words as they were written. -/
def Grammar.takePositional (g : Grammar σ) (texts : List String) (p : Progress σ) :
    Except Stop (Progress σ) :=
  match g.positional with
  | .single _ set =>
    let value := (texts.erase "--").head?.getD ""
    .ok { p with settings := set value p.settings }
  | .command name choices run => do
    let command := texts.head?.getD ""
    g.check name choices command
    let (settings, extras) ← run command (texts.drop 1) p.settings
    return { p with settings, commandExtras := p.commandExtras ++ extras }

/-- Consumes the words of a command line. `pending` says whether the positional argument is still to
come; so does the result. -/
def Grammar.consume (g : Grammar σ) (pending : Bool) (words : List (Word σ)) (p : Progress σ) :
    Except Stop (Bool × Progress σ) :=
  match words with
  | [] => .ok (pending, p)
  | .option text use :: rest => do
    let (p, taken) ← g.takeOption text use rest p
    g.consume pending (rest.drop taken) p
  | word :: rest =>
    match if pending then g.positional.reach? (word :: rest) else none with
    | some reach => do
      let p ← g.takePositional ((word :: rest.take reach).map Word.text) p
      g.consume false (rest.drop reach) p
    | none =>
      let skipped := word :: rest.takeWhile (!·.isOption)
      g.consume pending (rest.dropWhile (!·.isOption))
        { p with extras := p.extras ++ skipped.map Word.text }
termination_by words.length
decreasing_by
  all_goals simp only [List.length_cons, List.length_drop]
  · omega
  · omega
  · have := (List.dropWhile_suffix (l := rest) (!·.isOption)).length_le
    omega

/-- Reads a command line: the settings, and the words that were not understood. -/
def Grammar.parseKnown (g : Grammar σ) (args : List String) (initial : σ) :
    Except Stop (σ × List String) := do
  let words ← g.classifyAll args
  let (pending, p) ← g.consume true words ⟨initial, [], []⟩
  if pending then
    g.fail s!"the following arguments are required: {g.positional.name}"
  else return (p.settings, p.extras ++ p.commandExtras)

/-- Reads a command line that has to be understood as a whole. -/
def Grammar.parse (g : Grammar σ) (args : List String) (initial : σ) : Except Stop σ := do
  match ← g.parseKnown args initial with
  | (settings, []) => return settings
  | (_, extras) =>
    let list := " ".intercalate extras
    g.fail s!"unrecognized arguments: {list}"

end Scaffold.Command
