/-
Module: Emblem.CommandLine.Arguments
Purpose: What the arguments of the command line ask for. Every option takes a value, as the next
  argument or after an equals sign, and may be given once; there are no other arguments than the
  command and its options.
Main exports: DesignSource, Request, Request.ofArguments?
-/
import Emblem.Design
import Emblem.Files.Artworks
import Emblem.Number.Literal

namespace Emblem.CommandLine

/-- Where the design comes from. -/
structure DesignSource where
  /-- A file to read it from, instead of the standard design. -/
  path : Option String
  /-- A loop policy to use, instead of the design's own. -/
  policy : Option LoopPolicy
deriving DecidableEq, Repr

/-- What the program is asked to do. -/
inductive Request where
  /-- Write the two drawings into a directory. -/
  | generate (source : DesignSource) (directory : String) (names : FileNames)
  /-- Write a picture of the drawing at rest. -/
  | preview (source : DesignSource) (out : String) (scale : Float32)
  /-- Print the animations. -/
  | timeline (source : DesignSource)
  | help
  | version
deriving DecidableEq, Repr

/-- The options of the commands. -/
inductive Setting where
  | config
  | loopTerminal
  | outDir
  | staticName
  | activeName
  | out
  | scale
deriving DecidableEq, Repr

/-- An option's name, without the dashes before it. -/
def Setting.name : Setting → String
  | config => "config"
  | loopTerminal => "loop-terminal"
  | outDir => "out-dir"
  | staticName => "static-name"
  | activeName => "active-name"
  | out => "out"
  | scale => "scale"

def policyOfName? (name : String) : Option LoopPolicy :=
  [LoopPolicy.includeTerminal, .excludeTerminal].find? (·.name == name)

/-- Whether an option takes a value: paths must not be empty, policies and scales must be ones. -/
def Setting.accepts (value : String) : Setting → Bool
  | config | outDir | out => !value.isEmpty
  | loopTerminal => (policyOfName? value).isSome
  | staticName | activeName => true
  | scale => (Number.float32? value).isSome

/-- The commands. -/
inductive Command where
  | generate
  | preview
  | timeline
deriving DecidableEq, Repr

namespace Command

def name : Command → String
  | generate => "generate"
  | preview => "preview"
  | timeline => "timeline"

def ofName? (name : String) : Option Command :=
  [generate, preview, timeline].find? (·.name == name)

/-- The options that a command knows. -/
def settings : Command → List Setting
  | generate => [.config, .loopTerminal, .outDir, .staticName, .activeName]
  | preview => [.config, .loopTerminal, .out, .scale]
  | timeline => [.config, .loopTerminal]

end Command

/-- The options that are given, with their values. -/
abbrev Settings := List (Setting × String)

/-- How an argument looks. -/
inductive Shape where
  /-- Two dashes alone, after which no options follow. -/
  | stop
  /-- A name after two dashes, and what follows an equals sign. -/
  | long (name : String) (value : Option String)
  /-- Letters after one dash. -/
  | short (letters : List Char)
  | word

/-- The look of an argument; one dash alone is a word. -/
def Shape.of (argument : String) : Shape :=
  match argument.toList with
  | ['-', '-'] => .stop
  | '-' :: '-' :: rest =>
    match rest.dropWhile (· ≠ '=') with
    | [] => .long (String.ofList rest) none
    | _ :: value => .long (String.ofList (rest.takeWhile (· ≠ '='))) (some (String.ofList value))
  | '-' :: c :: rest => .short (c :: rest)
  | _ => .word

/-- The options so far with one more, if it can take the value and was not given before. -/
def Settings.add? (given : Settings) (o : Setting) (value : String) : Option Settings :=
  if o.accepts value && !given.any (·.1 == o) then some (given ++ [(o, value)]) else none

/-- What the arguments after a command ask for: its options, or help. -/
inductive Parsed where
  | settings (given : Settings)
  | help

/-- Reads the arguments after a command. -/
def parseSettings? (known : List Setting) : Settings → List String → Option Parsed
  | given, [] => some (.settings given)
  | given, argument :: rest =>
    match Shape.of argument with
    | .stop => if rest.isEmpty then some (.settings given) else none
    | .word => none
    | .short letters => if letters.head? = some 'h' then some .help else none
    | .long name value =>
      if name = "help" ∧ value = none then some .help
      else
        match known.find? (·.name == name), value, rest with
        | none, _, _ => none
        | some o, some v, rest => (given.add? o v).bind (parseSettings? known · rest)
        | some o, none, v :: rest =>
          match Shape.of v with
          | .word => (given.add? o v).bind (parseSettings? known · rest)
          | _ => none
        | some _, none, [] => none

/-- The value of an option that is given. -/
def Settings.get? (given : Settings) (o : Setting) : Option String :=
  given.lookup o

/-- The design that options ask for. -/
def Settings.source (given : Settings) : DesignSource where
  path := given.get? .config
  policy := (given.get? .loopTerminal).bind policyOfName?

/-- The picture's scale unless another is given. -/
def standardScale : Float32 := 4

/-- The request of a command with its options; a preview must be told where to go. -/
def Command.request? (given : Settings) : Command → Option Request
  | .generate =>
    some <| .generate given.source ((given.get? .outDir).getD ".")
      ⟨(given.get? .staticName).getD FileNames.standard.still,
       (given.get? .activeName).getD FileNames.standard.moving⟩
  | .preview =>
    (given.get? .out).map fun out =>
      .preview given.source out
        (((given.get? .scale).bind Number.float32?).getD standardScale)
  | .timeline => some (.timeline given.source)

/-- What the arguments ask for, if they make sense. -/
def Request.ofArguments? : List String → Option Request
  | [] => none
  | argument :: rest =>
    match Shape.of argument with
    | .stop => none
    | .short letters =>
      if letters.head? = some 'h' then some .help
      else if letters.head? = some 'V' then some .version
      else none
    | .long name value =>
      if value.isSome then none
      else if name = "help" then some .help
      else if name = "version" then some .version
      else none
    | .word =>
      if argument = "help" then
        match rest with
        | [] => some .help
        | [topic] => if (Command.ofName? topic).isSome ∨ topic = "help" then some .help else none
        | _ => none
      else
        match Command.ofName? argument with
        | none => none
        | some command =>
          match parseSettings? command.settings [] rest with
          | some (.settings given) => command.request? given
          | some .help => some .help
          | none => none

end Emblem.CommandLine
