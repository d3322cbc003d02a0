import SourceMaps.CommandLine.Grammar

/-!
# Reading arguments

Arguments are read from left to right. Between options as many positionals are filled as there are
arguments for; what fits nowhere is left over for the caller to judge.

## Main definitions

* `Bound`: what a name is bound to.
* `Arguments`: bindings and what is left over.
* `Grammar.read`: the arguments of a command.
-/

namespace SourceMaps.CommandLine

/-- What a name is bound to. A positional has no value where separators were all that was given
for it. -/
inductive Bound where
  | set
  | value (text : Text)
  | text (value : Option Text)
  | integer (value : Option Int)
  | command (arguments : List Text)
deriving DecidableEq

/-- What has been read: names with what they are bound to, and arguments that fit nowhere. -/
structure Arguments where
  bound : List (Text × Bound) := []
  leftOver : List Text := []
deriving DecidableEq

namespace Arguments

/-- Binds a name; later bindings of a name take precedence. -/
def bind (a : Arguments) (name : Text) (value : Bound) : Arguments :=
  { a with bound := (name, value) :: a.bound }

/-- Adds arguments that fit nowhere. -/
def leave (a : Arguments) (texts : List Text) : Arguments :=
  { a with leftOver := a.leftOver ++ texts }

end Arguments

/-- Why reading ends early. -/
inductive Stop where
  /-- Help is asked for. -/
  | help
  /-- The arguments of a program are misused. -/
  | misuse (program : Text) (cause : Misuse)
  /-- Nothing handles a command that the grammar has. -/
  | unhandled (command : Text)
deriving DecidableEq

/-- The value among the texts given for a positional, of which the first separator is dropped. -/
def soleValue (texts : List Text) : Option Text :=
  match texts.erase separatorText with
  | [text] => some text
  | _ => none

/-! ### Positionals -/

/-- The arguments for a positional at the start of tokens, and the tokens after them. Separators
around an argument belong to it; a command takes everything. -/
def takePositional (kind : PositionalKind) (tokens : List Token) :
    Option (List Text × List Token) :=
  let before := tokens.takeWhile Token.isSeparator
  match tokens.dropWhile Token.isSeparator with
  | .argument text :: rest =>
    if kind = .command then some ((before ++ .argument text :: rest).map Token.text, [])
    else
      let after := rest.takeWhile Token.isSeparator
      some ((before ++ .argument text :: after).map Token.text, rest.dropWhile Token.isSeparator)
  | _ => none

/-- What a positional is bound to by texts. -/
def bindPositional (rule : PositionalRule) (texts : List Text) : Except Misuse Bound :=
  match rule.kind, soleValue texts with
  | .text, value => .ok (.text value)
  | .command, _ => .ok (.command texts)
  | .integer, none => .ok (.integer none)
  | .integer, some text =>
    match Numeral.readInteger? text with
    | some value => .ok (.integer (some value))
    | none => .error (.notInteger rule.name text)

/-- Fills as many positionals as there are arguments for. Answers the positionals and tokens that are
left. -/
def takePositionals : List PositionalRule → List Token → Arguments →
    Except Misuse (List PositionalRule × List Token × Arguments)
  | [], tokens, arguments => .ok ([], tokens, arguments)
  | rule :: rules, tokens, arguments =>
    match takePositional rule.kind tokens with
    | none => .ok (rule :: rules, tokens, arguments)
    | some (texts, tokens) => do
      let value ← bindPositional rule texts
      takePositionals rules tokens (arguments.bind rule.name value)

/-! ### Options -/

/-- An option that takes effect, with its value if it has one. -/
abbrev Effect := OptionRule × Option Text

/-- What an argument that starts with an option comes to. -/
structure OptionReading where
  /-- The options that take effect. -/
  effects : List Effect
  /-- What is left over of the argument. -/
  leftOver : List Text := []
  /-- The tokens after the argument and the value of its last option. -/
  rest : List Token

/-- An option with nothing attached: its value is the next argument. -/
def takeOption (rule : OptionRule) (tokens : List Token) : Except Misuse OptionReading :=
  if rule.kind = .value then
    match tokens with
    | .argument text :: rest => .ok { effects := [(rule, some text)], rest }
    | _ => .error (.missingValue rule)
  else .ok { effects := [(rule, none)], rest := tokens }

/-- Does the name of an option have a single dash? -/
def isShort (name : Text) : Bool := name.drop 1 |>.head? |>.any (· ≠ ↑ '-')

/-- An option with a text attached: its value, or further short options. Of these the first that the
grammar does not have is left over with all that follows it. -/
def takeAttached (g : Grammar) (rule : OptionRule) (name : Text) (tokens : List Token)
    (marked : Bool) : (attached : Text) → Except Misuse OptionReading
  | [] =>
    if rule.kind = .value then .ok { effects := [(rule, some [])], rest := tokens }
    else .error (.unwantedValue rule [])
  | c :: rest =>
    if rule.kind = .value then .ok { effects := [(rule, some (c :: rest))], rest := tokens }
    else if marked ∨ !isShort name ∨ c = ↑ '-' then .error (.unwantedValue rule (c :: rest))
    else
      let short := [↑ '-', c]
      match g.named.lookup short with
      | none => .ok { effects := [(rule, none)], leftOver := [short ++ rest], rest := tokens }
      | some next => do
        let reading ← match rest with
          | [] => takeOption next tokens
          | d :: value =>
            if d = ↑ '=' then takeAttached g next short tokens true value
            else takeAttached g next short tokens false (d :: value)
        return { reading with effects := (rule, none) :: reading.effects }

/-- An option of the grammar as it is used. -/
def readOption (g : Grammar) (rule : OptionRule) (use : OptionUse) (tokens : List Token) :
    Except Misuse OptionReading :=
  match use.attached with
  | none => takeOption rule tokens
  | some attached => takeAttached g rule use.name tokens attached.marked attached.text

/-- Lets options take effect in order; help ends the reading. -/
def applyEffects (arguments : Arguments) : List Effect → Except Stop Arguments
  | [] => .ok arguments
  | (rule, value) :: rest =>
    let name := rule.names.getLast?.getD []
    match rule.kind with
    | .help => .error .help
    | .flag => applyEffects (arguments.bind name .set) rest
    | .value => applyEffects (arguments.bind name (.value (value.getD []))) rest

/-! ### Arguments -/

namespace Grammar

/-- The misuse as a reason to stop. -/
def orStop {α : Type} (g : Grammar) : Except Misuse α → Except Stop α
  | .ok a => .ok a
  | .error cause => .error (.misuse g.program cause)

/-- Reads tokens, of which there are fewer than the fuel. Answers the positionals that are left. -/
def readTokens (g : Grammar) : (fuel : Nat) → List PositionalRule → List Token → Arguments →
    Except Stop (List PositionalRule × Arguments)
  | 0, rules, _, arguments => .ok (rules, arguments)
  | fuel + 1, rules, tokens, arguments =>
    match tokens with
    | .option text use :: rest =>
      match use.rule with
      | none => g.readTokens fuel rules rest (arguments.leave [text])
      | some rule => do
        let reading ← g.orStop (readOption g rule use rest)
        let arguments ← applyEffects (arguments.leave reading.leftOver) reading.effects
        g.readTokens fuel rules reading.rest arguments
    | tokens => do
      let (rules, rest, arguments) ← g.orStop (takePositionals rules tokens arguments)
      if rest.length < tokens.length ∧ rest.any Token.isOption then
        g.readTokens fuel rules rest arguments
      else
        let arguments := arguments.leave ((rest.takeWhile (!·.isOption)).map Token.text)
        match rest.dropWhile (!·.isOption) with
        | [] => return (rules, arguments)
        | rest => g.readTokens fuel rules rest arguments

/-- The arguments of a command. All its positionals must be filled. -/
def read (g : Grammar) (texts : List Text) : Except Stop Arguments := do
  let tokens ← g.orStop (g.tokens texts)
  let (rules, arguments) ← g.readTokens (tokens.length + 1) g.positionals tokens {}
  if rules.isEmpty then return arguments
  else throw (.misuse g.program (.missing (rules.map (·.name))))

end Grammar

end SourceMaps.CommandLine
