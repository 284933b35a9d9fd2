/-!
# Arguments

The arguments of a tool are options and positional texts. `--name` and `-n` give an option, and `--`
ends the options. A value follows its option, as the next argument or behind an equals sign; after a
short name it may also follow directly. Short flags can share one dash. A lone dash is positional.
-/

namespace Toolchain32

/-- A flag has no value. A single option or a flag may be given once. -/
inductive OptionKind
  | flag | single | repeated
  deriving DecidableEq, Repr

structure OptionRule where
  name : String
  short : Option Char
  kind : OptionKind
  /-- The values that the option takes. -/
  accepts : String → Bool := fun _ => true

/-- Why a tool does not run. -/
inductive Dismissal
  | misuse
  | help
  | version
  deriving DecidableEq, Repr

/-- The options with their values, which are empty for flags, and the positional texts. -/
structure Arguments where
  given : List (String × String)
  positionals : List String
  deriving DecidableEq, Repr

namespace Arguments

def empty : Arguments := ⟨[], []⟩

def has (a : Arguments) (name : String) : Bool := a.given.any (·.1 == name)

def value? (a : Arguments) (name : String) : Option String := a.given.lookup name

def values (a : Arguments) (name : String) : List String :=
  (a.given.filter (·.1 == name)).map (·.2)

/-- An option is taken down with its value. -/
def give (a : Arguments) (rule : OptionRule) (value : String) : Except Dismissal Arguments :=
  if rule.name = "help" then .error .help
  else if rule.name = "version" then .error .version
  else if (a.has rule.name && rule.kind != .repeated) || !rule.accepts value then .error .misuse
  else .ok { a with given := a.given ++ [(rule.name, value)] }

/-- A positional text is taken down, up to a limit. -/
def place (a : Arguments) (limit : Option Nat) (text : String) : Except Dismissal Arguments :=
  if limit.all (a.positionals.length < ·) then
    .ok { a with positionals := a.positionals ++ [text] }
  else .error .misuse

/-- The options that every tool has. -/
def commonRules : List OptionRule := [⟨"help", some 'h', .flag, fun _ => true⟩,
  ⟨"version", some 'V', .flag, fun _ => true⟩]

/-- What stands before and behind the first equals sign. -/
def splitValue (s : List Char) : String × Option String :=
  let name := s.takeWhile (· != '=')
  let value? := match s.drop name.length with
    | [] => none
    | _ :: value => some (String.ofList value)
  (String.ofList name, value?)

/-- The text behind a short name, as its value. -/
def attachedValue? : List Char → Option String
  | [] => none
  | '=' :: value => some (String.ofList value)
  | value => some (String.ofList value)

/-- An option behind two dashes, and the option that waits for its value, if one does. -/
def readLong (rules : List OptionRule) (a : Arguments) (s : List Char) :
    Except Dismissal (Arguments × Option OptionRule) :=
  let (name, value?) := splitValue s
  match rules.find? (·.name == name), value? with
  | none, _ => .error .misuse
  | some rule, some value =>
    if rule.kind = .flag then .error .misuse
    else (a.give rule value).map (·, none)
  | some rule, none =>
    if rule.kind = .flag then (a.give rule "").map (·, none) else .ok (a, some rule)

/-- The short options behind a dash, and the option that waits for its value. -/
def readShort (rules : List OptionRule) (a : Arguments) :
    List Char → Except Dismissal (Arguments × Option OptionRule)
  | [] => .ok (a, none)
  | c :: rest =>
    match rules.find? (·.short == some c) with
    | none => .error .misuse
    | some rule =>
      if rule.kind = .flag then (a.give rule "").bind fun a => readShort rules a rest
      else match attachedValue? rest with
        | some value => (a.give rule value).map (·, none)
        | none => .ok (a, some rule)

/-- Whether an argument is an option, or ends them, by its look. -/
def looksLikeOption : List Char → Bool
  | '-' :: _ :: _ => true
  | _ => false

/-- The arguments behind those that were read before; `waiting` is the option that the next
argument is the value of. -/
def readFrom (rules : List OptionRule) (limit : Option Nat) (a : Arguments) :
    Option OptionRule → List String → Except Dismissal Arguments
  | none, [] => .ok a
  | some _, [] => .error .misuse
  | some rule, value :: rest =>
    if looksLikeOption value.toList then .error .misuse
    else (a.give rule value).bind fun a => readFrom rules limit a none rest
  | none, arg :: rest =>
    match arg.toList with
    | ['-', '-'] => rest.foldlM (fun a text => a.place limit text) a
    | '-' :: '-' :: s => (readLong rules a s).bind fun (a, waiting) =>
      readFrom rules limit a waiting rest
    | '-' :: c :: s => (readShort rules a (c :: s)).bind fun (a, waiting) =>
      readFrom rules limit a waiting rest
    | _ => (a.place limit arg).bind fun a => readFrom rules limit a none rest

/-- The arguments of a tool by its rules, with at least and at most so many positional texts. -/
def read (rules : List OptionRule) (least : Nat) (limit : Option Nat) (args : List String) :
    Except Dismissal Arguments := do
  let a ← readFrom (rules ++ commonRules) limit empty none args
  if a.positionals.length < least then .error .misuse else .ok a

end Arguments

end Toolchain32
