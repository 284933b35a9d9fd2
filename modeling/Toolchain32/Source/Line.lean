import Toolchain32.Source.Operation
import Toolchain32.Text.Blank

/-!
# Lines of assembly

A line holds an optional label, an optional statement and an optional comment. `Line.read` reads
one line on its own, with no knowledge of the lines around it.
-/

namespace Toolchain32

inductive Statement
  | global (names : List String)
  | external (names : List String)
  | openSection (name : String)
  | words (values : List Value)
  /-- So many bytes, rounded up to whole words. -/
  | skip (bytes : Word)
  | finish
  | operation (op : Operation)
  deriving DecidableEq, Repr

structure Line where
  label : Option String
  statement : Option Statement
  deriving DecidableEq, Repr

namespace Statement

/-- The arguments of a statement: what stands between the commas. -/
def splitArguments (s : List Char) : List (List Char) :=
  if s.isEmpty then [] else (Text.separate ',' s).map Text.trim

/-- One or more symbol names. -/
def readNames (arguments : List (List Char)) : Except SyntaxError (List String) :=
  if arguments.isEmpty then .error .missingArgument
  else arguments.mapM fun s =>
    if isSymbolName s then .ok (String.ofList s)
    else .error (.malformedArgument (String.ofList s) .symbol)

def readSectionName : List (List Char) → Except SyntaxError String
  | [] => .error .missingArgument
  | [name] =>
    if isSectionName name then .ok (String.ofList name)
    else .error (.malformedArgument (String.ofList name) .sectionName)
  | _ => .error .extraArgument

def readWords (arguments : List (List Char)) : Except SyntaxError (List Value) :=
  if arguments.isEmpty then .error .missingArgument else arguments.mapM Value.read

def readSkip : List (List Char) → Except SyntaxError Word
  | [] => .error .missingArgument
  | [s] =>
    match readLiteral s with
    | .error e => .error e
    | .ok none => .error (.malformedArgument (String.ofList s) .literal)
    | .ok (some n) => if n < 0 then .error (.negativeSkip n) else .ok (UInt32.ofInt n)
  | _ => .error .extraArgument

/-- A statement from its first word and its arguments. -/
def ofParts (head : String) (arguments : List (List Char)) : Except SyntaxError Statement :=
  match head with
  | ".global" => (readNames arguments).map global
  | ".extern" => (readNames arguments).map external
  | ".section" => (readSectionName arguments).map openSection
  | ".word" => (readWords arguments).map words
  | ".skip" => (readSkip arguments).map skip
  | ".end" => if arguments.isEmpty then .ok finish else .error .extraArgument
  | _ => (Operation.read head arguments).map operation

/-- A statement without white space around it. -/
def read (code : List Char) : Except SyntaxError Statement :=
  match Text.cutAt? Text.isBlank code with
  | some (head, tail) => ofParts (String.ofList head) (splitArguments (Text.trim tail))
  | none => ofParts (String.ofList code) []

end Statement

namespace Line

/-- What stands before a comment, without white space around it. -/
def withoutComment (raw : List Char) : List Char :=
  match Text.cutAt? (· == '#') raw with
  | some (code, _) => Text.trim code
  | none => Text.trim raw

/-- The label of a line, if what stands before its first colon is a symbol name, and the rest. -/
def splitLabel (code : List Char) : Option String × List Char :=
  match Text.cutAt? (· == ':') code with
  | some (head, tail) =>
    if isSymbolName (Text.trim head) then (some (String.ofList (Text.trim head)), Text.trim tail)
    else (none, code)
  | none => (none, code)

def readChars (raw : List Char) : Except SyntaxError Line :=
  let (label, rest) := splitLabel (withoutComment raw)
  if rest.isEmpty then .ok ⟨label, none⟩
  else (Statement.read rest).map fun statement => ⟨label, some statement⟩

def read (raw : String) : Except SyntaxError Line := readChars raw.toList

end Line

end Toolchain32
