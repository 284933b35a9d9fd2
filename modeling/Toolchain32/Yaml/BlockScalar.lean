import Toolchain32.Yaml.LineEnd

/-!
# Block scalars

The lines below a `|` or `>` that are indented at least as deep as the first of them. In a folded
scalar a single break between two lines that begin with text stands for a blank. The header may give
the indentation, and tells what becomes of the breaks at the end. Tabs may not indent.
-/

namespace Toolchain32.Yaml

/-- What becomes of the breaks at the end: none is kept, the first one, or all. -/
inductive Chomping
  | strip | clip | keep
  deriving DecidableEq, Repr

def Chomping.ofMark? : Char → Option Chomping
  | '-' => some .strip
  | '+' => some .keep
  | _ => none

structure BlockHeader where
  chomping : Chomping
  /-- The indentation relative to the collection around the scalar, if it is given. -/
  increment : Option Nat
  deriving DecidableEq, Repr

/-- A mark for the end and a digit other than zero, each optional, in either order. -/
def readBlockMarks (header : BlockHeader) : List Char → Except Stop (BlockHeader × List Char)
  | c :: rest =>
    if (Chomping.ofMark? c).isSome && header.chomping == .clip then
      readBlockMarks { header with chomping := (Chomping.ofMark? c).getD .clip } rest
    else if c.isDigit && header.increment.isNone then
      if c == '0' then .error ⟨.zeroIndentation, .blockScalar, c :: rest⟩
      else readBlockMarks { header with increment := some (c.toNat - '0'.toNat) } rest
    else .ok (header, c :: rest)
  | [] => .ok (header, [])

/-- A line and the break that ends it; the last line has none. -/
structure BlockLine where
  chars : List Char
  ending : Option Char
  deriving DecidableEq, Repr

def BlockLine.pushFront (c : Char) : List BlockLine → List BlockLine
  | [] => [⟨[c], none⟩]
  | l :: rest => ⟨c :: l.chars, l.ending⟩ :: rest

def blockLines : List Char → List BlockLine
  | [] => [⟨[], none⟩]
  | c :: rest =>
    if isBreak c then ⟨[], some c⟩ :: blockLines rest
    else BlockLine.pushFront c (blockLines rest)

def joinLines (lines : List BlockLine) : List Char :=
  lines.flatMap fun l => l.chars ++ l.ending.toList

/-- A tab in the indentation, before what follows on its line and on the lines after that. -/
def tabStop (behind : List Char) (ending : Option Char) (lines : List BlockLine) : Stop :=
  ⟨.indentingTab, .blockScalar, '\t' :: behind ++ ending.toList ++ joinLines lines⟩

/-- The indentation of a scalar whose header does not give it: that of its first line with text, or
of a deeper empty line before it. -/
def detectIndent (floor deepest : Nat) : List BlockLine → Except Stop Nat
  | [] => .ok (max deepest (max floor 1))
  | l :: rest =>
    let spaces := (l.chars.takeWhile isSpace).length
    match l.chars.drop spaces, l.ending with
    | [], some _ => detectIndent floor (max deepest spaces) rest
    | '\t' :: behind, ending => .error (tabStop behind ending rest)
    | _, _ => .ok (max (max deepest spaces) (max floor 1))

/-- The text so far, backwards, with the break of its last line, the empty lines after it, and
whether that line began with a blank. -/
structure BlockText where
  text : List Char
  ending : Option Char
  empties : List Char
  isIndented : Bool
  deriving DecidableEq, Repr

namespace BlockText

def empty : BlockText := ⟨[], none, [], false⟩

/-- The breaks before a new line. -/
def join (t : BlockText) (isFolded isIndented : Bool) : List Char :=
  if isFolded && t.ending == some '\n' && !t.isIndented && !isIndented then
    if t.empties.isEmpty then [' '] else t.empties
  else t.empties ++ t.ending.toList

def pushLine (t : BlockText) (isFolded : Bool) (body : List Char) (ending : Option Char) :
    BlockText :=
  let isIndented := body.head?.any isBlank
  ⟨body.reverse ++ (t.join isFolded isIndented ++ t.text), ending, [], isIndented⟩

def pushEmpty (t : BlockText) (ending : Char) : BlockText :=
  { t with empties := ending :: t.empties }

def chomped (t : BlockText) : Chomping → List Char
  | .strip => t.text.reverse
  | .clip => t.text.reverse ++ t.ending.toList
  | .keep => t.text.reverse ++ t.ending.toList ++ t.empties.reverse

end BlockText

/-- The lines of a scalar, up to the first text that stands before its indentation. -/
def readBlockLines (isFolded : Bool) (indent : Nat) (t : BlockText) :
    List BlockLine → Except Stop (BlockText × List Char)
  | [] => .ok (t, [])
  | l :: rest =>
    let spaces := min (l.chars.takeWhile isSpace).length indent
    match l.chars.drop spaces, l.ending with
    | [], some c => readBlockLines isFolded indent (t.pushEmpty c) rest
    | [], none => .ok (t, [])
    | c :: body, ending =>
      if spaces < indent then
        if c == '\t' then .error (tabStop body ending rest)
        else .ok (t, joinLines (⟨c :: body, ending⟩ :: rest))
      else readBlockLines isFolded indent (t.pushLine isFolded (c :: body) ending) rest

/-- The text of a block scalar after its mark, and what follows it. `floor` is the least column of
its lines. -/
def readBlockScalar (isFolded : Bool) (floor : Nat) (s : List Char) :
    Except Stop (List Char × List Char) := do
  let (header, s) ← readBlockMarks ⟨.clip, none⟩ s
  let lines := blockLines (← passLineEnd .blockScalar s)
  let indent ← match header.increment with
    | some n => .ok (floor - 1 + n)
    | none => detectIndent floor 0 lines
  let (t, rest) ← readBlockLines isFolded indent .empty lines
  return (t.chomped header.chomping, rest)

end Toolchain32.Yaml
