import Toolchain32.Instruction.Codec
import Toolchain32.Source.Operation

/-!
# Encoding operations

An operation becomes one to three pieces: instruction words, and operand words that are either
final or refer to a symbol. A value that fits the displacement field stands inside the instruction
word, any other value in a word of its own, which the instruction reads through the program
counter. `Operation.size` knows the length from the spelling alone.
-/

namespace Toolchain32

/-- One emitted word: final, or a reference for the linker to fill in. -/
inductive Piece
  | word (w : Word)
  | reference (name : String)
  deriving DecidableEq, Repr

/-- The data word that holds a value. -/
def Value.piece : Value → Piece
  | literal n => .word (Word.pack (UInt32.ofInt n))
  | symbol name => .reference name

/-- The short form of an instruction if the value is inline, or else the pool form with its operand
word. -/
def shortOrPool (value : Value) (short : Int16 → Instruction) (pool : Instruction) : List Piece :=
  match value.inline? with
  | some d => [.word (short d).encode]
  | none => [.word pool.encode, value.piece]

namespace Operation

/-- How many words an operation takes whose value may stand inline. -/
def wordsFor (value : Value) (extended : Nat) : Nat := if value.inline?.isSome then 1 else extended

def wordCount : Operation → Nat
  | interruptReturn => 2
  | call v | jump v | branch _ _ _ v => wordsFor v 2
  | load (.immediate v) _ => wordsFor v 2
  | load (.place (.memory v)) _ => wordsFor v 3
  | store _ (.memory v) => wordsFor v 2
  | _ => 1

/-- The length of the operation in bytes. -/
def size (op : Operation) : Nat := 4 * op.wordCount

/-- A load of a register. -/
def loadPieces (target : Register) : Operand → List Piece
  | .immediate v => shortOrPool v (.move target .zero ·) (.loadPool target .programCounter 0)
  | .place (.memory v) =>
    match v.inline? with
    | some d => [.word (Instruction.load target .zero d).encode]
    | none =>
      [.word (Instruction.loadPool target .programCounter 0).encode, v.piece,
        .word (Instruction.load target target 0).encode]
  | .place (.register r) => [.word (Instruction.move target r 0).encode]
  | .place (.indirect base d) => [.word (Instruction.load target base d).encode]

/-- A store of a register. -/
def storePieces (source : Register) : Place → List Piece
  | .memory v =>
    shortOrPool v (.store .zero .zero source ·) (.storePool .programCounter .zero source 0)
  | .register r => [.word (Instruction.move r source 0).encode]
  | .indirect base d => [.word (Instruction.store base .zero source d).encode]

def pieces : Operation → List Piece
  | halt => [.word Instruction.halt.encode]
  | interrupt => [.word Instruction.interrupt.encode]
  | interruptReturn =>
    [.word (Instruction.popFused .programCounter .stackPointer 4).encode,
      .word (Instruction.popControl .status .stackPointer 4).encode]
  | subroutineReturn => [.word (Instruction.pop .programCounter .stackPointer 4).encode]
  | call v => shortOrPool v (.call .zero .zero ·) (.callPool .programCounter .zero 0)
  | jump v =>
    shortOrPool v (.jump .always .zero .zero .zero ·)
      (.jumpPool .always .programCounter .zero .zero 0)
  | branch k b c v => shortOrPool v (.jump k .zero b c ·) (.jumpPool k .programCounter b c 0)
  | push r => [.word (Instruction.push .stackPointer r (-4)).encode]
  | pop r => [.word (Instruction.pop r .stackPointer 4).encode]
  | exchange s t => [.word (Instruction.exchange t s).encode]
  | arith op s t => [.word (Instruction.arith op t t s).encode]
  | logic op s t => [.word (Instruction.logic op t t s).encode]
  | complement r => [.word (Instruction.logic .not r r .zero).encode]
  | shift op s t => [.word (Instruction.shift op t t s).encode]
  | readControl control t => [.word (Instruction.readControl t control).encode]
  | writeControl s control => [.word (Instruction.writeControl control s).encode]
  | load source target => loadPieces target source
  | store source target => storePieces source target

theorem length_shortOrPool (v : Value) (short : Int16 → Instruction) (pool : Instruction) :
    (shortOrPool v short pool).length = wordsFor v 2 := by
  unfold shortOrPool wordsFor
  cases v.inline? <;> rfl

theorem length_pieces (op : Operation) : op.pieces.length = op.wordCount := by
  cases op with
  | load source target =>
    cases source with
    | immediate v => exact length_shortOrPool ..
    | place p =>
      cases p with
      | memory v => simp only [pieces, loadPieces, wordCount, wordsFor]; cases v.inline? <;> rfl
      | _ => rfl
  | store source target =>
    cases target with
    | memory v => exact length_shortOrPool ..
    | _ => rfl
  | _ => first | rfl | exact length_shortOrPool ..

end Operation

end Toolchain32
