import Toolchain32.Assembly.Listing
import Toolchain32.Proofs.ListedRows

/-!
# The text of a listing

`ListingLine` says what a line of the text shows, and `printed` which characters it is made of. The
printer goes through the source lines and the rows at once, and takes a row when it comes to its
line. When the rows are in order, it comes to all of them: every source line is shown once, and
every word of a row is shown once, next to the line of the row (`exists_bodyLines`).
-/

namespace Toolchain32

open Fallible Text

structure ListedWord where
  sectionName : String
  offset : Nat
  slot : Slot
  /-- The row is an operation, rather than data. -/
  isCode : Bool
  deriving DecidableEq, Repr

def listedFrom (sectionName : String) (isCode : Bool) (offset : Nat) (words : List Slot) :
    List ListedWord :=
  words.zipIdx.map fun (slot, i) => ⟨sectionName, offset + 4 * i, slot, isCode⟩

theorem listedFrom_cons (sectionName : String) (isCode : Bool) (offset : Nat) (slot : Slot)
    (words : List Slot) : listedFrom sectionName isCode offset (slot :: words) =
      ⟨sectionName, offset, slot, isCode⟩ ::
        listedFrom sectionName isCode (offset + 4) words :=
  map_zipIdx_cons (fun slot o => ListedWord.mk sectionName o slot isCode) offset slot words

def Row.listed (r : Row) : List (Nat × ListedWord) :=
  (listedFrom r.sectionName r.isCode r.offset r.words).map fun w => (r.line, w)

inductive ListingLine where
  /-- A source line without words. -/
  | bare (number : Nat) (text : String)
  /-- A source line and its first word. -/
  | first (number : Nat) (text : String) (word : ListedWord)
  /-- One more word of the source line above. -/
  | further (word : ListedWord)
  deriving DecidableEq, Repr

def rightAligned (width : Nat) (s : List Char) : List Char :=
  List.replicate (width - s.length) ' ' ++ s

def leftAligned (width : Nat) (s : List Char) : List Char :=
  s ++ List.replicate (width - s.length) ' '

def offsetDigits (offset : Nat) : List Char :=
  let digits := (Nat.toDigits 16 offset).map Char.toUpper
  List.replicate (4 - digits.length) '0' ++ digits

/-- The hexadecimal digit of a place, the lowest place being zero. -/
def hexDigit (n place : Nat) : Char := (Nat.digitChar (n / 16 ^ place % 16)).toUpper

def wordDigits (w : Word) : List Char :=
  let d := hexDigit w.toNat
  [d 7, d 6, ' ', d 5, d 4, ' ', d 3, d 2, ' ', d 1, d 0]

def numbered (number : Nat) (source : List Char) : List Char :=
  rightAligned 4 (toString number).toList ++ ':' :: ' ' :: source

namespace ListedWord

def place (w : ListedWord) : List Char :=
  "\x1b[36m".toList ++ rightAligned 16 (w.sectionName.toList ++ '+' :: offsetDigits w.offset) ++
    "\x1b[39m".toList

def content (w : ListedWord) : List Char :=
  match w.slot with
  | .word v => wordDigits v
  | .placeholder => "\x1b[31m\x1b[1m?? ?? ?? ??\x1b[39m\x1b[22m".toList

def remark (w : ListedWord) : List Char :=
  match w.isCode, w.slot with
  | true, .word v =>
    match Instruction.decode v with
    | .ok i => i.disassemble.toList
    | .error _ => []
  | _, _ => []

end ListedWord

namespace ListingLine

def printed : ListingLine → List Char
  | bare number source => List.replicate 31 ' ' ++ '|' :: ' ' :: numbered number source.toList
  | first number source w =>
    w.place ++ ' ' :: w.content ++ ' ' :: '|' :: ' ' ::
      numbered number (leftAligned 32 source.toList) ++ ' ' :: w.remark
  | further w => w.place ++ ' ' :: w.content ++ [' ', '|']

def source? : ListingLine → Option (Nat × String)
  | bare number source | first number source _ => some (number, source)
  | further _ => none

/-- The words that are shown, each with the number of the source line that it is next to: the one
on the same line of the listing, or else the last one above it. -/
def shown : Nat → List ListingLine → List (Nat × ListedWord)
  | _, [] => []
  | _, bare number _ :: rest => shown number rest
  | _, first number _ w :: rest => (number, w) :: shown number rest
  | current, further w :: rest => (current, w) :: shown current rest

theorem exists_shown_append (current : Nat) (lines : List ListingLine) : ∃ last, ∀ more,
    shown current (lines ++ more) = shown current lines ++ shown last more := by
  induction lines generalizing current with
  | nil => exact ⟨current, fun _ => rfl⟩
  | cons l lines ih =>
    cases l with
    | bare number source => exact ih number
    | first number source w =>
      obtain ⟨last, h⟩ := ih number
      exact ⟨last, fun more => congrArg ((number, w) :: ·) (h more)⟩
    | further w =>
      obtain ⟨last, h⟩ := ih current
      exact ⟨last, fun more => congrArg ((current, w) :: ·) (h more)⟩

theorem shown_map_further (current : Nat) (words : List ListedWord) :
    shown current (words.map further) = words.map fun w => (current, w) := by
  induction words with
  | nil => rfl
  | cons w words ih => exact congrArg ((current, w) :: ·) ih

end ListingLine

open ListingLine

/-- The lines show each of the texts once, numbered in order, and each word of the rows once, in
order and next to the line of its row. -/
structure Shows (number : Nat) (texts : List String) (rows : List Row)
    (lines : List ListingLine) : Prop where
  sources : lines.filterMap source? = (List.range' number texts.length).zip texts
  words : ∀ current, shown current lines = rows.flatMap Row.listed

namespace Shows

variable {number : Nat} {texts more : List String} {rows rows' : List Row}
  {lines lines' : List ListingLine}

theorem nil (number : Nat) : Shows number [] [] [] := ⟨rfl, fun _ => rfl⟩

theorem append (h : Shows number texts rows lines)
    (h' : Shows (number + texts.length) more rows' lines') :
    Shows number (texts ++ more) (rows ++ rows') (lines ++ lines') where
  sources := by
    rw [List.filterMap_append, h.sources, h'.sources, List.length_append,
      ← List.range'_append_1, List.zip_append (by rw [List.length_range'])]
  words current := by
    obtain ⟨last, happend⟩ := exists_shown_append current lines
    rw [happend, h.words, h'.words, List.flatMap_append]

theorem bare (number : Nat) (source : String) :
    Shows number [source] [] [ListingLine.bare number source] := ⟨rfl, fun _ => rfl⟩

end Shows

namespace Listing

theorem toList_padLeft (width : Nat) (s : String) :
    (padLeft width s).toList = rightAligned width s.toList := by
  simp [padLeft, blanks, rightAligned, String.length_toList]

theorem toList_padRight (width : Nat) (s : String) :
    (padRight width s).toList = leftAligned width s.toList := by
  simp [padRight, blanks, leftAligned, String.length_toList]

theorem toList_byteText (w : Word) (place : Nat) :
    (byteText w (4 * place)).toList = [hexDigit w.toNat (place + 1), hexDigit w.toNat place] := by
  have hbytes : ∀ b < 0x100, (upperHex 2 b).toList = [hexDigit b 1, hexDigit b 0] := by
    decide +kernel
  have hshift : w.toNat >>> (4 * place) = w.toNat / 16 ^ place := by
    rw [Nat.shiftRight_eq_div_pow, Nat.pow_mul]
  rw [byteText, hshift, hbytes _ (Nat.mod_lt _ (by decide))]
  have hhigh : w.toNat / 16 ^ place % 0x100 / 16 % 16 = w.toNat / 16 ^ (place + 1) % 16 := by
    rw [Nat.pow_succ, ← Nat.div_div_eq_div_mul]
    omega
  have hlow : w.toNat / 16 ^ place % 0x100 % 16 = w.toNat / 16 ^ place % 16 := by omega
  simp only [hexDigit, Nat.pow_one, Nat.pow_zero, Nat.div_one, hhigh, hlow]

theorem toList_slotText (w : ListedWord) : (slotText w.slot).toList = w.content := by
  obtain ⟨sectionName, offset, slot, isCode⟩ := w
  cases slot with
  | placeholder => rfl
  | word v =>
    have hbytes : slotText (.word v) = byteText v (4 * 6) ++ " " ++ byteText v (4 * 4) ++ " " ++
        byteText v (4 * 2) ++ " " ++ byteText v (4 * 0) := rfl
    simp only [hbytes, String.toList_append, toList_byteText]
    rfl

theorem toList_placeText (w : ListedWord) :
    (placeText w.sectionName w.offset).toList = w.place := by
  have hplace : (w.sectionName ++ "+" ++ upperHex 4 w.offset).toList =
      w.sectionName.toList ++ '+' :: offsetDigits w.offset := by
    simp [upperHex, offsetDigits]
  rw [placeText, colored, String.toList_append, String.toList_append, toList_padLeft, hplace]
  rfl

theorem toList_sourceText (number : Nat) (text : String) :
    (sourceText number text).toList = numbered number text.toList := by
  simp [sourceText, numbered, toList_padLeft]

theorem toList_disassembly (w : ListedWord) :
    (disassembly w.isCode w.slot).toList = w.remark := by
  obtain ⟨sectionName, offset, slot, isCode⟩ := w
  cases slot with
  | placeholder => cases isCode <;> rfl
  | word v =>
    cases isCode with
    | false => rfl
    | true =>
      simp only [disassembly, ListedWord.remark, if_true]
      cases Instruction.decode v <;> rfl

theorem toList_bareLine (number : Nat) (source : String) :
    (bareLine number source).toList = (ListingLine.bare number source).printed := by
  simp [bareLine, blanks, ListingLine.printed, toList_sourceText]

theorem toList_firstLine (row : Row) (source : String) (slot : Slot) :
    (firstLine row source slot).toList = (ListingLine.first row.line source
      ⟨row.sectionName, row.offset, slot, row.isCode⟩).printed := by
  let w : ListedWord := ⟨row.sectionName, row.offset, slot, row.isCode⟩
  have hplace : (placeText row.sectionName row.offset).toList = w.place := toList_placeText w
  have hcontent : (slotText slot).toList = w.content := toList_slotText w
  have hremark : (disassembly row.isCode slot).toList = w.remark := toList_disassembly w
  change _ = (ListingLine.first row.line source w).printed
  simp [firstLine, ListingLine.printed, toList_sourceText, toList_padRight, hplace, hcontent,
    hremark]

theorem furtherLines_eq (sectionName : String) (isCode : Bool) (offset : Nat)
    (words : List Slot) : (furtherLines sectionName offset words).map String.toList =
      ((listedFrom sectionName isCode offset words).map further).map printed := by
  induction words generalizing offset with
  | nil => rfl
  | cons slot words ih =>
    let w : ListedWord := ⟨sectionName, offset, slot, isCode⟩
    have hplace : (placeText sectionName offset).toList = w.place := toList_placeText w
    have hcontent : (slotText slot).toList = w.content := toList_slotText w
    have hfirst : (placeText sectionName offset ++ " " ++ slotText slot ++ " |").toList =
        (further w).printed := by
      simp [printed, hplace, hcontent]
    rw [furtherLines, List.map_cons, hfirst, ih, listedFrom_cons, List.map_cons, List.map_cons]

/-- A row is shown next to the source line of its number. -/
theorem exists_rowLines (row : Row) (source : String) : ∃ lines,
    (rowLines row source).map String.toList = lines.map printed ∧
      Shows row.line [source] [row] lines := by
  have hlisted : [row].flatMap Row.listed = row.listed := List.flatMap_singleton ..
  cases hwords : row.words with
  | nil =>
    -- An empty row is used up, but its source line looks like one without a row.
    refine ⟨[.bare row.line source], ?_, rfl, fun current => ?_⟩
    · rw [rowLines, hwords, List.map_singleton, toList_bareLine, List.map_singleton]
    · rw [hlisted, Row.listed, hwords]
      rfl
  | cons slot words =>
    let rest := listedFrom row.sectionName row.isCode (row.offset + 4) words
    refine ⟨.first row.line source ⟨row.sectionName, row.offset, slot, row.isCode⟩ ::
      rest.map further, ?_, ?_, fun current => ?_⟩
    · rw [rowLines, hwords, List.map_cons, List.map_cons, ← furtherLines_eq, toList_firstLine]
    · have hrest : (rest.map further).filterMap source? = [] := by
        rw [List.filterMap_map, List.filterMap_eq_nil_iff]
        exact fun _ _ => rfl
      exact congrArg ((row.line, source) :: ·) hrest
    · rw [hlisted, Row.listed, hwords, listedFrom_cons, List.map_cons, shown, shown_map_further]

/-- Rows that are in order are all shown. -/
theorem exists_bodyLines {number : Nat} {texts : List String} {rows : List Row}
    (h : InOrder number (number + texts.length) rows) : ∃ lines,
      (bodyLines number texts rows).map String.toList = lines.map printed ∧
        Shows number texts rows lines := by
  -- By induction on the source lines: the rows that are left begin at the next line or later, so
  -- that none of them is passed by.
  induction texts generalizing number rows with
  | nil =>
    obtain rfl := h.eq_nil
    exact ⟨[], rfl, .nil number⟩
  | cons source texts ih =>
    have hlength : number + (source :: texts).length = number + 1 + texts.length := by
      rw [List.length_cons]
      omega
    rw [hlength] at h
    cases rows with
    | nil =>
      obtain ⟨more, hmore, hshows⟩ : ∃ lines, (bodyLines (number + 1) texts []).map String.toList =
          lines.map printed ∧ Shows (number + 1) texts [] lines := ih .nil
      refine ⟨.bare number source :: more, ?_, (Shows.bare number source).append hshows⟩
      rw [bodyLines, List.map_cons, toList_bareLine, hmore, List.map_cons]
    | cons row rows =>
      by_cases hline : row.line = number
      · subst hline
        obtain ⟨lines, hlines, hshows⟩ := exists_rowLines row source
        obtain ⟨more, hmore, hshows'⟩ := ih h.tail
        refine ⟨lines ++ more, ?_, hshows.append hshows'⟩
        rw [bodyLines, if_pos rfl, List.map_append, hlines, hmore, List.map_append]
      · obtain ⟨more, hmore, hshows⟩ := ih (h.skip hline)
        refine ⟨.bare number source :: more, ?_, (Shows.bare number source).append hshows⟩
        rw [bodyLines, if_neg hline, List.map_cons, toList_bareLine, hmore, List.map_cons]

def top (path : String) : List Char :=
  List.replicate 31 '-' ++ "+------[".toList ++ path.toList ++
    ']' :: List.replicate (45 - path.utf8ByteSize) '-'

def bottom : List Char := List.replicate 31 '-' ++ '+' :: List.replicate 53 '-'

/-- The text of a listing is its header, lines that show the whole source with all the words of the
rows, and its footer. -/
def PrintsAll (path source : String) (rows : List Row) : Prop :=
  ∃ texts lines, HasLines source.toList texts ∧ Shows 1 (texts.map String.ofList) rows lines ∧
    (print path source rows).toList =
      ([top path] ++ lines.map printed ++ [bottom]).flatMap (· ++ ['\n'])

theorem printsAll {source : String} {rows : List Row}
    (h : InOrder 1 (1 + (Text.lines source.toList).length) rows) (path : String) :
    PrintsAll path source rows := by
  have hlength : ((Text.lines source.toList).map String.ofList).length =
      (Text.lines source.toList).length := List.length_map ..
  obtain ⟨lines, hlines, hshows⟩ := exists_bodyLines (hlength ▸ h)
  refine ⟨_, lines, hasLines_iff.mpr rfl, hshows, ?_⟩
  have htop : (header path).toList = top path := by simp [header, rule, top]
  have hbottom : footer.toList = bottom := by simp [footer, rule, bottom]
  have hparts : ([header path] ++ bodyLines 1 ((Text.lines source.toList).map String.ofList) rows ++
      [footer]).map String.toList = [top path] ++ lines.map printed ++ [bottom] := by
    rw [List.map_append, List.map_append, hlines, List.map_singleton, List.map_singleton, htop,
      hbottom]
  rw [print, String.toList_join, ← hparts, List.flatMap_map, List.flatMap_map]
  exact List.flatMap_congr fun l _ => by simp [line]

end Listing

/-- The rows of an accepted source are on ascending lines of the source and account for the words
of every section, and however the file is called, the listing shows every source line once and
every word of a row once, next to its own line and with its own offset. -/
theorem listing_faithful (options : AssemblyOptions) (source : String) (a : Assembled)
    (h : assemble options source = .ok a) :
    InOrder 1 (1 + (Text.lines source.toList).length) a.listing ∧ a.ListsSections ∧
      ∀ path, Listing.PrintsAll path source a.listing := by
  obtain ⟨program, hread, h⟩ := bind_eq_ok.mp h
  obtain ⟨p, rfl⟩ := Program.assemble_eq_ok h
  exact ⟨p.inOrder hread, p.listsSections, Listing.printsAll (p.inOrder hread)⟩

/-- Sections that take turns, with an empty row, a label alone and a text behind the end. -/
theorem listing_faithful_twoSections :
    ∃ a, assemble {}
        "a: .word b\n.section d\n.skip 0\nb:\n.word 7\n.section .text\ncall a\n.end\n?" =
          .ok a ∧
      InOrder 1 10 a.listing ∧ a.ListsSections ∧
      Listing.PrintsAll "two.s"
        "a: .word b\n.section d\n.skip 0\nb:\n.word 7\n.section .text\ncall a\n.end\n?"
        a.listing := by
  have hsome : (assemble {}
      "a: .word b\n.section d\n.skip 0\nb:\n.word 7\n.section .text\ncall a\n.end\n?"
      ).toOption.isSome = true := by
    decide +kernel
  cases h : assemble {}
      "a: .word b\n.section d\n.skip 0\nb:\n.word 7\n.section .text\ncall a\n.end\n?" with
  | error e =>
    rw [h] at hsome
    cases hsome
  | ok a =>
    obtain ⟨horder, hsections, hprints⟩ := listing_faithful {} _ a h
    exact ⟨a, rfl, horder, hsections, hprints "two.s"⟩

end Toolchain32
