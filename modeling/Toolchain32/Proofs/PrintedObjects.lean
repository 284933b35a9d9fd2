import Toolchain32.Proofs.ObjectRows
import Toolchain32.Proofs.ParsedObjects
import Toolchain32.Proofs.WordMaps

/-!
# The text of an object read back

`Reads` says what some lines do to an object and its open block, whatever follows them. The lines of
a printed object are put together from headings, titles, blank lines and rows, so that reading them
all gives the tables of the object, with its data in the order of its section symbols:
`parse_print`.
-/

namespace Toolchain32.Object

open Text

variable {o p : Object} {b : Block} {name : String} {data : SectionData}

theorem after?_append (beginning : String) (s : List Char) :
    after? beginning (beginning.toList ++ s) = some s := by
  rw [after?]
  induction beginning.toList with
  | nil => cases s <;> rfl
  | cons c rest ih => simp [List.isPrefixOf?]

theorem after?_eq_none {beginning : String} {m c : Char} {ms t : List Char}
    (h : beginning.toList = m :: ms) (hne : m ≠ c) : after? beginning (c :: t) = none := by
  rw [after?, h, List.isPrefixOf?, if_neg (by simpa using hne)]

theorem ofList_ne {mark : String} {m c : Char} {ms t : List Char} (h : mark.toList = m :: ms)
    (hne : m ≠ c) : String.ofList (c :: t) ≠ mark := by
  rintro rfl
  rw [String.toList_ofList] at h
  exact hne (List.cons.inj h).1.symm

/-- A line whose first word begins with a digit is a row of the open block. -/
theorem readLine_row {raw w : List Char} {c : Char} {rest : List (List Char)}
    (h : words raw = (c :: w) :: rest) (hdigit : (digit? 16 c).isSome = true) :
    readLine o b raw = (o.addRow (words raw) b).map fun o => (o, b) := by
  have hother {mark : Char} (hmark : digit? 16 mark = none) : mark ≠ c := by
    rintro rfl
    rw [hmark] at hdigit
    cases hdigit
  have hI : 'I' ≠ c := hother (by decide)
  have hO : 'O' ≠ c := hother (by decide)
  have hS : 'S' ≠ c := hother (by decide)
  have hR : 'R' ≠ c := hother (by decide)
  obtain ⟨t, htrim⟩ := List.head?_eq_some_iff.mp (head?_trim h)
  have htitle : isTitle (c :: t) = false := by
    rw [isTitle, after?_eq_none rfl hI, after?_eq_none rfl hO]
    rfl
  have hheading : heading? (c :: t) = none := by
    rw [heading?, if_neg (ofList_ne rfl hS), if_neg (ofList_ne rfl hS), after?_eq_none rfl hR,
      after?_eq_none rfl hS]
    rfl
  unfold readLine
  dsimp only
  rw [words_trim, htrim, htitle, hheading]
  rfl

theorem readLine_numeral {raw s w : List Char} {base : Nat} {rest : List (List Char)}
    (h : words raw = w :: rest) (hw : s <+: w) (hs : IsNumeral base s) (hbase : base ≤ 16) :
    readLine o b raw = (o.addRow (words raw) b).map fun o => (o, b) := by
  obtain ⟨c, more, rfl, hdigit⟩ := hs.exists_cons hbase
  obtain ⟨t, rfl⟩ := hw
  exact readLine_row h hdigit

theorem readLine_blank (o : Object) (b : Block) : readLine o b "".toList = .ok (o, b.afterBlank) :=
  rfl

/-- A heading with the name of a section opens its block. -/
theorem readLine_heading {heading : String} {more : List Char} {c : Char} {opened : Block}
    (hcons : heading.toList = c :: more) (hI : 'I' ≠ c) (hO : 'O' ≠ c) (mark : List Char)
    (hmark : heading.toList = mark ++ " #".toList) (hword : IsWord mark)
    (hname : IsWord name.toList)
    (hopened : heading? (heading.toList ++ name.toList) = some opened) (o : Object) (b : Block) :
    readLine o b (heading ++ name).toList = .ok (o.openBlock opened, opened) := by
  have htrim : trim (heading.toList ++ name.toList) = heading.toList ++ name.toList := by
    rw [hmark, List.append_assoc]
    exact trim_between hword hname " #".toList
  have hne : (heading.toList ++ name.toList).isEmpty = false := by simp [hcons]
  have htitle : isTitle (heading.toList ++ name.toList) = false := by
    rw [hcons, List.cons_append, isTitle, after?_eq_none rfl hI, after?_eq_none rfl hO]
    rfl
  unfold readLine
  dsimp only
  rw [String.toList_append, htrim, hne, htitle, hopened]
  rfl

theorem readLine_relocationHeading (hname : IsWord name.toList) (o : Object) (b : Block) :
    readLine o b ("RELOCATION_DATA: #" ++ name).toList =
      .ok (o.updateData name id, .relocations name) := by
  have hopened : heading? ("RELOCATION_DATA: #".toList ++ name.toList) =
      some (.relocations name) := by
    have hcons : "RELOCATION_DATA: #".toList ++ name.toList =
        'R' :: ("ELOCATION_DATA: #".toList ++ name.toList) := rfl
    rw [heading?, after?_append, hcons, if_neg (ofList_ne rfl (by decide)),
      if_neg (ofList_ne rfl (by decide))]
    simp
  exact readLine_heading rfl (by decide) (by decide) "RELOCATION_DATA:".toList rfl
    (by decide) hname hopened o b

theorem readLine_wordHeading (hname : IsWord name.toList) (o : Object) (b : Block) :
    readLine o b ("SECTION_DATA: #" ++ name).toList =
      .ok (o.updateData name id, .words name) := by
  have hopened : heading? ("SECTION_DATA: #".toList ++ name.toList) = some (.words name) := by
    have htable {mark : String} (hmark : mark.toList.take 9 ≠ "SECTION_D".toList) :
        String.ofList ("SECTION_DATA: #".toList ++ name.toList) ≠ mark := by
      rintro rfl
      rw [String.toList_ofList] at hmark
      exact hmark rfl
    have hother : after? "RELOCATION_DATA: #" ("SECTION_DATA: #".toList ++ name.toList) = none :=
      after?_eq_none (c := 'S') rfl (by decide)
    rw [heading?, after?_append, hother, if_neg (htable (by decide)), if_neg (htable (by decide))]
    simp
  exact readLine_heading rfl (by decide) (by decide) "SECTION_DATA:".toList rfl
    (by decide) hname hopened o b

def Reads (lines : List String) (o : Object) (b : Block) (p : Object) (c : Block) : Prop :=
  ∀ (n : Nat) (rest : List (List Char)),
    readLines o b n (lines.map String.toList ++ rest) = readLines p c (n + lines.length) rest

variable {q : Object} {c d : Block} {first second : List String} {l : String}

theorem Reads.nil (o : Object) (b : Block) : Reads [] o b o b := fun _ _ => rfl

theorem Reads.append (hfirst : Reads first o b p c) (hsecond : Reads second p c q d) :
    Reads (first ++ second) o b q d := by
  intro n rest
  rw [List.map_append, List.append_assoc, hfirst, hsecond, List.length_append, Nat.add_assoc]

theorem Reads.line (h : readLine o b l.toList = .ok (p, c)) : Reads [l] o b p c := by
  intro n rest
  rw [List.map_singleton, List.singleton_append, readLines, h]
  rfl

theorem Reads.cons (h : readLine o b l.toList = .ok (p, c)) (hrest : Reads second p c q d) :
    Reads (l :: second) o b q d := (Reads.line h).append hrest

/-- Rows of one block, each of which is put in front of the rows before it. -/
theorem Reads.rows {α : Type} {row : α → String} {as : List α} (build : List α → Object)
    (h : ∀ a ∈ as, ∀ before,
      readLine (build before) b (row a).toList = .ok (build (a :: before), b))
    (before : List α) :
    Reads (as.map row) (build before) b (build (as.reverse ++ before)) b := by
  induction as generalizing before with
  | nil => exact Reads.nil _ b
  | cons a rest ih =>
    have hrest := ih (fun a ha => h a (List.mem_cons_of_mem _ ha)) (a :: before)
    rw [List.reverse_cons, List.append_assoc]
    exact Reads.cons (h a List.mem_cons_self before) hrest

theorem readLine_sectionLine {s : Section} (hid : s.id < 100000) (hname : IsWord s.name.toList)
    (o : Object) : readLine o .sections (sectionLine s).toList =
      .ok ({ o with sections := s :: o.sections }, .sections) := by
  have hnumeral := isNumeral_of_natural? (natural?_toString s.id)
  rw [readLine_numeral (words_sectionLine hid hname) List.prefix_rfl hnumeral (by decide), addRow,
    readSection_sectionLine hid hname]
  rfl

theorem readLine_symbolLine {s : ObjectSymbol} (hid : s.id < 100000)
    (howner : s.owner < 0x100000000) (hname : IsSolid s.name.toList)
    (o : Object) : readLine o .symbols (symbolLine s).toList =
      .ok ({ o with symbols := s :: o.symbols }, .symbols) := by
  have hnumeral := isNumeral_of_natural? (natural?_toString s.id)
  rw [readLine_numeral (words_symbolLine hid howner) List.prefix_rfl hnumeral (by decide), addRow,
    readSymbol_symbolLine hid howner hname]
  rfl

theorem reads_sectionTitle (o : Object) (b : Block) :
    Reads ["", "SECTION_TABLE", "ID    VALUE       NAME"] o b o .sections :=
  .cons (readLine_blank o b) (.cons rfl (.line rfl))

theorem reads_symbolTitle (o : Object) (b : Block) :
    Reads ["", "SYMBOL_TABLE", "ID    VALUE       TYPE      BINDING      SECTION      NAME"] o b o
      .symbols :=
  .cons (readLine_blank o b) (.cons rfl (.line rfl))

theorem reads_sections {sections : List Section} (hids : ∀ s ∈ sections, s.id < 100000)
    (hnames : ∀ s ∈ sections, IsWord s.name.toList) (o : Object) :
    Reads (sections.map sectionLine) o .sections
      { o with sections := sections.reverse ++ o.sections } .sections :=
  Reads.rows (fun sections => { o with sections })
    (fun s hs _ => readLine_sectionLine (hids s hs) (hnames s hs) _) o.sections

theorem reads_symbols {symbols : List ObjectSymbol} (hids : ∀ s ∈ symbols, s.id < 100000)
    (howners : ∀ s ∈ symbols, s.owner < 0x100000000)
    (hnames : ∀ s ∈ symbols, IsSolid s.name.toList) (o : Object) :
    Reads (symbols.map symbolLine) o .symbols
      { o with symbols := symbols.reverse ++ o.symbols } .symbols :=
  Reads.rows (fun symbols => { o with symbols })
    (fun s hs _ => readLine_symbolLine (hids s hs) (howners s hs) (hnames s hs) _) o.symbols

def withData (o : Object) (name : String) (data : SectionData) : Object :=
  { o with data := o.data ++ [(name, data)] }

theorem updateEntry_append {before : List (String × SectionData)}
    (h : name ∉ before.map (·.1)) (f : SectionData → SectionData)
    (rest : List (String × SectionData)) :
    updateEntry name f (before ++ rest) = before ++ updateEntry name f rest := by
  induction before with
  | nil => rfl
  | cons e before ih =>
    rw [List.map_cons] at h
    have hne : e.1 ≠ name := Ne.symm (List.ne_of_not_mem_cons h)
    rw [List.cons_append, updateEntry, if_neg hne, ih (List.not_mem_of_not_mem_cons h)]
    rfl

/-- The first heading of a section adds its data. -/
theorem updateData_of_not_mem (h : name ∉ o.dataNames) (f : SectionData → SectionData) :
    o.updateData name f = o.withData name (f .empty) := by
  have hentry := updateEntry_append h f []
  rw [List.append_nil] at hentry
  rw [updateData, hentry]
  rfl

theorem updateData_withData (h : name ∉ o.dataNames) (f : SectionData → SectionData) :
    (o.withData name data).updateData name f = o.withData name (f data) := by
  have hentry := updateEntry_append h f [(name, data)]
  rw [updateEntry, if_pos rfl] at hentry
  exact congrArg (fun data => { o with data }) hentry

structure IsRow (r : Relocation) : Prop where
  symbol : IsWord r.symbol.toList
  origin : IsOrigin r.origin.toList

instance : DecidablePred IsRow := fun r =>
  decidable_of_iff (IsWord r.symbol.toList ∧ IsOrigin r.origin.toList)
    ⟨fun h => ⟨h.1, h.2⟩, fun h => ⟨h.symbol, h.origin⟩⟩

theorem readLine_relocationLine {r : Relocation} (hr : IsRow r) (o : Object) :
    readLine o (.relocations name) (relocationLine r).toList =
      .ok (o.updateData name fun d => { d with relocations := r :: d.relocations },
        .relocations name) := by
  have hnumeral := isNumeral_of_natural? (natural?_hex 8 r.offset.toNat)
  rw [readLine_numeral (words_relocationLine hr.symbol hr.origin) List.prefix_rfl hnumeral
    (by decide), addRow, readRelocation_relocationLine hr.symbol hr.origin]
  rfl

theorem readLine_wordLine (w : Word × Slot) (o : Object) :
    readLine o (.words name) (wordLine w).toList =
      .ok (o.updateData name fun d => { d with words := d.words.insert w.1 w.2 },
        .words name) := by
  have hnumeral := isNumeral_of_natural? (natural?_hex 4 w.1.toNat)
  rw [readLine_numeral (words_wordLine w) (List.prefix_append _ _) hnumeral (by decide), addRow,
    readWord_wordLine]
  rfl

theorem reads_relocations (hname : name ∉ o.dataNames) {relocations : List Relocation}
    (hrows : ∀ r ∈ relocations, IsRow r) (data : SectionData) :
    Reads (relocations.map relocationLine) (o.withData name data) (.relocations name)
      (o.withData name { data with relocations := relocations.reverse ++ data.relocations })
      (.relocations name) := by
  refine Reads.rows (fun relocations => o.withData name { data with relocations })
    (fun r hr before => ?_) data.relocations
  rw [readLine_relocationLine (hrows r hr), updateData_withData hname]

theorem reads_words (hname : name ∉ o.dataNames) (words : List (Word × Slot))
    (data : SectionData) :
    Reads (words.map wordLine) (o.withData name data) (.words name)
      (o.withData name { data with words := WordMap.insertAll data.words words })
      (.words name) := by
  have hrows := Reads.rows
    (fun before =>
      o.withData name { data with words := WordMap.insertAll data.words before.reverse })
    (fun w (_ : w ∈ words) before => by
      rw [readLine_wordLine, updateData_withData hname, List.reverse_cons,
        WordMap.insertAll_concat]) []
  rw [List.append_nil, List.reverse_reverse] at hrows
  exact hrows

def stored (data : SectionData) : SectionData :=
  { data with relocations := data.relocations.reverse }

/-- Both lists of a section, of which the second one may be empty. -/
theorem reads_dataLines (hname : IsWord name.toList) (hfresh : name ∉ o.dataNames)
    (hrows : ∀ r ∈ data.relocations, IsRow r) (b : Block) :
    Reads (dataLines name data) o b (o.withData name (stored data)) (.words name) := by
  have hopen : o.updateData name id = o.withData name .empty := updateData_of_not_mem hfresh id
  have hkeep (d : SectionData) : (o.withData name d).updateData name id = o.withData name d :=
    updateData_withData hfresh id
  have hheading : Reads ["", "RELOCATION_DATA: #" ++ name,
      "OFFSET       TYPE         SYMBOL         ADDEND"] o b (o.withData name .empty)
      (.relocations name) :=
    .cons (readLine_blank o b) (.cons
      ((readLine_relocationHeading hname o _).trans (by rw [hopen])) (.line rfl))
  have hrelocations : Reads (data.relocations.map relocationLine) (o.withData name .empty)
      (.relocations name) (o.withData name ⟨data.relocations.reverse, ∅⟩) (.relocations name) := by
    have hread := reads_relocations hfresh hrows ⟨[], ∅⟩
    rwa [List.append_nil] at hread
  have hsecond : Reads ["", "SECTION_DATA: #" ++ name]
      (o.withData name ⟨data.relocations.reverse, ∅⟩) (.relocations name)
      (o.withData name ⟨data.relocations.reverse, ∅⟩) (.words name) :=
    .cons (readLine_blank _ _) (.line ((readLine_wordHeading hname _ _).trans (by rw [hkeep])))
  have hwords : Reads (data.words.toList.map wordLine)
      (o.withData name ⟨data.relocations.reverse, ∅⟩) (.words name)
      (o.withData name (stored data)) (.words name) := by
    have hread := reads_words hfresh data.words.toList ⟨data.relocations.reverse, ∅⟩
    rwa [WordMap.insertAll_toList] at hread
  have hlast : Reads (if (data.words.toList.map wordLine).isEmpty then [""]
        else data.words.toList.map wordLine) (o.withData name ⟨data.relocations.reverse, ∅⟩)
      (.words name) (o.withData name (stored data)) (.words name) := by
    split
    · rename_i hempty
      rw [List.isEmpty_iff.mp hempty] at hwords
      -- A blank line leaves the word list open.
      exact hwords.append (.line (readLine_blank _ _))
    · exact hwords
  exact ((hheading.append hrelocations).append hsecond).append hlast

/-- The data of several sections, each with its own name. -/
theorem reads_data (names : List String) (data : String → SectionData) (hnodup : names.Nodup)
    (hfresh : ∀ n ∈ names, n ∉ o.dataNames) (hnames : ∀ n ∈ names, IsWord n.toList)
    (hrows : ∀ n ∈ names, ∀ r ∈ (data n).relocations, IsRow r) (b : Block) :
    ∃ c, Reads (names.flatMap fun n => dataLines n (data n)) o b
      { o with data := o.data ++ names.map fun n => (n, stored (data n)) } c := by
  induction names generalizing o b with
  | nil => exact ⟨b, by simpa using Reads.nil o b⟩
  | cons name rest ih =>
    obtain ⟨hname, hrest⟩ := List.nodup_cons.mp hnodup
    have hfirst := reads_dataLines (hnames name List.mem_cons_self)
      (hfresh name List.mem_cons_self) (hrows name List.mem_cons_self) b
    have hfresh' : ∀ n ∈ rest, n ∉ (o.withData name (stored (data name))).dataNames := by
      intro n hn hmem
      rw [dataNames, withData, List.map_append, List.mem_append] at hmem
      rcases hmem with hmem | hmem
      · exact hfresh n (List.mem_cons_of_mem _ hn) hmem
      · obtain rfl : n = name := List.mem_singleton.mp hmem
        exact hname hn
    obtain ⟨c, hothers⟩ := ih hrest hfresh' (fun n hn => hnames n (List.mem_cons_of_mem _ hn))
      (fun n hn => hrows n (List.mem_cons_of_mem _ hn)) (.words name)
    refine ⟨c, ?_⟩
    have hboth := hfirst.append hothers
    rw [withData, List.append_assoc] at hboth
    exact hboth

/-- An object whose names stay apart from the other columns of their rows. Only a symbol that is not
a section may have no name. -/
structure Spelled (o : Object) : Prop where
  names : ∀ s ∈ o.symbols, IsSolid s.name.toList
  sectionNames : ∀ s ∈ o.sections, IsWord s.name.toList
  relocations : ∀ e ∈ o.data, ∀ r ∈ e.2.relocations, IsRow r
  listed : ∀ s ∈ o.sectionSymbols, s.name ∈ o.sectionNames

structure Printable (o : Object) : Prop extends o.Spelled where
  ids : ∀ (i : Nat) (s : ObjectSymbol), o.symbols[i]? = some s → s.id = i
  count : o.symbols.length ≤ 100000
  owners : ∀ s ∈ o.symbols, s.owner < 0x100000000
  sectionIds : ∀ s ∈ o.sections, s.id ≤ 99999
  distinct : (o.sectionSymbols.map (·.name)).Nodup
  keys : ∀ name, name ∈ o.dataNames ↔ name ∈ o.sectionSymbols.map (·.name)
  words : ∀ e ∈ o.data, ∀ (x : Word) (slot : Slot), e.2.words[x]? = some slot →
    x.toNat + 4 ≤ o.sizeOf e.1

def tidied (o : Object) : Object :=
  { o with data := o.sectionSymbols.map fun s => (s.name, (o.data? s.name).getD .empty) }

theorem tidied_same (h : o.Printable) : o.tidied.Same o := by
  refine ⟨rfl, rfl, fun name => ?_⟩
  have hlookup (symbols : List ObjectSymbol) :
      (symbols.map fun s => (s.name, (o.data? s.name).getD .empty)).lookup name =
        if name ∈ symbols.map (·.name) then some ((o.data? name).getD .empty) else none := by
    induction symbols with
    | nil => rfl
    | cons s rest ih =>
      rw [List.map_cons, lookup_cons_ite, ih, List.map_cons]
      by_cases hs : name = s.name
      · simp [hs]
      · simp [hs]
  rw [data?, tidied, hlookup]
  by_cases hname : name ∈ o.sectionSymbols.map (·.name)
  · have hsome : (o.data? name).isSome = true := by
      rw [data?, lookup_isSome_iff_mem]
      exact (h.keys name).mpr hname
    obtain ⟨data, hdata⟩ := Option.isSome_iff_exists.mp hsome
    rw [if_pos hname, hdata]
    rfl
  · have hnone : (o.data? name).isSome ≠ true := by
      rw [data?, ne_eq, lookup_isSome_iff_mem]
      exact fun hmem => hname ((h.keys name).mp hmem)
    rw [if_neg hname, Option.not_isSome_iff_eq_none.mp hnone]

theorem mem_data_of_data? {data : SectionData} (h : o.data? name = some data) :
    (name, data) ∈ o.data := by
  obtain ⟨before, after, hsplit, -⟩ := List.lookup_eq_some_iff.mp h
  rw [hsplit]
  exact List.mem_append_right before List.mem_cons_self

theorem flaw?_tidied (h : o.Printable) : o.tidied.flaw? = none := by
  rw [flaw?_eq_none]
  refine ⟨h.ids, h.listed, fun e he => ?_⟩
  obtain ⟨s, hs, rfl⟩ := List.mem_map.mp he
  refine ⟨h.listed s hs, fun x slot hslot => ?_⟩
  cases hdata : o.data? s.name with
  | none =>
    rw [hdata] at hslot
    simp [SectionData.empty] at hslot
  | some data =>
    rw [hdata] at hslot
    exact h.words _ (mem_data_of_data? hdata) x slot hslot

theorem Spelled.isWord_sectionSymbol (h : o.Spelled) {s : ObjectSymbol}
    (hs : s ∈ o.sectionSymbols) : IsWord s.name.toList := by
  obtain ⟨sec, hsec, hname⟩ := List.mem_map.mp (h.listed s hs)
  exact hname ▸ h.sectionNames sec hsec

theorem Spelled.isRow (h : o.Spelled) (name : String) :
    ∀ r ∈ ((o.data? name).getD .empty).relocations, IsRow r := by
  intro r hr
  cases hdata : o.data? name with
  | none =>
    rw [hdata] at hr
    cases hr
  | some data =>
    rw [hdata] at hr
    exact h.relocations _ (mem_data_of_data? hdata) r hr

/-- Ids that count the rows of a table. -/
theorem id_lt_of_mem_take {α : Type} {id : α → Nat} {rows : List α}
    (hids : ∀ (i : Nat) (a : α), rows[i]? = some a → id a = i) (n : Nat) :
    ∀ a ∈ rows.take n, id a < n := by
  intro a ha
  obtain ⟨i, hi, rfl⟩ := List.mem_take_iff_getElem.mp ha
  rw [hids i _ (List.getElem?_eq_getElem _)]
  omega

theorem Printable.id_lt (h : o.Printable) : ∀ s ∈ o.symbols, s.id < 100000 := by
  have hids := id_lt_of_mem_take h.ids 100000
  rwa [List.take_of_length_le h.count] at hids

theorem readLines_printLines (h : o.Printable) :
    readLines empty .outside 1 (o.printLines.map String.toList) = .ok o.tidied.reversed := by
  have hids : ∀ s ∈ o.sections, s.id < 100000 := fun s hs => Nat.lt_succ_of_le (h.sectionIds s hs)
  have hsections := reads_sections hids h.sectionNames empty
  have hsymbols := reads_symbols h.id_lt h.owners h.names
    { empty with sections := o.sections.reverse ++ [] }
  obtain ⟨c, hdata⟩ := reads_data (o.sectionSymbols.map (·.name))
    (fun name => (o.data? name).getD .empty)
    (o := ⟨o.sections.reverse ++ [], o.symbols.reverse ++ [], []⟩)
    h.distinct (by rintro n - ⟨⟩)
    (fun n hn => by
      obtain ⟨s, hs, rfl⟩ := List.mem_map.mp hn
      exact h.toSpelled.isWord_sectionSymbol hs)
    (fun n _ => h.toSpelled.isRow n) .symbols
  have hall := ((((reads_sectionTitle empty .outside).append hsections).append
    (reads_symbolTitle _ _)).append hsymbols).append hdata
  have hlines := hall 1 []
  rw [List.append_nil, List.flatMap_map] at hlines
  refine hlines.trans ?_
  simp [readLines, reversed, tidied, stored, Function.comp_def]

theorem isLine_of_mem_dataLines (hname : IsWord name.toList)
    (hrows : ∀ r ∈ data.relocations, IsRow r) : ∀ l ∈ dataLines name data, IsLine l.toList := by
  intro l hl
  simp only [dataLines, List.mem_append, List.mem_cons, List.not_mem_nil, or_false] at hl
  rcases hl with ((((rfl | rfl | rfl) | hl) | (rfl | rfl)) | hl)
  · decide
  · exact isLine_append.mpr ⟨by decide, hname.isLine⟩
  · decide
  · obtain ⟨r, hr, rfl⟩ := List.mem_map.mp hl
    exact isLine_relocationLine (hrows r hr).symbol (hrows r hr).origin
  · decide
  · exact isLine_append.mpr ⟨by decide, hname.isLine⟩
  · split at hl
    · obtain rfl := List.mem_singleton.mp hl
      decide
    · obtain ⟨w, -, rfl⟩ := List.mem_map.mp hl
      exact isLine_wordLine w

theorem isLine_of_mem_printLines (h : o.Spelled) : ∀ l ∈ o.printLines, IsLine l.toList := by
  intro l hl
  simp only [printLines, List.mem_append, List.mem_cons, List.not_mem_nil, or_false] at hl
  rcases hl with ((((rfl | rfl | rfl) | hl) | (rfl | rfl | rfl)) | hl) | hl
  · decide
  · decide
  · decide
  · obtain ⟨s, hs, rfl⟩ := List.mem_map.mp hl
    exact isLine_sectionLine (h.sectionNames s hs)
  · decide
  · decide
  · decide
  · obtain ⟨s, hs, rfl⟩ := List.mem_map.mp hl
    exact isLine_symbolLine (h.names s hs)
  · obtain ⟨s, hs, hl⟩ := List.mem_flatMap.mp hl
    exact isLine_of_mem_dataLines (h.isWord_sectionSymbol hs) (h.isRow s.name) l hl

theorem lines_print (h : o.Spelled) : lines o.print.toList = o.printLines.map String.toList :=
  lines_join (isLine_of_mem_printLines h)

/-- A printable object is read back. -/
theorem parse_print (h : o.Printable) : parse o.print = .ok o.tidied := by
  have hreversed : o.tidied.reversed.reversed = o.tidied := by
    simp [reversed, Function.comp_def]
  rw [parse, lines_print h.toSpelled, readLines_printLines h]
  simp only [bind, Except.bind, hreversed, flaw?_tidied h]
  rfl

/-- The text of a printable object gives the same object. -/
theorem exists_parse_print (h : o.Printable) : ∃ p, parse o.print = .ok p ∧ p.Same o :=
  ⟨o.tidied, parse_print h, tidied_same h⟩

/-- An object with a section of no size, a section with two rows, a symbol without a name, words at
odd offsets and a relocation without an origin. -/
def oddObject : Object where
  sections := [⟨99999, "t", 9⟩, ⟨0, "e", 0⟩, ⟨0, "t", 4⟩]
  symbols := [.null, ⟨1, "e", 0, .ofSection, 1, .localOnly⟩, ⟨2, "t", 0, .ofSection, 2, .localOnly⟩,
    ⟨3, "", 0xFFFFFFFF, .plain, 4294967295, .undefined⟩]
  data :=
    [("t", ⟨[⟨5, .sectionRelative, "e", 0xFFFFFFFC, ""⟩, ⟨0xFFFFFFFF, .absolute, "(", 0, "a)b"⟩],
      Std.ExtTreeMap.ofList [((5 : Word), Slot.placeholder), (1, .word 0xABCDEF)]⟩), ("e", .empty)]

theorem exists_parse_print_oddObject :
    ∃ p, parse oddObject.print = .ok p ∧ p.Same oddObject := by
  obtain ⟨hids, hlisted, hdata⟩ := flaw?_eq_none.mp
    (by decide +kernel : oddObject.flaw? = none)
  refine exists_parse_print
    { ids := hids
      count := by decide
      owners := by decide
      names := by decide
      sectionIds := by decide
      sectionNames := by decide
      relocations := by decide
      distinct := by decide
      listed := hlisted
      keys := fun name => ?_
      words := fun e he => (hdata e he).2 }
  have hkeys : oddObject.dataNames = ["t", "e"] := rfl
  have hsymbols : oddObject.sectionSymbols.map (·.name) = ["e", "t"] := by decide
  rw [hkeys, hsymbols]
  simp [or_comm]

end Toolchain32.Object
