import AliasCheck.Command.Run
import AliasCheck.Proofs.Parts
import AliasCheck.Proofs.WrittenDocuments

/-!
# One document on each line

A file that holds values on lines of their own, with blank lines between them, stands for the same
documents as one file for each value: none is lost, merged or doubled, and each is labelled with the
number of its line.
-/

namespace AliasCheck

open Json (Shown)

/-! ## Lines and blank lines -/

/-- What stands on a line of a file. -/
inductive Row where
  | blank (spaces : List Char)
  | value (x : Json)

namespace Row

/-- The text on a line. -/
def text : Row → List Char
  | blank spaces => spaces
  | value x => x.write

/-- The value on a line. -/
def value? : Row → Option Json
  | blank _ => none
  | value x => some x

/-- A blank line holds only spaces and tabs, and any other line a value that can be held. -/
def IsPlain : Row → Prop
  | blank spaces => ∀ c ∈ spaces, c = ' ' ∨ c = '\t'
  | value x => x.IsHeld

/-- The text of lines, each with its end, and of a last line without one. A line ends with a line
feed, which may have a carriage return in front of it. -/
def fileText (rows : List (Row × Bool)) (last : Row) : List Char :=
  rows.flatMap (fun (row, carriage) => row.text ++ if carriage then ['\r', '\n'] else ['\n'])
    ++ last.text

/-- The values on lines, with the numbers of their lines from `first` on. Blank lines count. -/
def numbered (first : Nat) (rows : List Row) : List (Json × Nat) :=
  (rows.zipIdx first).filterMap fun (row, number) => row.value?.map fun x => (x, number)

section Lines

variable {row last : Row} {rows : List Row} {path : String}

/-- There is no end of a line in the text of a line. -/
theorem IsPlain.notMem (h : row.IsPlain) : '\n' ∉ row.text ∧ '\r' ∉ row.text := by
  have hchars : ∀ c ∈ row.text, c ≠ '\n' ∧ c ≠ '\r' := by
    intro c hc
    cases row with
    | blank spaces => rcases h c hc with rfl | rfl <;> decide
    | value x =>
      have hshown : 0x20 ≤ c.toNat := Json.shown_write x h.numbers c hc
      constructor <;> rintro rfl <;> exact absurd hshown (by decide)
  exact ⟨fun hmem => (hchars _ hmem).1 rfl, fun hmem => (hchars _ hmem).2 rfl⟩

/-- A line is blank if there is no value on it. -/
theorem isBlankLine_text (h : row.IsPlain) :
    Document.isBlankLine row.text = row.value?.isNone := by
  cases row with
  | blank spaces =>
    refine List.all_eq_true.mpr fun c hc => ?_
    rcases h c hc with rfl | rfl <;> decide
  | value x =>
    obtain ⟨c, cs, htext, hspace⟩ := Json.head_write x h.numbers
    show x.write.all Unicode.isSpace = false
    rw [htext, List.all_cons, hspace, Bool.false_and]

/-- Only a blank line has no text at all. -/
theorem value?_of_text_eq_nil (h : row.IsPlain) (hnil : row.text = []) : row.value? = none := by
  cases row with
  | blank spaces => rfl
  | value x =>
    obtain ⟨c, cs, htext, -⟩ := Json.head_write x h.numbers
    have hempty : x.write = [] := hnil
    rw [htext] at hempty
    cases hempty

/-- The lines of a text that is made of lines. -/
theorem lines_fileText {rows : List (Row × Bool)} (hrows : ∀ row ∈ rows, row.1.IsPlain)
    (hlast : last.IsPlain) : lines (fileText rows last)
      = rows.map (fun row => row.1.text) ++ if last.text.isEmpty then [] else [last.text] := by
  induction rows with
  | nil => exact lines_of_notMem hlast.notMem.1
  | cons entry rows ih =>
    obtain ⟨row, carriage⟩ := entry
    obtain ⟨hrow, hmore⟩ := List.forall_mem_cons.mp hrows
    have hrest := ih hmore
    have hline : '\n' ∉ row.text ++ ['\r'] := by
      rw [List.mem_append, not_or]
      exact ⟨hrow.notMem.1, by decide⟩
    rw [List.map_cons, List.cons_append, ← hrest]
    cases carriage with
    | false =>
      have htext : fileText ((row, false) :: rows) last
          = row.text ++ '\n' :: fileText rows last := by
        simp [fileText]
      rw [htext, lines_append hrow.notMem.1, dropReturn_of_notMem hrow.notMem.2]
    | true =>
      have htext : fileText ((row, true) :: rows) last
          = row.text ++ ['\r'] ++ '\n' :: fileText rows last := by
        simp [fileText]
      rw [htext, lines_append hline, dropReturn_append]

theorem numbered_cons (first : Nat) (row : Row) (rows : List Row) :
    numbered first (row :: rows)
      = (row.value?.map fun x => (x, first)).toList ++ numbered (first + 1) rows := by
  cases hvalue : row.value? with
  | none => simp [numbered, List.zipIdx_cons, hvalue]
  | some x => simp [numbered, List.zipIdx_cons, hvalue]

theorem numbered_append (first : Nat) (rows more : List Row) :
    numbered first (rows ++ more)
      = numbered first rows ++ numbered (first + rows.length) more := by
  rw [numbered, List.zipIdx_append, List.filterMap_append]
  rfl

/-- The lines that are not blank hold the values, and each value is read from its line. -/
theorem mapM_ofLine (hrows : ∀ row ∈ rows, row.IsPlain) (first : Nat) :
    (((rows.map text).zipIdx first).filter fun (line, _) => ! Document.isBlankLine line).mapM
        (fun (line, number) => Document.ofLine path line number)
      = .ok ((numbered first rows).map fun (x, number) =>
          (⟨s!"{path}:{number}", x.reread⟩ : Document)) := by
  induction rows generalizing first with
  | nil => rfl
  | cons row rows ih =>
    obtain ⟨hrow, hmore⟩ := List.forall_mem_cons.mp hrows
    have hrest := ih hmore (first + 1)
    have hblank := isBlankLine_text hrow
    rw [List.map_cons, List.zipIdx_cons, numbered_cons]
    cases row with
    | blank spaces =>
      rw [List.filter_cons_of_neg (by simp [hblank, value?])]
      exact hrest
    | value x =>
      have hparse : Json.parse (value x).text = .ok x.reread := hrow.parse_write
      have hline : Document.ofLine path (value x).text first
          = .ok ⟨s!"{path}:{first}", x.reread⟩ := by
        rw [Document.ofLine, hparse]
      rw [List.filter_cons_of_pos (by simp [hblank, value?]), List.mapM_cons]
      show (Document.ofLine path (value x).text first >>= _) = _
      rw [hline, hrest]
      rfl

/-- The documents in a text that is made of lines. -/
theorem ofLines_fileText {rows : List (Row × Bool)}
    (hrows : ∀ row ∈ rows.map Prod.fst ++ [last], row.IsPlain) :
    Document.ofLines path (fileText rows last)
      = .ok ((numbered 1 (rows.map Prod.fst ++ [last])).map fun (x, number) =>
          (⟨s!"{path}:{number}", x.reread⟩ : Document)) := by
  obtain ⟨hfront, hlast⟩ := List.forall_mem_append.mp hrows
  have hplain : last.IsPlain := hlast last List.mem_cons_self
  have hends : ∀ row ∈ rows, row.1.IsPlain :=
    fun row hrow => hfront row.1 (List.mem_map_of_mem hrow)
  rw [Document.ofLines, lines_fileText hends hplain]
  have hmap : rows.map (fun row => row.1.text) = (rows.map Prod.fst).map text := by
    rw [List.map_map]
    rfl
  by_cases hnil : last.text = []
  · have hnone := value?_of_text_eq_nil hplain hnil
    rw [hnil, List.isEmpty_nil, if_pos rfl, List.append_nil, hmap, mapM_ofLine hfront,
      numbered_append, numbered_cons, hnone]
    simp [numbered]
  · rw [if_neg (by rwa [List.isEmpty_iff]), hmap, ← mapM_ofLine hrows, List.map_append]
    rfl

/-- The values on plain lines can be held. -/
theorem isHeld_of_mem_numbered {first number : Nat} {x : Json}
    (hrows : ∀ row ∈ rows, row.IsPlain) (h : (x, number) ∈ numbered first rows) : x.IsHeld := by
  rw [numbered, List.mem_filterMap] at h
  obtain ⟨⟨row, n⟩, hmem, hvalue⟩ := h
  have hrow := hrows row (List.fst_mem_of_mem_zipIdx hmem)
  cases row with
  | blank spaces => cases hvalue
  | value y =>
    cases hvalue
    exact hrow

end Lines
end Row

/-! ## Checks of one file -/

namespace Document

variable {files : Files} {linewise : Bool} {input path : String} {documents : List Document}

theorem load_eq_ok_iff {inputs : List String} : load files linewise inputs = .ok documents ↔
    ∃ found parts, inputs.mapM (paths files) = .ok found ∧
      found.flatten.mapM (ofFile files linewise) = .ok parts ∧ documents = parts.flatten := by
  rw [load, bind_eq_ok]
  refine exists_congr fun found => ?_
  rw [bind_eq_ok]
  constructor
  · rintro ⟨hfound, parts, hparts, hpure⟩
    exact ⟨parts, hfound, hparts, ok_eq_ok.mp hpure⟩
  · rintro ⟨parts, hfound, hparts, rfl⟩
    exact ⟨hfound, parts, hparts, rfl⟩

/-- The documents of a single file are all that is loaded. -/
theorem load_eq_ok (hpaths : paths files input = .ok [path])
    (hfile : ofFile files linewise path = .ok documents) :
    load files linewise [input] = .ok documents :=
  load_eq_ok_iff.mpr ⟨[[path]], [documents], mapM_eq_ok.mpr (.cons hpaths .nil),
    mapM_eq_ok.mpr (.cons hfile .nil), List.flatten_singleton.symm⟩

/-- The document in a file that holds the text of a value. -/
theorem ofFile_compact {x : Json} (hx : x.IsHeld) (hread : files.read path = .ok x.compact) :
    ofFile files false path = .ok [⟨path, x.reread⟩] := by
  have hparse : Json.parse x.compact.toList = .ok x.reread := by
    rw [Json.compact, String.toList_ofList]
    exact hx.parse_write
  rw [ofFile, hread]
  simp only [Bool.false_eq_true, if_false, ofText, hparse]
  rfl

end Document

/-- A source is read and then parsed. -/
theorem Registry.ofSourceFile_eq_ok {files : Files} {path text : String} {r : Registry}
    (hread : files.read path = .ok text) (hparse : ofSource text = .ok r) :
    ofSourceFile files path = .ok r := by
  rw [ofSourceFile, hread]
  show (ofSource text).mapError _ = _
  rw [hparse]
  rfl

/-- A registry file is read and then parsed. -/
theorem Registry.ofRegistryFile_eq_ok {files : Files} {path text : String} {r : Registry}
    (hread : files.read path = .ok text) (hparse : parse text.toList = .ok r) :
    ofRegistryFile files path = .ok r := by
  rw [ofRegistryFile, hread]
  show (parse text.toList).mapError _ = _
  rw [hparse]
  rfl

namespace CheckOptions

variable {options : CheckOptions} {files : Files} {v : Validator} {documents : List Document}

theorem validator_eq_ok {r : Registry} {s : Schema}
    (horigin : Registry.ofOrigin files options.origin = .ok r)
    (hname : Table.get? options.typeName r = some s)
    (hcompile : Validator.compile options.checks s = .ok v) : options.validator files = .ok v := by
  unfold validator
  rw [horigin]
  simp only [bind, Except.bind, hname, hcompile]
  rfl

theorem findings_eq_ok_iff {found : List (Document × List KeyedError)} :
    options.findings files = .ok found ↔
    ∃ v documents, options.validator files = .ok v ∧
      Document.load files options.linewise options.inputs = .ok documents ∧
      found = documents.map fun document => (document, v.validate document.value) := by
  rw [findings, bind_eq_ok]
  refine exists_congr fun v => ?_
  rw [bind_eq_ok]
  constructor
  · rintro ⟨hv, documents, hload, hpure⟩
    exact ⟨documents, hv, hload, ok_eq_ok.mp hpure⟩
  · rintro ⟨documents, hv, hload, rfl⟩
    exact ⟨hv, documents, hload, rfl⟩

theorem findings_eq_ok (hvalidator : options.validator files = .ok v)
    (hload : Document.load files options.linewise options.inputs = .ok documents) :
    options.findings files
      = .ok (documents.map fun document => (document, v.validate document.value)) :=
  findings_eq_ok_iff.mpr ⟨v, documents, hvalidator, hload, rfl⟩

/-- A file that holds values on lines of their own, between blank lines, stands for one document for
each value, in their order and with the numbers of their lines. The errors of each document are
those that are found when the same text stands alone in a file. -/
theorem findings_linewise {rows : List (Row × Bool)} {last : Row} {input path text : String}
    (hrows : ∀ row ∈ rows.map Prod.fst ++ [last], row.IsPlain)
    (hlinewise : options.linewise = true) (hinputs : options.inputs = [input])
    (hpaths : Document.paths files input = .ok [path]) (hread : files.read path = .ok text)
    (htext : text.toList = Row.fileText rows last)
    (hvalidator : options.validator files = .ok v) :
    options.findings files
        = .ok ((Row.numbered 1 (rows.map Prod.fst ++ [last])).map fun (x, number) =>
            (⟨s!"{path}:{number}", x.reread⟩, v.validate x.reread)) ∧
      ∀ x number, (x, number) ∈ Row.numbered 1 (rows.map Prod.fst ++ [last]) →
        ∀ files' input' alone, Document.paths files' input' = .ok [alone] →
          files'.read alone = .ok x.compact → options.validator files' = .ok v →
          { options with linewise := false, inputs := [input'] }.findings files'
            = .ok [(⟨alone, x.reread⟩, v.validate x.reread)] := by
  constructor
  · have hfile : Document.ofFile files true path
        = .ok ((Row.numbered 1 (rows.map Prod.fst ++ [last])).map fun (x, number) =>
            (⟨s!"{path}:{number}", x.reread⟩ : Document)) := by
      rw [Document.ofFile, hread]
      simp only [if_true, htext]
      exact Row.ofLines_fileText hrows
    have hload := Document.load_eq_ok hpaths hfile
    rw [← hlinewise, ← hinputs] at hload
    rw [findings_eq_ok hvalidator hload, List.map_map]
    rfl
  · intro x number hmem files' input' alone hpaths' hread' hvalidator'
    have hx := Row.isHeld_of_mem_numbered hrows hmem
    have hload := Document.load_eq_ok hpaths' (Document.ofFile_compact hx hread')
    exact @findings_eq_ok { options with linewise := false, inputs := [input'] } _ _ _
      hvalidator' hload

/-- A blank line, both line ends, a line separator inside of a string, and a last line without an
end. -/
theorem findings_linewise_example :
    let options : CheckOptions := ⟨.registry "r", "A", [], [], [], true, ["d"], false⟩
    let files : Files := ⟨.directory [
      ("r", .file (some "\x7b\"A\":[\"Object\",false,null,[[\"k\",[\"string\"]]]]\x7d")),
      ("d", .file (some "\x7b\"k\":\"\u2028 \"\x7d\r\n \t\n[0.1]"))], []⟩
    ∃ v, options.validator files = .ok v ∧ options.findings files
      = .ok [(⟨"d:1", .object [("k", .string "\u2028 ")]⟩, []),
          (⟨"d:3", .array [.number (.float ⟨false, 7205759403792794, -56⟩)]⟩,
            [⟨"k", none, "missing"⟩])] := by
  intro options files
  have hregistry : Registry.parse
      "\x7b\"A\":[\"Object\",false,null,[[\"k\",[\"string\"]]]]\x7d".toList
        = .ok [("A", .object [⟨"k", .value "string", false⟩])] := by
    decide +kernel
  have hstored : files.read "r"
      = .ok "\x7b\"A\":[\"Object\",false,null,[[\"k\",[\"string\"]]]]\x7d" := by
    decide +kernel
  have hread : files.read "d" = .ok "\x7b\"k\":\"\u2028 \"\x7d\r\n \t\n[0.1]" := by
    decide +kernel
  have hvalidator : options.validator files
      = .ok [⟨"k", Validator.guarded false (Check.ofType "string")⟩] :=
    validator_eq_ok (Registry.ofRegistryFile_eq_ok hstored hregistry) rfl rfl
  have hplain : ∀ row ∈ [(Row.value (.object [("k", .string "\u2028 ")]), true),
      (Row.blank [' ', '\t'], false)].map Prod.fst
        ++ [Row.value (.array [.number (.float ⟨false, 7205759403792794, -56⟩)])],
      row.IsPlain := by
    have hfirst : (Json.object [("k", .string "\u2028 ")]).IsHeld :=
      ⟨⟨by decide, trivial, trivial⟩, ⟨trivial, trivial⟩, by decide⟩
    have hrange : Json.Number.InRange (.float ⟨false, 7205759403792794, -56⟩) := by
      unfold Json.Number.InRange
      decide
    have hlast : (Json.array [.number (.float ⟨false, 7205759403792794, -56⟩)]).IsHeld :=
      ⟨⟨trivial, trivial⟩, ⟨hrange, trivial⟩, by decide⟩
    intro row hrow
    simp only [List.map_cons, List.map_nil, List.cons_append, List.nil_append, List.mem_cons,
      List.not_mem_nil, or_false] at hrow
    rcases hrow with rfl | rfl | rfl
    · exact hfirst
    · intro c hc
      rwa [List.mem_cons, List.mem_singleton] at hc
    · exact hlast
  have htext : "\x7b\"k\":\"\u2028 \"\x7d\r\n \t\n[0.1]".toList
      = Row.fileText [(.value (.object [("k", .string "\u2028 ")]), true),
          (.blank [' ', '\t'], false)]
        (.value (.array [.number (.float ⟨false, 7205759403792794, -56⟩)])) := by
    decide +kernel
  have hpaths : Document.paths files "d" = .ok ["d"] := rfl
  refine ⟨_, hvalidator, ?_⟩
  have hfindings := (findings_linewise hplain rfl rfl hpaths hread htext hvalidator).1
  have hdouble : (Json.Number.float ⟨false, 7205759403792794, -56⟩).reread
      = .float ⟨false, 7205759403792794, -56⟩ := by
    decide +kernel
  have hlabels : s!"d:{1}" = "d:1" ∧ s!"d:{3}" = "d:3" := by
    decide
  have hmissing : Validator.validate [⟨"k", Validator.guarded false (Check.ofType "string")⟩]
      (.array [.number (.float ⟨false, 7205759403792794, -56⟩)]) = [⟨"k", none, "missing"⟩] :=
    rfl
  have hpassed : Validator.validate [⟨"k", Validator.guarded false (Check.ofType "string")⟩]
      (.object [("k", .string "\u2028 ")]) = [] :=
    rfl
  rw [hfindings]
  show Except.ok [((⟨s!"d:{1}", .object [("k", .string "\u2028 ")]⟩ : Document),
      Validator.validate _ (.object [("k", .string "\u2028 ")])),
    (⟨s!"d:{3}", .array [.number (Json.Number.float ⟨false, 7205759403792794, -56⟩).reread]⟩,
      Validator.validate _
        (.array [.number (Json.Number.float ⟨false, 7205759403792794, -56⟩).reread]))] = _
  rw [hdouble, hmissing, hpassed, hlabels.1, hlabels.2]

end CheckOptions
end AliasCheck
