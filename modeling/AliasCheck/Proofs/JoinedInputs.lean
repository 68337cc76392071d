import AliasCheck.Proofs.LineDocuments
import AliasCheck.Proofs.Sessions

/-!
# Checks of several inputs

What a check reports about its inputs is put together from what it finds in each document. So inputs
may be checked one part after the other: texts are joined, numbers are added, and all is well if it
is in each part.
-/

namespace AliasCheck

/-! ## Reports on documents -/

/-- What is printed about a document, entry by entry: one for each error, or one that says that
there is none, if that is wanted. -/
def findingEntries (painted verbose : Bool) (label : String) (errors : List KeyedError) :
    List String :=
  if errors ≠ [] then errors.map fun e =>
    Paint.bold.apply painted label ++ ": " ++
      Paint.red.apply painted (e.key ++ ": " ++ e.reason) ++ "\n"
  else if verbose then [Paint.green.apply painted "ok" ++ " " ++ label ++ "\n"] else []

theorem join_findingEntries (painted verbose : Bool) (label : String) (errors : List KeyedError) :
    String.join (findingEntries painted verbose label errors)
      = findingText painted verbose label errors := by
  cases errors with
  | nil =>
    cases verbose with
    | true => exact String.join_cons.trans (by rw [String.join_nil, String.append_empty]; rfl)
    | false => rfl
  | cons e errors =>
    have hdisplay : ∀ e : KeyedError, e.display = e.key ++ ": " ++ e.reason := fun e => by
      simp [KeyedError.display, toString]
    simp only [findingEntries, findingText, hdisplay, ne_eq, reduceCtorEq, not_false_eq_true,
      if_true]

theorem join_flatMap {α : Type} (f : α → List String) (xs : List α) :
    String.join (xs.flatMap f) = String.join (xs.map fun x => String.join (f x)) := by
  induction xs with
  | nil => rfl
  | cons x xs ih =>
    rw [List.flatMap_cons, String.join_append, List.map_cons, String.join_cons, ih]

/-- What is said at the end about how many documents are invalid. -/
def summary (invalid total : Nat) : String := s!"{invalid} of {total} documents invalid\n"

/-- The report on documents in which errors were found. All is well if there are none. -/
def Report.ofFindings (painted verbose : Bool) (files : Files)
    (found : List (Document × List KeyedError)) : Report where
  result := .ok (decide (∀ finding ∈ found, finding.2 = []))
  stdout := String.join (found.flatMap fun (document, errors) =>
    findingEntries painted verbose document.label errors)
  stderr := summary (found.countP fun (_, errors) => errors ≠ []) found.length
  files := files

namespace Validator

/-- How many documents have errors. -/
def countInvalid (v : Validator) (documents : List Document) : Nat :=
  documents.countP fun document => v.validate document.value ≠ []

/-- The entries of a report on documents, in order. -/
def entries (v : Validator) (painted verbose : Bool) (documents : List Document) : List String :=
  documents.flatMap fun document =>
    findingEntries painted verbose document.label (v.validate document.value)

/-- The report on documents. -/
def reportOn (v : Validator) (painted verbose : Bool) (files : Files) (documents : List Document) :
    Report where
  result := .ok (v.countInvalid documents = 0)
  stdout := String.join (v.entries painted verbose documents)
  stderr := summary (v.countInvalid documents) documents.length
  files := files

variable {v : Validator}

theorem countInvalid_eq_zero {documents : List Document} :
    v.countInvalid documents = 0 ↔ ∀ document ∈ documents, v.validate document.value = [] := by
  rw [countInvalid, List.countP_eq_zero]
  simp

/-- The report on documents, by what the validator finds in them. -/
theorem reportOn_eq_ofFindings (painted verbose : Bool) (files : Files)
    (documents : List Document) : v.reportOn painted verbose files documents
      = .ofFindings painted verbose files
          (documents.map fun document => (document, v.validate document.value)) := by
  have hvalid : (∀ finding ∈ documents.map fun document => (document, v.validate document.value),
      finding.2 = []) = (v.countInvalid documents = 0) := by
    rw [List.forall_mem_map, countInvalid_eq_zero]
  simp only [Report.ofFindings, hvalid, List.flatMap_map, List.countP_map, List.length_map]
  rfl

theorem countInvalid_append (first later : List Document) :
    v.countInvalid (first ++ later) = v.countInvalid first + v.countInvalid later :=
  List.countP_append

/-- The report on two lists of documents, put together from those on each of them. -/
theorem reportOn_append (painted verbose : Bool) (files : Files) (first later : List Document) :
    v.reportOn painted verbose files (first ++ later) = {
      result := .ok (decide (v.countInvalid first = 0) && decide (v.countInvalid later = 0))
      stdout := (v.reportOn painted verbose files first).stdout
        ++ (v.reportOn painted verbose files later).stdout
      stderr := summary (v.countInvalid first + v.countInvalid later)
        (first.length + later.length)
      files } := by
  have hnone : (v.countInvalid first + v.countInvalid later = 0)
      = (v.countInvalid first = 0 ∧ v.countInvalid later = 0) := propext Nat.add_eq_zero_iff
  simp only [reportOn, entries, countInvalid_append, List.length_append, List.flatMap_append,
    String.join_append, hnone, Bool.decide_and]

end Validator

/-! ## Inputs one behind the other -/

/-- The documents of inputs are those of their parts, in order. -/
theorem Document.load_append {files : Files} {linewise : Bool} {first later : List String}
    {documents : List Document} : load files linewise (first ++ later) = .ok documents ↔
      ∃ ds ds', load files linewise first = .ok ds ∧ load files linewise later = .ok ds' ∧
        documents = ds ++ ds' := by
  simp only [load_eq_ok_iff]
  constructor
  · rintro ⟨found, parts, hfound, hparts, rfl⟩
    obtain ⟨found₁, found₂, hfound₁, hfound₂, rfl⟩ := mapM_append_eq_ok.mp hfound
    rw [List.flatten_append] at hparts
    obtain ⟨parts₁, parts₂, hparts₁, hparts₂, rfl⟩ := mapM_append_eq_ok.mp hparts
    exact ⟨_, _, ⟨found₁, parts₁, hfound₁, hparts₁, rfl⟩, ⟨found₂, parts₂, hfound₂, hparts₂, rfl⟩,
      List.flatten_append⟩
  · rintro ⟨_, _, ⟨found₁, parts₁, hfound₁, hparts₁, rfl⟩,
      ⟨found₂, parts₂, hfound₂, hparts₂, rfl⟩, rfl⟩
    refine ⟨found₁ ++ found₂, parts₁ ++ parts₂,
      mapM_append_eq_ok.mpr ⟨_, _, hfound₁, hfound₂, rfl⟩, ?_, List.flatten_append.symm⟩
    rw [List.flatten_append]
    exact mapM_append_eq_ok.mpr ⟨_, _, hparts₁, hparts₂, rfl⟩

namespace Command

variable {painted : Bool} {files : Files} {options : CheckOptions} {v : Validator}
  {documents : List Document}

/-- A check reports on the documents that its inputs stand for. -/
theorem checkDocuments_eq_reportOn (hv : options.validator files = .ok v)
    (hload : Document.load files options.linewise options.inputs = .ok documents) :
    checkDocuments painted files options = v.reportOn painted options.verbose files documents := by
  have hfound := CheckOptions.findings_eq_ok hv hload
  have hcount : invalidCount (documents.map fun document => (document, v.validate document.value))
      = v.countInvalid documents := by
    rw [invalidCount, Validator.countInvalid, List.countP_map]
    refine List.countP_congr fun document _ => ?_
    simp
  rw [checkDocuments_eq_ok hfound, hcount, List.length_map, List.map_map, Validator.reportOn,
    Validator.entries, join_flatMap]
  simp only [join_findingEntries]
  rfl

theorem checkDocuments_eq_ok_iff {valid : Bool} :
    (checkDocuments painted files options).result = .ok valid ↔
      ∃ v documents, options.validator files = .ok v ∧
        Document.load files options.linewise options.inputs = .ok documents ∧
        valid = decide (v.countInvalid documents = 0) := by
  constructor
  · intro h
    cases hfound : options.findings files with
    | error e =>
      rw [checkDocuments_eq_error hfound] at h
      cases h
    | ok found =>
      obtain ⟨v, documents, hv, hload, -⟩ := CheckOptions.findings_eq_ok_iff.mp hfound
      rw [checkDocuments_eq_reportOn hv hload] at h
      cases h
      exact ⟨v, documents, hv, hload, rfl⟩
  · rintro ⟨v, documents, hv, hload, rfl⟩
    rw [checkDocuments_eq_reportOn hv hload]
    rfl

/-- The same for the check of any inputs. -/
theorem run_check_eq_reportOn {inputs : List String} (hv : options.validator files = .ok v)
    (hload : Document.load files options.linewise inputs = .ok documents) :
    run painted files (.check { options with inputs := inputs })
      = v.reportOn painted options.verbose files documents :=
  @checkDocuments_eq_reportOn painted files { options with inputs := inputs } v documents hv hload

/-- A check of inputs one behind the other is carried out if checks of both parts are. -/
theorem exists_result_append {first later : List String} :
    (∃ valid,
      (run painted files (.check { options with inputs := first ++ later })).result = .ok valid) ↔
      (∃ valid,
        (run painted files (.check { options with inputs := first })).result = .ok valid) ∧
      ∃ valid,
        (run painted files (.check { options with inputs := later })).result = .ok valid := by
  constructor
  · rintro ⟨valid, h⟩
    obtain ⟨v, _, hv, hload, -⟩ := checkDocuments_eq_ok_iff.mp h
    obtain ⟨ds, ds', hds, hds', -⟩ := Document.load_append.mp hload
    exact ⟨⟨_, congrArg Report.result (run_check_eq_reportOn hv hds)⟩,
      ⟨_, congrArg Report.result (run_check_eq_reportOn hv hds')⟩⟩
  · rintro ⟨⟨valid, h⟩, ⟨valid', h'⟩⟩
    obtain ⟨v, ds, hv, hds, -⟩ := checkDocuments_eq_ok_iff.mp h
    obtain ⟨_, ds', -, hds', -⟩ := checkDocuments_eq_ok_iff.mp h'
    have hload := Document.load_append.mpr ⟨ds, ds', hds, hds', rfl⟩
    exact ⟨_, congrArg Report.result (run_check_eq_reportOn hv hload)⟩

/-- A check of inputs one behind the other is carried out if checks of both parts are. Then it
prints what they print, one after the other, counts as many documents as they do together, and
finds all to be well if they do. What a check prints and finds comes from the documents, one by
one. -/
theorem run_append (painted : Bool) (files : Files) (options : CheckOptions) :
    let report := fun inputs => run painted files (.check { options with inputs := inputs })
    (∀ first later,
      ((∃ valid, (report (first ++ later)).result = .ok valid) ↔
        (∃ valid, (report first).result = .ok valid) ∧
          ∃ valid, (report later).result = .ok valid) ∧
      ∀ valid valid', (report first).result = .ok valid → (report later).result = .ok valid' →
        (report (first ++ later)).result = .ok (valid && valid') ∧
        (report (first ++ later)).stdout = (report first).stdout ++ (report later).stdout ∧
        ∃ v ds ds', options.validator files = .ok v ∧
          Document.load files options.linewise first = .ok ds ∧
          Document.load files options.linewise later = .ok ds' ∧
          (report first).stderr = summary (v.countInvalid ds) ds.length ∧
          (report later).stderr = summary (v.countInvalid ds') ds'.length ∧
          (report (first ++ later)).stderr
            = summary (v.countInvalid ds + v.countInvalid ds') (ds.length + ds'.length)) ∧
    ∀ inputs valid, (report inputs).result = .ok valid →
      ∃ v documents, options.validator files = .ok v ∧
        Document.load files options.linewise inputs = .ok documents ∧
        (report inputs).stdout = String.join (documents.flatMap fun document =>
          findingEntries painted options.verbose document.label (v.validate document.value)) ∧
        (valid = true ↔ ∀ document ∈ documents, v.validate document.value = []) := by
  intro report
  refine ⟨fun first later => ⟨exists_result_append, fun valid valid' h h' => ?_⟩,
    fun inputs valid h => ?_⟩
  · obtain ⟨v, ds, hv, hds, rfl⟩ := checkDocuments_eq_ok_iff.mp h
    obtain ⟨v', ds', hv', hds', rfl⟩ := checkDocuments_eq_ok_iff.mp h'
    cases hv.symm.trans hv'
    have hfirst : report first = _ := run_check_eq_reportOn hv hds
    have hlater : report later = _ := run_check_eq_reportOn hv hds'
    have hjoined : report (first ++ later) = _ :=
      run_check_eq_reportOn hv (Document.load_append.mpr ⟨ds, ds', hds, hds', rfl⟩)
    rw [hjoined, hfirst, hlater, Validator.reportOn_append]
    exact ⟨rfl, rfl, v, ds, ds', hv, hds, hds', rfl, rfl, rfl⟩
  · obtain ⟨v, documents, hv, hload, rfl⟩ := checkDocuments_eq_ok_iff.mp h
    have hreport : report inputs = _ := run_check_eq_reportOn hv hload
    rw [hreport]
    exact ⟨v, documents, hv, hload, rfl, by rw [decide_eq_true_iff, Validator.countInvalid_eq_zero]⟩

/-- The document in the first part is invalid, the one in the second part is not. -/
theorem run_append_example :
    let files : Files := ⟨.directory [("work", .directory [
      ("s.js", .file (some "type A = \x7b k: ?number \x7d")),
      ("a.json", .file (some "\x7b\"k\":\"1\"\x7d")), ("b.json", .file (some "\x7b\x7d"))])],
      ["work"]⟩
    let options : CheckOptions :=
      ⟨.source "s.js", "A", [], [], [], false, ["a.json", "b.json"], true⟩
    let report := run false files (.check options)
    report.result = .ok false ∧
      report.stdout = "a.json: k: expected number but found string\nok b.json\n" ∧
      report.stderr = "1 of 2 documents invalid\n" := by
  intro files options report
  have hsource : Registry.ofSourceFile files "s.js"
      = .ok [("A", .object [⟨"k", (Schema.value "number").orNull, false⟩])] := by
    have hread : files.read "s.js" = .ok "type A = \x7b k: ?number \x7d" := by decide +kernel
    have hparse : Registry.ofSource "type A = \x7b k: ?number \x7d"
        = .ok [("A", .object [⟨"k", (Schema.value "number").orNull, false⟩])] := by
      decide +kernel
    exact Registry.ofSourceFile_eq_ok hread hparse
  let v : Validator := [⟨"k", Validator.guarded true (Check.ofType "number")⟩]
  have hv : options.validator files = .ok v := CheckOptions.validator_eq_ok hsource rfl rfl
  have hload (path : String) (x : Json) (hheld : x.IsHeld)
      (hpaths : Document.paths files path = .ok [path]) (hread : files.read path = .ok x.compact) :
      Document.load files false [path] = .ok [⟨path, x.reread⟩] :=
    Document.load_eq_ok hpaths (Document.ofFile_compact hheld hread)
  have hfirst := hload "a.json" (.object [("k", .string "1")])
    ⟨⟨by decide, trivial, trivial⟩, ⟨trivial, trivial⟩, by decide⟩ rfl (by decide +kernel)
  have hlater := hload "b.json" (.object [])
    ⟨⟨by decide, trivial⟩, trivial, by decide⟩ rfl (by decide +kernel)
  have ha : run false files (.check { options with inputs := ["a.json"] }) = _ :=
    run_check_eq_reportOn hv hfirst
  have hb : run false files (.check { options with inputs := ["b.json"] }) = _ :=
    run_check_eq_reportOn hv hlater
  obtain ⟨hresult, hstdout, v', ds, ds', hv', hds, hds', -, -, hstderr⟩ :=
    ((run_append false files options).1 ["a.json"] ["b.json"]).2 false true
      (congrArg Report.result ha) (congrArg Report.result hb)
  cases hv.symm.trans hv'
  cases hfirst.symm.trans hds
  cases hlater.symm.trans hds'
  refine ⟨hresult, hstdout.trans ?_, hstderr.trans (by decide +kernel)⟩
  have hatext : (run false files (.check { options with inputs := ["a.json"] })).stdout
      = "a.json: k: expected number but found string\n" :=
    (congrArg Report.stdout ha).trans (by decide +kernel)
  have hbtext : (run false files (.check { options with inputs := ["b.json"] })).stdout
      = "ok b.json\n" :=
    (congrArg Report.stdout hb).trans (by decide +kernel)
  rw [hatext, hbtext]
  decide

end Command
end AliasCheck
