import AliasCheck.Proofs.GlobFrames
import AliasCheck.Proofs.LineDocuments
import AliasCheck.Proofs.NewFiles
import AliasCheck.Proofs.RegistryRoundTrip

/-!
# Checks with a registry that was stored before

The types of a source are written to a file. A check that takes them from there leaves the same
report as one that takes them from the source, among the files as they are then, and also as they
were before if no input leads to anything that is new.
-/

namespace AliasCheck
namespace Document

/-! ## Documents in files that grow -/

/-- All places to which the paths of inputs lead in other files are known in these. -/
def KnowsInputs (files files' : Files) (inputs : List String) : Prop :=
  ∀ input ∈ inputs, ∀ found, paths files' input = .ok found →
    ∀ path ∈ found, files.Knows files' path

section Adds

variable {files files' : Files} {place inputs : List String} {name input : String}

/-- An input stands for the same paths as before if nothing that it stands for is new. -/
theorem paths_eq (hadds : files.Adds files' place name)
    (h : ∀ found, paths files' input = .ok found → ∀ path ∈ found, files.Knows files' path) :
    paths files' input = paths files input := by
  unfold paths at h ⊢
  by_cases hmagic : input.toList.any Glob.isMagic = true
  · rw [if_pos hmagic, if_pos hmagic]
    rw [if_pos hmagic] at h
    cases hglob : Glob.parse input with
    | error fault => rfl
    | ok g =>
      rw [hglob] at h
      have hexpand : Glob.expand files' g = Glob.expand files g := by
        refine Glob.agree_follow hadds g.parts _ fun x hx => h (Glob.expand files' g) ?_ x hx
        obtain ⟨first, more, hfound⟩ := List.exists_cons_of_ne_nil (List.ne_nil_of_mem hx)
        have hexpand : Glob.expand files' g = first :: more := hfound
        simp only [hexpand]
      simp only [hexpand]
  · rw [if_neg hmagic, if_neg hmagic]

theorem ofFile_eq (hadds : files.Adds files' place name) {linewise : Bool} {path : String}
    (h : files.Knows files' path) : ofFile files' linewise path = ofFile files linewise path := by
  rw [ofFile, ofFile, (hadds.meets h).read_eq]

/-- What is loaded stays the same when something is added to which no input leads. -/
theorem load_eq_of_adds (hadds : files.Adds files' place name) (linewise : Bool)
    (h : KnowsInputs files files' inputs) :
    load files' linewise inputs = load files linewise inputs := by
  have hpaths : inputs.mapM (paths files') = inputs.mapM (paths files) :=
    mapM_congr fun input hinput => paths_eq hadds (h input hinput)
  rw [load, load, ← hpaths]
  cases hfound : inputs.mapM (paths files') with
  | error e => rfl
  | ok found =>
    have hfiles : found.flatten.mapM (ofFile files' linewise)
        = found.flatten.mapM (ofFile files linewise) := by
      refine mapM_congr fun path hpath => ofFile_eq hadds ?_
      obtain ⟨part, hsome, hmem⟩ := List.mem_flatten.mp hpath
      obtain ⟨input, hinput, hpaths⟩ := exists_of_mem_mapM hfound hsome
      exact h input hinput part hpaths path hmem
    show (found.flatten.mapM (ofFile files' linewise) >>= _) = found.flatten.mapM _ >>= _
    rw [hfiles]

end Adds

section Grows

variable {files : Files} {t' : FileTree} {inputs : List String}

theorem KnowsInputs.of_keeps {middle files' : Files} (hkeeps : files.Keeps middle)
    (h : KnowsInputs files files' inputs) : KnowsInputs middle files' inputs :=
  fun input hinput found hfound path hpath place hplace =>
    hkeeps.root.isSome (h input hinput found hfound path hpath place hplace)

/-- What is loaded stays the same when any number of things are added to which no input leads. -/
theorem load_eq (hhere : (files.root.get? files.here).isSome) (hgrows : files.root.Grows t')
    (linewise : Bool) (h : KnowsInputs files { files with root := t' } inputs) :
    load { files with root := t' } linewise inputs = load files linewise inputs := by
  induction hgrows with
  | refl => rfl
  | @tail u v hgrows hadds ih =>
    obtain ⟨place, name, hadds⟩ := hadds
    have hkeeps : files.Keeps { files with root := u } := ⟨rfl, FileTree.Grows.keeps hgrows⟩
    have hlast : ({ files with root := u } : Files).Adds { files with root := v } place name :=
      ⟨hkeeps.root.isSome hhere, rfl, hadds⟩
    have hmiddle : KnowsInputs { files with root := u } { files with root := v } inputs :=
      h.of_keeps hkeeps
    rw [load_eq_of_adds hlast linewise hmiddle]
    refine ih fun input hinput found hfound path hpath place hplace => ?_
    rw [← paths_eq hlast (hmiddle input hinput)] at hfound
    exact h input hinput found hfound path hpath place (hplace.of_keeps hlast.keeps)

/-- Paths that lead to something already lead to nothing new. -/
theorem knowsInputs_of_find {files' : Files} (hkeeps : files.Keeps files')
    (hhere : (files.root.get? files.here).isSome)
    (h : ∀ input ∈ inputs, input.toList.any Glob.isMagic = false ∧
      ∃ u, files.find input = .ok u) : KnowsInputs files files' inputs := by
  intro input hinput found hfound path hpath
  obtain ⟨hplain, u, hfind⟩ := h input hinput
  rw [paths, hplain, if_neg Bool.false_ne_true] at hfound
  cases hfound
  cases List.mem_singleton.mp hpath
  obtain ⟨place, hleads, -⟩ := Files.find_eq_ok hfind
  exact hleads.knows hkeeps hhere

end Grows

end Document

namespace CheckOptions

variable {options : CheckOptions} {origin origin' : Origin} {files files' : Files}

/-- Only the registry matters, and not where it comes from. -/
theorem validator_congr
    (h : Registry.ofOrigin files origin = Registry.ofOrigin files' origin') :
    { options with origin := origin }.validator files
      = { options with origin := origin' }.validator files' := by
  unfold validator
  rw [h]
  rfl

/-- The findings are the same with the same registry and the same documents. -/
theorem findings_congr
    (horigin : Registry.ofOrigin files origin = Registry.ofOrigin files' origin')
    (hload : Document.load files options.linewise options.inputs
      = Document.load files' options.linewise options.inputs) :
    { options with origin := origin }.findings files
      = { options with origin := origin' }.findings files' := by
  unfold findings
  rw [validator_congr horigin, hload]

end CheckOptions

namespace Command

variable {options : CheckOptions} {origin origin' : Origin} {files files' : Files} {painted : Bool}

/-- A check leaves the files alone, and what it reports depends on the findings only. -/
theorem checkDocuments_congr
    (h : { options with origin := origin }.findings files
      = { options with origin := origin' }.findings files') :
    checkDocuments painted files { options with origin := origin } = {
      checkDocuments painted files' { options with origin := origin' } with files := files } := by
  cases hfound : { options with origin := origin' }.findings files' with
  | error e =>
    rw [checkDocuments_eq_error hfound, checkDocuments_eq_error (h.trans hfound)]
  | ok found =>
    rw [checkDocuments_eq_ok hfound, checkDocuments_eq_ok (h.trans hfound)]

theorem checkDocuments_files (painted : Bool) (files : Files) (options : CheckOptions) :
    { checkDocuments painted files options with files := files }
      = checkDocuments painted files options := by
  cases hfound : options.findings files with
  | error e => rw [checkDocuments_eq_error hfound]
  | ok found => rw [checkDocuments_eq_ok hfound]

/-- The types of a source are stored where there is room for them. A check with what was stored
leaves the same report as a check with the source. So does a check with the source among the files
as they were before, as far as no input leads to anything that is new. -/
theorem types_then_check {source path : String} {p : Path} {r : Registry} (painted : Bool)
    (options : CheckOptions) (hsource : Registry.ofSourceFile files source = .ok r)
    (hdepth : Json.textNesting r.toJson.pretty.toList ≤ 127) (hseated : files.IsSeated)
    (hp : Path.ofString? path = some p) (hadmits : files.Admits p) :
    let written := run painted files (.types source (some path))
    let stored := run painted written.files (.check { options with origin := .registry path })
    let direct := run painted written.files (.check { options with origin := .source source })
    let before := run painted files (.check { options with origin := .source source })
    (written.result = .ok true ∧ written.stdout = "" ∧ written.stderr = "") ∧ stored = direct ∧
      (Document.KnowsInputs files written.files options.inputs →
        stored.result = before.result ∧ stored.stdout = before.stdout ∧
          stored.stderr = before.stderr) := by
  obtain ⟨⟨root, here⟩, hstore, rfl, hgrows, hread⟩ :=
    Files.exists_store hseated hp hadmits r.toJson.pretty
  have hkeeps : files.Keeps { files with root := root } := ⟨rfl, hgrows.keeps⟩
  have hhere := hseated.isSome
  obtain ⟨text, htext, hparsed⟩ := bind_eq_ok.mp hsource
  have hloaded : Registry.ofRegistryFile { files with root := root } path = .ok r :=
    Registry.ofRegistryFile_eq_ok hread
      (Registry.parse_pretty (Registry.nodup_names_ofSource (mapError_eq_ok.mp hparsed)) hdepth)
  have hsource' : Registry.ofSourceFile { files with root := root } source = .ok r := by
    have htext' := hkeeps.read_eq_ok hhere (mapError_eq_ok.mp htext)
    rw [Registry.ofSourceFile, htext']
    exact hparsed
  have horigin : Registry.ofOrigin { files with root := root } (.registry path)
      = Registry.ofOrigin { files with root := root } (.source source) :=
    hloaded.trans hsource'.symm
  have horigin' : Registry.ofOrigin { files with root := root } (.registry path)
      = Registry.ofOrigin files (.source source) :=
    hloaded.trans hsource.symm
  intro written stored direct before
  have hreport : written = ⟨.ok true, "", "", { files with root := root }⟩ :=
    writeTypes_eq_ok hsource hstore
  have hfiles : written.files = { files with root := root } := by rw [hreport]
  refine ⟨by rw [hreport]; exact ⟨rfl, rfl, rfl⟩, ?_, fun hknown => ?_⟩
  · show checkDocuments painted written.files _ = checkDocuments painted written.files _
    rw [hfiles, checkDocuments_congr (CheckOptions.findings_congr horigin rfl),
      checkDocuments_files]
  · rw [hfiles] at hknown
    have hload := Document.load_eq hhere hgrows options.linewise hknown
    have hsame : stored = { before with files := written.files } := by
      show checkDocuments painted written.files _ = _
      rw [hfiles, checkDocuments_congr (CheckOptions.findings_congr horigin' hload)]
      rfl
    rw [hsame]
    exact ⟨rfl, rfl, rfl⟩

/-- A directory is made for the registry, and the document does not pass. -/
theorem types_then_check_example :
    let files : Files := ⟨.directory [("work", .directory [
      ("s.js", .file (some "type A = \x7b k: ?number \x7d")),
      ("a.json", .file (some "\x7b\"k\":\"1\"\x7d"))])], ["work"]⟩
    let options : CheckOptions := ⟨.source "s.js", "A", [], [], [], false, ["a.json"], true⟩
    ∃ written stored : Report, written = run false files (.types "s.js" (some "../out/r.json")) ∧
      stored = run false written.files
        (.check { options with origin := .registry "../out/r.json" }) ∧
      written.result = .ok true ∧ stored.result = .ok false ∧
      stored.stdout = "a.json: k: expected number but found string\n" ∧
      stored.stderr = "1 of 1 documents invalid\n" := by
  intro files options
  have hsource : Registry.ofSourceFile files "s.js"
      = .ok [("A", .object [⟨"k", (Schema.value "number").orNull, false⟩])] := by
    have hread : files.read "s.js" = .ok "type A = \x7b k: ?number \x7d" := by decide +kernel
    have hparse : Registry.ofSource "type A = \x7b k: ?number \x7d"
        = .ok [("A", .object [⟨"k", (Schema.value "number").orNull, false⟩])] := by
      decide +kernel
    exact Registry.ofSourceFile_eq_ok hread hparse
  have hdepth : Json.textNesting (Registry.toJson
      [("A", .object [⟨"k", (Schema.value "number").orNull, false⟩])]).pretty.toList ≤ 127 := by
    rw [Json.textNesting_pretty (Registry.numberFree_toJson _)]
    decide
  have hseated : files.IsSeated := by
    refine ⟨⟨_, rfl⟩, ?_⟩
    intro name hname
    cases List.mem_singleton.mp hname
    exact ⟨by decide, by decide, by decide, by decide⟩
  have hp : Path.ofString? "../out/r.json" = some ⟨false, ["..", "out", "r.json"], false⟩ := by
    decide
  have hfronts : ∀ front, front <+: ["..", "out"] →
      front = [] ∨ front = [".."] ∨ front = ["..", "out"] := by
    intro front hfront
    have hmem := (List.mem_inits front ["..", "out"]).mpr hfront
    simpa [List.inits] using hmem
  have hadmits : files.Admits ⟨false, ["..", "out", "r.json"], false⟩ := by
    refine ⟨rfl, ⟨"r.json", rfl, by decide, by decide⟩, rfl, ?_, ?_⟩
    · intro front hfront text
      rcases hfronts front hfront with rfl | rfl | rfl <;> exact nofun
    · intro front hfront
      rcases hfronts front hfront with rfl | rfl | rfl <;> decide
  have hread : files.read "a.json" = .ok (Json.object [("k", .string "1")]).compact := by
    decide +kernel
  have hknown : Document.KnowsInputs files
      (run false files (.types "s.js" (some "../out/r.json"))).files ["a.json"] := by
    obtain ⟨files', hstore, hhere, hgrows, -⟩ := Files.exists_store hseated hp hadmits _
    rw [writeTypes_eq_ok hsource hstore]
    refine Document.knowsInputs_of_find ⟨hhere, hgrows.keeps⟩ hseated.isSome ?_
    intro input hinput
    cases List.mem_singleton.mp hinput
    exact ⟨by decide, Files.exists_find_of_read hread⟩
  obtain ⟨⟨hresult, -, -⟩, -, hbefore⟩ :=
    types_then_check false options hsource hdepth hseated hp hadmits
  obtain ⟨hsame, hstdout, hstderr⟩ := hbefore hknown
  have hheld : (Json.object [("k", .string "1")]).IsHeld :=
    ⟨⟨by decide, trivial, trivial⟩, ⟨trivial, trivial⟩, by decide⟩
  have hpaths : Document.paths files "a.json" = .ok ["a.json"] := rfl
  have hload := Document.load_eq_ok hpaths (Document.ofFile_compact hheld hread)
  have hvalidator : { options with origin := .source "s.js" }.validator files
      = .ok [⟨"k", Validator.guarded true (Check.ofType "number")⟩] :=
    CheckOptions.validator_eq_ok hsource rfl rfl
  have hvalidate : Validator.validate [⟨"k", Validator.guarded true (Check.ofType "number")⟩]
      (Json.object [("k", .string "1")]).reread
        = [⟨"k", some (.string "1"), "expected number but found string"⟩] :=
    rfl
  have hfindings := CheckOptions.findings_eq_ok hvalidator hload
  rw [List.map_singleton, hvalidate] at hfindings
  have hout : String.join [findingText false true "a.json" [⟨"k", some (.string "1"),
      "expected number but found string"⟩]] = "a.json: k: expected number but found string\n" := by
    decide +kernel
  have herr : s!"{1} of {1} documents invalid\n" = "1 of 1 documents invalid\n" := by
    decide
  have hdirect : run false files (.check { options with origin := .source "s.js" })
      = ⟨.ok false, "a.json: k: expected number but found string\n",
        "1 of 1 documents invalid\n", files⟩ := by
    show checkDocuments false files { options with origin := .source "s.js" } = _
    rw [checkDocuments_eq_ok hfindings]
    show Report.mk (.ok false) (String.join [findingText false true "a.json"
      [⟨"k", some (.string "1"), "expected number but found string"⟩]])
      s!"{1} of {1} documents invalid\n" files = _
    rw [hout, herr]
  rw [hdirect] at hsame hstdout hstderr
  exact ⟨_, _, rfl, rfl, hresult, hsame, hstdout, hstderr⟩

end Command
end AliasCheck
