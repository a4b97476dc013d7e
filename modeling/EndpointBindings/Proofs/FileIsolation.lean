import EndpointBindings.Proofs.AssemblyDefects
import EndpointBindings.Proofs.MergeOwnership
import EndpointBindings.Proofs.SurrogatePairs

/-!
A file that is no endpoint stops no other. Among JSON files one kind breaks this rule: a file with
an integer default that no number of its fractional type reaches ends the run for all of them.
-/

namespace EndpointBindings

open EndpointBindings.Assembly EndpointBindings.Text

namespace Document

variable {source : Source} {octets : List UInt8} {s : String} {v : Value} {d : Defect}
  {fields : Fields}

/-- The octets of a JSON document with a default that overflows. -/
def Overflows (octets : List UInt8) : Prop :=
  ∃ fields, load (.octets octets) .json = .ok fields ∧ Assembly.Overflows fields

theorem reports_sourceText : Reports (sourceText source) := by
  unfold sourceText
  split
  · exact reports_ok _
  · split
    · exact reports_ok _
    · exact reports_invalid _

theorem reports_requireObject : Reports (requireObject v) := by
  unfold requireObject
  split
  · exact reports_ok _
  · exact reports_invalid _
  · exact reports_invalid _

theorem reports_decode : Reports (decode .json s) := by
  unfold decode
  dsimp only
  split
  · exact reports_ok _
  · exact reports_fail _

theorem reports_load : Reports (load source .json) := by
  unfold load
  refine reports_sourceText.bind fun s _ => ?_
  split
  · exact reports_invalid _
  · exact reports_decode.bind fun _ _ => reports_requireObject

theorem decoded_decode (h : decode .json s = .ok v) : Json.Decoded v := by
  unfold decode at h
  dsimp only at h
  split at h
  · rename_i hread
    obtain rfl := by simpa using h
    exact Json.decoded_readText hread
  · simp at h

theorem decoded_load (h : load source .json = .ok fields) : Json.Decoded (.mapping fields) := by
  obtain ⟨s, -, h⟩ := bind_eq_ok.mp h
  split at h
  · simp [invalid, Assembly.fail] at h
  · obtain ⟨v, hv, h⟩ := bind_eq_ok.mp h
    have hdecoded := decoded_decode hv
    unfold requireObject at h
    rw [hdecoded.unfold_eq] at h
    split at h
    · obtain rfl := by simpa using h
      exact hdecoded
    · simp [invalid, Assembly.fail] at h
    · simp [invalid, Assembly.fail] at h

theorem parse_eq_defect_iff :
    parse (.octets octets) .json = .error (.defect d) ↔
      d = .integerBeyondFloat ∧ Overflows octets := by
  unfold parse Overflows
  rw [reports_load.bind_eq_defect]
  constructor
  · rintro ⟨fields, hload, h⟩
    obtain ⟨hd, hover⟩ := (assemble_eq_defect_iff (decoded_load hload)).mp h
    exact ⟨hd, fields, hload, hover⟩
  · rintro ⟨hd, fields, hload, hover⟩
    exact ⟨fields, hload, (assemble_eq_defect_iff (decoded_load hload)).mpr ⟨hd, hover⟩⟩

/-- The defect that the text of a JSON document ends in. -/
def defectOf? (cs : List Char) : Option Defect :=
  match Json.read cs with
  | .ok (.mapping fields) =>
    match assemble fields with
    | .error (.defect d) => some d
    | _ => none
  | _ => none

theorem parse_eq_defect_of_defectOf? {cs : List Char}
    (hdecode : Utf8.decode (Utf8.dropMark octets) = .ok cs) (hblank : cs.all isBlank = false)
    (hdefect : defectOf? cs = some d) :
    parse (.octets octets) .json = .error (.defect d) := by
  unfold defectOf? at hdefect
  split at hdefect
  · rename_i fields hread
    rw [Json.read] at hread
    have hload : load (.octets octets) .json = .ok fields := by
      simp [load, sourceText, hdecode, allBlank, hblank, decode, Room.inLine, hread,
        requireObject, Value.unfold, bind, Except.bind]
    refine bind_eq_error.mpr (.inr ⟨fields, hload, ?_⟩)
    split at hdefect
    · rename_i hassemble
      obtain rfl := by simpa using hdefect
      exact hassemble
    · simp at hdefect
  · simp at hdefect

end Document

namespace Compilation

section Files

variable {path : String} {octets : List UInt8} {files : List (String × List UInt8)}
  {outcomes : List (String × Outcome)} {e : Endpoint} {d : Defect}

/-- A file by the name of a JSON document. -/
def IsJson (path : String) : Prop := Document.hintFor (.ofString path) = .json

instance : Decidable (IsJson path) :=
  inferInstanceAs (Decidable (Document.hintFor (.ofString path) = .json))

/-- A JSON document in a file, told by its name, whose escapes are of whole characters. -/
structure IsJsonDocument (file : String × List UInt8) : Prop where
  named : IsJson file.1
  whole : Document.IsWhole .json file.2

/-- The outcome of a file is what its own octets compile to. -/
def OutcomeOf (file : String × List UInt8) (outcome : String × Outcome) : Prop :=
  outcome.1 = file.1 ∧ compileFile file.1 file.2 = .ok outcome.2

theorem compileFile_eq_error_iff (hjson : IsJson path) :
    compileFile path octets = .error d ↔
      d = .integerBeyondFloat ∧ Document.Overflows octets := by
  rw [← Document.parse_eq_defect_iff]
  unfold compileFile
  dsimp only
  rw [hjson]
  split
  · rename_i h
    simp [h]
  · rename_i h
    simp [h]
  · rename_i h
    simp [h]

theorem exists_name_of_compileFile (h : compileFile path octets = .ok (.ok e)) :
    ∃ name, e.name = some name := by
  unfold compileFile at h
  dsimp only at h
  split at h
  · rename_i a _
    obtain rfl : a.orNamed (endpointNameFor path) = e := by simpa using h
    exact ⟨_, rfl⟩
  · simp at h
  · simp at h

theorem compileFiles_eq_ok_iff :
    compileFiles files = .ok outcomes ↔ List.Forall₂ OutcomeOf files outcomes := by
  induction files generalizing outcomes with
  | nil => simp [compileFiles, eq_comm]
  | cons f rest ih =>
      rw [compileFiles, bind_eq_ok]
      constructor
      · rintro ⟨outcome, houtcome, h⟩
        obtain ⟨others, hothers, h⟩ := bind_eq_ok.mp h
        obtain rfl := by simpa [pure, Except.pure] using h
        exact .cons ⟨rfl, houtcome⟩ (ih.mp hothers)
      · rintro (_ | ⟨⟨hpath, houtcome⟩, hothers⟩)
        rename_i o others
        refine ⟨o.2, houtcome, bind_eq_ok.mpr ⟨others, ih.mpr hothers, ?_⟩⟩
        rw [← hpath]
        rfl

/-- Files end the run as soon as one of them does. -/
theorem compileFiles_eq_error_iff (hjson : ∀ f ∈ files, IsJson f.1) :
    compileFiles files = .error d ↔
      d = .integerBeyondFloat ∧ ∃ f ∈ files, Document.Overflows f.2 := by
  induction files with
  | nil => simp [compileFiles]
  | cons f rest ih =>
      have hfile : compileFile f.1 f.2 = .error d ↔
          d = .integerBeyondFloat ∧ Document.Overflows f.2 :=
        compileFile_eq_error_iff (hjson f List.mem_cons_self)
      have hrest := ih fun f hf => hjson f (List.mem_cons_of_mem _ hf)
      rw [compileFiles, bind_eq_error, hfile]
      constructor
      · rintro (⟨hd, hover⟩ | ⟨outcome, -, h⟩)
        · exact ⟨hd, f, List.mem_cons_self, hover⟩
        · rcases bind_eq_error.mp h with h | ⟨_, -, h⟩
          · obtain ⟨hd, g, hg, hover⟩ := hrest.mp h
            exact ⟨hd, g, List.mem_cons_of_mem _ hg, hover⟩
          · simp [pure, Except.pure] at h
      · rintro ⟨hd, g, hg, hover⟩
        -- Either the first file ends the run, or it has an outcome and a later one ends it.
        by_cases hfirst : Document.Overflows f.2
        · exact .inl ⟨hd, hfirst⟩
        · right
          have hmem : g ∈ rest := by
            rcases List.mem_cons.mp hg with rfl | hmem
            · exact absurd hover hfirst
            · exact hmem
          cases hcompile : compileFile f.1 f.2 with
          | error d' =>
              exact absurd ((compileFile_eq_error_iff (hjson f List.mem_cons_self)).mp hcompile).2
                hfirst
          | ok outcome =>
              exact ⟨outcome, rfl, bind_eq_error.mpr (.inl (hrest.mpr ⟨hd, g, hmem, hover⟩))⟩

theorem paths_eq_of_forall₂ (h : List.Forall₂ OutcomeOf files outcomes) :
    outcomes.map (·.1) = files.map (·.1) := by
  induction h with
  | nil => rfl
  | cons hfirst _ ih => simp [hfirst.1, ih]

theorem allNamed_of_forall₂ (h : List.Forall₂ OutcomeOf files outcomes) : AllNamed outcomes := by
  intro path e hmem
  induction h with
  | nil => simp at hmem
  | cons hfirst _ ih =>
      rcases List.mem_cons.mp hmem with rfl | hmem
      · exact exists_name_of_compileFile hfirst.2
      · exact ih hmem

end Files

section Directory

variable {w : World} {directory : String} {config : CompilerConfig} {room : Room}
  {found : NameMap (List UInt8)}

theorem ofDirectory_eq
    (hdirectory : w.files.isDirectory w.cwd (.ofString directory) = .ok true)
    (hfound : Discovery.documents w.files w.cwd (.ofString directory) config.included
      config.excluded = .ok found) :
    ofDirectory w directory config room =
      (merge <$> compileFiles found.entries room).mapError Failure.defect := by
  unfold ofDirectory
  dsimp only
  rw [hdirectory, hfound]
  cases hfiles : compileFiles found.entries room with
  | error d => simp [bind, Except.bind, Functor.map, Except.map, hfiles]
  | ok outcomes =>
      simp [bind, Except.bind, pure, Except.pure, Functor.map, Except.map, hfiles]

theorem ofDirectory_eq_error_iff {failure : Failure}
    (hdirectory : w.files.isDirectory w.cwd (.ofString directory) = .ok true)
    (hfound : Discovery.documents w.files w.cwd (.ofString directory) config.included
      config.excluded = .ok found)
    (hjson : ∀ f ∈ found.entries, IsJson f.1) :
    ofDirectory w directory config = .error failure ↔
      failure = .defect .integerBeyondFloat ∧ ∃ f ∈ found.entries, Document.Overflows f.2 := by
  rw [ofDirectory_eq hdirectory hfound, mapError_eq_error]
  simp only [map_eq_error, compileFiles_eq_error_iff hjson]
  constructor
  · rintro ⟨d, ⟨hd, hover⟩, hfailure⟩
    exact ⟨by rw [← hfailure, hd], hover⟩
  · rintro ⟨hfailure, hover⟩
    exact ⟨_, ⟨rfl, hover⟩, hfailure.symm⟩

theorem hasOnePlace_of_ofDirectory {c : Compilation}
    (hdirectory : w.files.isDirectory w.cwd (.ofString directory) = .ok true)
    (hfound : Discovery.documents w.files w.cwd (.ofString directory) config.included
      config.excluded = .ok found)
    (hc : ofDirectory w directory config = .ok c) :
    ∃ outcomes, List.Forall₂ OutcomeOf found.entries outcomes ∧ Accounts outcomes c ∧
      ∀ f ∈ found.entries, HasOnePlace c f.1 := by
  rw [ofDirectory_eq hdirectory hfound, mapError_eq_ok] at hc
  obtain ⟨outcomes, houtcomes, rfl⟩ := map_eq_ok.mp hc
  have hall := compileFiles_eq_ok_iff.mp houtcomes
  have hnodup : (found.entries.map (·.1)).Nodup := found.names_nodup
  have hpaths : (outcomes.map (·.1)).Nodup := by rwa [paths_eq_of_forall₂ hall]
  have haccounts := accounts_merge hpaths (allNamed_of_forall₂ hall)
  refine ⟨outcomes, hall, haccounts, fun f hf => haccounts.hasOnePlace hpaths ?_⟩
  rw [paths_eq_of_forall₂ hall]
  exact List.mem_map_of_mem hf

/-- The JSON documents of a directory compile to one place each, as an endpoint or with an error of
their own, unless one of them has a default that overflows. -/
theorem ofDirectory_isolates_all_but_overflows
    (hdirectory : w.files.isDirectory w.cwd (.ofString directory) = .ok true)
    (hfound : Discovery.documents w.files w.cwd (.ofString directory) config.included
      config.excluded = .ok found)
    (hjson : ∀ f ∈ found.entries, IsJsonDocument f) :
    (∀ f ∈ found.entries, ∀ d, compileFile f.1 f.2 = .error d ↔
      d = .integerBeyondFloat ∧ Document.Overflows f.2) ∧
    (∀ failure, ofDirectory w directory config = .error failure ↔
      failure = .defect .integerBeyondFloat ∧ ∃ f ∈ found.entries, Document.Overflows f.2) ∧
    ∀ c, ofDirectory w directory config = .ok c →
      ∃ outcomes, List.Forall₂ OutcomeOf found.entries outcomes ∧ Accounts outcomes c ∧
        ∀ f ∈ found.entries, HasOnePlace c f.1 := by
  refine ⟨fun f hf d => ?_, fun failure => ?_, fun c hc => ?_⟩
  · exact compileFile_eq_error_iff (hjson f hf).named
  · exact ofDirectory_eq_error_iff hdirectory hfound fun f hf => (hjson f hf).named
  · exact hasOnePlace_of_ofDirectory hdirectory hfound hc

/-- The settings of a run over JSON files. -/
def jsonConfig : CompilerConfig := { CompilerConfig.default with included := ["*.json"] }

/-- A file without text and one that is no text. -/
def faulty : NameMap (List UInt8) := ⟨[("empty.json", []), ("octet.json", [0xff])], by decide⟩

/-- The root of a file system with nothing else than the given files. -/
def filesOnly (files : NameMap (List UInt8)) : World :=
  { env := [], system := "Linux", accountHome := "/", cwd := [], time := "", terminal := false
    files := ⟨files.entries.map fun f => ([f.1], .file f.2)⟩ }

theorem isJsonDocument_faulty : ∀ f ∈ faulty.entries, IsJsonDocument f := by
  intro f hf
  rcases List.mem_pair.mp hf with rfl | rfl
  · exact ⟨rfl, Document.isWhole_of_decode [] rfl rfl⟩
  · exact ⟨rfl, Document.isWhole_of_not_decode rfl⟩

theorem ofDirectory_faulty :
    ∃ c, ofDirectory (filesOnly faulty) "." jsonConfig = .ok c ∧
      HasOnePlace c "empty.json" ∧ HasOnePlace c "octet.json" := by
  have hdirectory : (filesOnly faulty).files.isDirectory [] (.ofString ".") = .ok true := rfl
  have hfound : Discovery.documents (filesOnly faulty).files [] (.ofString ".")
      jsonConfig.included jsonConfig.excluded = .ok faulty := rfl
  obtain ⟨hfile, herror, hok⟩ :=
    ofDirectory_isolates_all_but_overflows (w := filesOnly faulty) hdirectory hfound
      isJsonDocument_faulty
  cases hc : ofDirectory (filesOnly faulty) "." jsonConfig with
  | error failure =>
      obtain ⟨-, f, hf, hover⟩ := (herror failure).mp hc
      have hends := (hfile f hf _).mpr ⟨rfl, hover⟩
      rcases List.mem_pair.mp hf with rfl | rfl
      · cases hends
      · cases hends
  | ok c =>
      obtain ⟨outcomes, -, -, hplace⟩ := hok c hc
      have hempty : HasOnePlace c "empty.json" := hplace ("empty.json", []) (by decide)
      have hoctet : HasOnePlace c "octet.json" := hplace ("octet.json", [0xff]) (by decide)
      exact ⟨c, rfl, hempty, hoctet⟩

/-- A document whose arrays and objects nest twice. -/
def pingText : String := "\x7b\"methods\":[\"GET\"],\"url\":\x7b\"path\":\"/\"\x7d\x7d"

theorem isWhole_ping : Document.IsWhole .json (Utf8.encode pingText.toList) := by
  have hdecode : Utf8.decode (Utf8.dropMark (Utf8.encode pingText.toList)) =
      .ok pingText.toList := by
    rw [Utf8.dropMark_encode (by decide), Utf8.decode_encode]
  exact Document.isWhole_of_decode _ hdecode
    (show Json.pairsSurrogates false pingText.toList = true by decide)

/-- A document with a default of three hundred and ten digits. -/
def overflowing : List Char :=
  "\x7b\"methods\":[\"GET\"],\"url\":\x7b\"path\":\"/\",\"params\":\x7b\"q\":\x7b".toList ++
    "\"type\":\"double\",\"default\":1".toList ++ List.replicate 309 '0' ++
    "\x7d\x7d\x7d\x7d".toList

theorem decode_overflowing :
    Utf8.decode (Utf8.dropMark (Utf8.encode overflowing)) = .ok overflowing := by
  rw [Utf8.dropMark_encode (by decide +kernel), Utf8.decode_encode]

theorem overflows_overflowing : Document.Overflows (Utf8.encode overflowing) := by
  refine (Document.parse_eq_defect_iff (d := .integerBeyondFloat).mp ?_).2
  exact Document.parse_eq_defect_of_defectOf? decode_overflowing (by decide +kernel)
    (by decide +kernel)

/-- An endpoint beside a document that overflows. -/
def besideOverflow : NameMap (List UInt8) :=
  ⟨[("bad.json", Utf8.encode overflowing), ("good.json", Utf8.encode pingText.toList)],
    by decide⟩

theorem isJsonDocument_besideOverflow : ∀ f ∈ besideOverflow.entries, IsJsonDocument f := by
  intro f hf
  rcases List.mem_pair.mp hf with rfl | rfl
  · exact ⟨by decide, Document.isWhole_of_decode _ decode_overflowing
      (show Json.pairsSurrogates false overflowing = true by decide +kernel)⟩
  · exact ⟨by decide, isWhole_ping⟩

theorem ofDirectory_besideOverflow :
    Discovery.documents (filesOnly besideOverflow).files [] (.ofString ".") jsonConfig.included
        jsonConfig.excluded = .ok besideOverflow ∧
      (∀ f ∈ besideOverflow.entries, IsJsonDocument f) ∧
      ofDirectory (filesOnly besideOverflow) "." jsonConfig =
        .error (.defect .integerBeyondFloat) := by
  have hfound : Discovery.documents (filesOnly besideOverflow).files [] (.ofString ".")
      jsonConfig.included jsonConfig.excluded = .ok besideOverflow := rfl
  refine ⟨hfound, isJsonDocument_besideOverflow, ?_⟩
  refine (ofDirectory_eq_error_iff rfl hfound fun f hf =>
    (isJsonDocument_besideOverflow f hf).named).mpr ⟨rfl, ?_⟩
  exact ⟨_, List.mem_cons_self, overflows_overflowing⟩

end Directory

end Compilation

end EndpointBindings
