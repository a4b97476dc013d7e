import EndpointBindings.Run.Compile
import EndpointBindings.Proofs.PackageWriting
import EndpointBindings.Proofs.SingleFile

/-!
How a compilation ends. It is refused before anything is written, for one of four reasons with exit
codes of their own, or it leaves the package of what compiled in the directory that is asked for and
everything else as it was.
-/

namespace EndpointBindings

open Emission

namespace Run

section Outcomes

variable {w : World} {json : Bool} {layer : Layer} {excluded : List String}
  {config : CompilerConfig} {directory : String} {job : Job} {c : Compilation} {code : Nat}

/-- Why a compilation is refused, with the exit code of each reason. -/
inductive IsRefused (w : World) (layer : Layer) (excluded : List String) : Nat → Prop where
  | settings {fault : ConfigFault}
      (hresolve : Config.resolve w layer excluded = .error (.config fault)) :
      IsRefused w layer excluded 1
  | unnamedDirectory {config : CompilerConfig}
      (hresolve : Config.resolve w layer excluded = .ok config)
      (hmissing : config.specDir = none ∨ config.outDir = none) : IsRefused w layer excluded 2
  | noDirectory {config : CompilerConfig} {specDir outDir : String}
      (hresolve : Config.resolve w layer excluded = .ok config)
      (hspec : config.specDir = some specDir) (hout : config.outDir = some outDir)
      (hmissing : w.files.isDirectory w.cwd (.ofString specDir) = .ok false) :
      IsRefused w layer excluded 4
  | failedFiles {config : CompilerConfig} {specDir outDir : String} {c : Compilation}
      (hresolve : Config.resolve w layer excluded = .ok config)
      (hspec : config.specDir = some specDir) (hout : config.outDir = some outDir)
      (hc : Compilation.ofDirectory w specDir config = .ok c)
      (hstrict : config.strict = true) (hfailed : c.errors ≠ []) : IsRefused w layer excluded 3

theorem ofDirectory_eq_spec_iff {e : SpecError} :
    Compilation.ofDirectory w directory config = .error (.spec e) ↔
      w.files.isDirectory w.cwd (.ofString directory) = .ok false ∧
        e = .unreadable (.noDirectory directory) := by
  rw [Compilation.ofDirectory, bind_eq_error]
  constructor
  · rintro (h | ⟨there, hthere, h⟩)
    · obtain ⟨d, -, hd⟩ := mapError_eq_error.mp h
      simp at hd
    · cases there with
      | true =>
          rw [if_pos rfl, mapError_eq_error] at h
          obtain ⟨d, -, hd⟩ := h
          simp at hd
      | false =>
          rw [if_neg (by simp)] at h
          simp only [Except.error.injEq, Failure.spec.injEq] at h
          exact ⟨mapError_eq_ok.mp hthere, h.symm⟩
  · rintro ⟨hthere, rfl⟩
    exact .inr ⟨false, mapError_eq_ok.mpr hthere, rfl⟩

theorem jobOf_eq_ok : jobOf config = .ok job ↔
    config = job.config ∧ config.specDir = some job.specDir ∧ config.outDir = some job.outDir := by
  obtain ⟨own, specDir, outDir⟩ := job
  rw [jobOf]
  split <;> simp_all

theorem jobOf_eq_error {e : RunError} (h : jobOf config = .error e) :
    (config.specDir = none ∨ config.outDir = none) ∧
      (e = .noSpecDirectory ∨ e = .noOutDirectory) := by
  rw [jobOf] at h
  split at h <;> simp_all

theorem compile_eq_of_resolve (hresolve : Config.resolve w layer excluded = .ok config) :
    compile w json layer excluded = match jobOf config with
      | .error e => failed w [] e
      | .ok job => compileJob w json job := by
  rw [compile, hresolve]
  rfl

theorem compile_eq_of_jobOf (hresolve : Config.resolve w layer excluded = .ok config)
    (hjob : jobOf config = .ok job) :
    compile w json layer excluded = compileJob w json job := by
  rw [compile_eq_of_resolve hresolve, hjob]

/-- A compilation that is refused reports an error and leaves all files as they are. -/
theorem compile_eq_of_isRefused (h : IsRefused w layer excluded code) :
    ∃ remarks, compile w json layer excluded = ⟨remarks, .none, code, w.files, none⟩ := by
  cases h with
  | settings hresolve =>
      rw [compile, hresolve]
      exact ⟨_, rfl⟩
  | @unnamedDirectory config hresolve hmissing =>
      rw [compile_eq_of_resolve hresolve]
      cases hjob : jobOf config with
      | ok job =>
          obtain ⟨-, hspec, hout⟩ := jobOf_eq_ok.mp hjob
          simp [hspec, hout] at hmissing
      | error e =>
          obtain ⟨-, rfl | rfl⟩ := jobOf_eq_error hjob
          · exact ⟨_, rfl⟩
          · exact ⟨_, rfl⟩
  | @noDirectory config specDir outDir hresolve hspec hout hmissing =>
      have hjob : jobOf config = .ok ⟨config, specDir, outDir⟩ := jobOf_eq_ok.mpr ⟨rfl, hspec, hout⟩
      have herror := (@ofDirectory_eq_spec_iff w config specDir _).mpr ⟨hmissing, rfl⟩
      rw [compile_eq_of_jobOf hresolve hjob, compileJob, herror]
      exact ⟨_, rfl⟩
  | @failedFiles config specDir outDir c hresolve hspec hout hc hstrict hfailed =>
      have hjob : jobOf config = .ok ⟨config, specDir, outDir⟩ := jobOf_eq_ok.mpr ⟨rfl, hspec, hout⟩
      have hclean : c.isClean = false := by simpa [Compilation.isClean] using hfailed
      rw [compile_eq_of_jobOf hresolve hjob, compileJob, hc]
      dsimp only
      rw [if_pos (by simp [hstrict, hclean])]
      exact ⟨_, rfl⟩

theorem IsRefused.outcome (h : IsRefused w layer excluded code) (json : Bool) :
    (compile w json layer excluded).crash = none ∧
      (compile w json layer excluded).exitCode = code ∧
      (compile w json layer excluded).files = w.files := by
  obtain ⟨remarks, heq⟩ := @compile_eq_of_isRefused w json layer excluded code h
  rw [heq]
  exact ⟨rfl, rfl, rfl⟩

theorem IsRefused.ne_zero (h : IsRefused w layer excluded code) : code ≠ 0 := by
  cases h <;> decide

/-- Nothing speaks against a compilation. -/
structure IsAccepted (w : World) (layer : Layer) (excluded : List String) (job : Job)
    (c : Compilation) : Prop where
  resolved : Config.resolve w layer excluded = .ok job.config
  named : job.config.specDir = some job.specDir ∧ job.config.outDir = some job.outDir
  compiled : Compilation.ofDirectory w job.specDir job.config = .ok c
  tolerated : job.config.strict = true → c.errors = []

theorem compile_eq_of_isAccepted (h : IsAccepted w layer excluded job c) : ∃ text,
    compile w json layer excluded =
      publishAll w json job c (⟨.debug, text⟩ :: warnings c) := by
  have hjob : jobOf job.config = .ok job := jobOf_eq_ok.mpr ⟨rfl, h.named⟩
  rw [compile_eq_of_jobOf h.resolved hjob, compileJob, h.compiled]
  dsimp only
  rw [if_neg (by simpa [Compilation.isClean] using h.tolerated)]
  exact ⟨_, rfl⟩

/-- What a compilation did that ended well: the files of its package, and nothing else, were written
where they were asked for, and each error was reported. -/
structure Compiled (w : World) (layer : Layer) (excluded : List String) (run : Run) (job : Job)
    (c : Compilation) (files : List (String × String)) (l : Location) : Prop
    extends IsAccepted w layer excluded job c where
  exitCode : run.exitCode = 0
  crash : run.crash = none
  emitted : package c.registry = .ok files
  published : FileSystem.Publishes w.files run.files w.cwd (.ofString job.outDir) files l
  reported : run.remarks.filter (·.kind = .warning) =
    c.errors.map fun e => ⟨.warning, e.file ++ ": " ++ e.error.message⟩
  shown (console : Console) : ∃ before after, run.diagnostics console =
    before ++ String.join (c.errors.map fun e =>
      "Warning: " ++ e.file ++ ": " ++ e.error.message ++ "\n") ++ after

theorem filter_warnings : (warnings c).filter (·.kind = .warning) =
    c.errors.map fun e => ⟨.warning, e.file ++ ": " ++ e.error.message⟩ := by
  apply List.filter_eq_self.mpr
  intro m hm
  obtain ⟨e, -, rfl⟩ := List.mem_map.mp hm
  rfl

theorem filter_closing : (closing job c).filter (·.kind = .warning) = [] := by
  rw [closing]
  split <;> rfl

/-- Warnings are written on every console. -/
theorem diagnostics_warnings (console : Console) :
    (warnings c).map (fun m => console.diagnostic m.kind m.message) =
      c.errors.map fun e => "Warning: " ++ e.file ++ ": " ++ e.error.message ++ "\n" := by
  have hshown : console.shows .warning = true := by
    simp [Console.shows, Console.Diagnostic.isChatter]
  rw [warnings, List.map_map]
  refine List.map_congr_left fun e _ => ?_
  rw [Function.comp_apply, Console.diagnostic, if_pos hshown, Console.Diagnostic.lead]
  simp only [String.append_assoc]

theorem exists_diagnostics {run : Run} (before after : List Remark)
    (h : run.remarks = before ++ warnings c ++ after) (console : Console) :
    ∃ first last, run.diagnostics console = first ++ String.join (c.errors.map fun e =>
      "Warning: " ++ e.file ++ ": " ++ e.error.message ++ "\n") ++ last := by
  let written (m : Remark) : String := console.diagnostic m.kind m.message
  refine ⟨String.join (before.map written), String.join (after.map written), ?_⟩
  rw [diagnostics, h, List.map_append, List.map_append, String.join_append, String.join_append,
    diagnostics_warnings]

/-- A world in which a run reads texts: its files are a tree, and the settings in files and the
documents of the directory that the settings name escape whole characters only. -/
structure IsReadable (w : World) (layer : Layer) (excluded : List String) : Prop where
  tree : w.files.WellFormed
  settings : ∀ path octets cs, w.globalConfigPath = .ok path ∨ path = w.projectConfigPath →
    w.octets? path = .ok (some octets) → Text.Utf8.decode octets = .ok cs →
    Json.pairsSurrogates false (Text.unifyLineEnds cs) = true
  documents : ∀ config specDir found, Config.resolve w layer excluded = .ok config →
    config.specDir = some specDir →
    Discovery.documents w.files w.cwd (.ofString specDir) config.included config.excluded =
      .ok found →
    ∀ f ∈ found.entries, Document.IsWhole (Document.hintFor (.ofString f.1)) f.2

/-- A defect ended the run. -/
structure IsCrashed (run : Run) : Prop where
  exitCode : run.exitCode = 1
  crash : run.crash ≠ none

theorem isCrashed_failed (w : World) (remarks : List Remark) (d : Defect) :
    (failed w remarks (.defect d)).IsCrashed :=
  ⟨rfl, by simp [failed]⟩

/-- Writing the package ends in a defect, or in what was asked for. -/
theorem publishAll_cases {text : String} (hfs : w.files.WellFormed)
    (h : IsAccepted w layer excluded job c) :
    (publishAll w json job c (⟨.debug, text⟩ :: warnings c)).IsCrashed ∨
      ∃ files l, Compiled w layer excluded
        (publishAll w json job c (⟨.debug, text⟩ :: warnings c)) job c files l := by
  rw [publishAll]
  split
  · exact .inl (isCrashed_failed _ _ _)
  · rename_i fs written hpublish
    obtain ⟨files, l, hfiles, hl⟩ := publishes_of_publish hfs.isTree hpublish
    refine .inr ⟨files, l, ?_⟩
    split
    · exact ⟨h, rfl, rfl, hfiles, hl, filter_warnings,
        exists_diagnostics [⟨.debug, text⟩] [] (List.append_nil _).symm⟩
    · refine ⟨h, rfl, rfl, hfiles, hl, ?_, exists_diagnostics [⟨.debug, text⟩] _ rfl⟩
      rw [done, List.filter_append, filter_closing, List.append_nil]
      exact filter_warnings

/-- A compilation is refused, or a defect ends it, or it does what was asked for. -/
theorem compile_cases (hfs : w.files.WellFormed) : (∃ code, IsRefused w layer excluded code) ∨
    (compile w json layer excluded).IsCrashed ∨
    ∃ job c files l,
      Compiled w layer excluded (compile w json layer excluded) job c files l := by
  cases hresolve : Config.resolve w layer excluded with
  | error failure =>
      cases failure with
      | config fault => exact .inl ⟨1, .settings hresolve⟩
      | defect d =>
          rw [compile, hresolve]
          exact .inr (.inl (isCrashed_failed _ _ _))
  | ok config =>
      cases hjob : jobOf config with
      | error e => exact .inl ⟨2, .unnamedDirectory hresolve (jobOf_eq_error hjob).1⟩
      | ok job =>
          obtain ⟨rfl, hspec, hout⟩ := jobOf_eq_ok.mp hjob
          cases hc : Compilation.ofDirectory w job.specDir job.config with
          | error failure =>
              cases failure with
              | spec e =>
                  have hmissing := (ofDirectory_eq_spec_iff.mp hc).1
                  exact .inl ⟨4, .noDirectory hresolve hspec hout hmissing⟩
              | defect d =>
                  rw [compile_eq_of_jobOf hresolve hjob, compileJob, hc]
                  exact .inr (.inl (isCrashed_failed _ _ _))
          | ok c =>
              by_cases hfailed : job.config.strict = true ∧ c.errors ≠ []
              · exact .inl ⟨3, .failedFiles hresolve hspec hout hc hfailed.1 hfailed.2⟩
              · have haccepted : IsAccepted w layer excluded job c :=
                  ⟨hresolve, ⟨hspec, hout⟩, hc, by simpa using hfailed⟩
                obtain ⟨text, heq⟩ :=
                  @compile_eq_of_isAccepted w json layer excluded job c haccepted
                rw [heq]
                refine .inr ((publishAll_cases hfs haccepted).imp_right ?_)
                rintro ⟨files, l, hcompiled⟩
                exact ⟨job, c, files, l, hcompiled⟩

theorem exitCode_of_isAccepted {files : List (String × String)} {made : FileSystem} {l : Location}
    (hfs : w.files.WellFormed) (h : IsAccepted w layer excluded job c)
    (hfiles : package c.registry = .ok files)
    (hroom : FileSystem.HasRoom w.files w.cwd (.ofString job.outDir) files made l) :
    (compile w json layer excluded).exitCode = 0 := by
  obtain ⟨text, heq⟩ := @compile_eq_of_isAccepted w json layer excluded job c h
  obtain ⟨fs, written, hpublish⟩ := exists_publish hfs.isTree hfiles hroom
  rw [heq, publishAll, hpublish]
  dsimp only
  split <;> rfl

/-- A compilation ends without a defect and with another code than zero where it is refused and
only there, and then all files are as before. If it ends with zero, the files of the package were
written and nothing else was touched, and each document has an endpoint of its own or is at fault,
which was reported. It does end so where nothing speaks against it and the package has room. -/
theorem compile_writes_all_or_nothing (hread : IsReadable w layer excluded) (json : Bool) :
    (∀ code, code ≠ 0 → ((compile w json layer excluded).crash = none ∧
      (compile w json layer excluded).exitCode = code ↔ IsRefused w layer excluded code)) ∧
    (∀ code, IsRefused w layer excluded code →
      (compile w json layer excluded).files = w.files) ∧
    ((compile w json layer excluded).exitCode = 0 →
      ∃ job c files l,
        Compiled w layer excluded (compile w json layer excluded) job c files l ∧
        ∃ found outcomes,
          Discovery.documents w.files w.cwd (.ofString job.specDir) job.config.included
            job.config.excluded = .ok found ∧
          List.Forall₂ Compilation.OutcomeOf found.entries outcomes ∧
          Compilation.Accounts outcomes c ∧
          ∀ f ∈ found.entries, Compilation.HasOnePlace c f.1) ∧
    ∀ job c files made l, IsAccepted w layer excluded job c → package c.registry = .ok files →
      FileSystem.HasRoom w.files w.cwd (.ofString job.outDir) files made l →
      (compile w json layer excluded).exitCode = 0 := by
  have hcases := @compile_cases w json layer excluded hread.tree
  refine ⟨fun code hcode => ⟨?_, ?_⟩, ?_, ?_, ?_⟩
  · rintro ⟨hcrash, rfl⟩
    rcases hcases with ⟨code, h⟩ | h | ⟨job, c, files, l, h⟩
    · obtain ⟨-, hexit, -⟩ := h.outcome json
      rwa [hexit]
    · exact absurd hcrash h.crash
    · exact absurd h.exitCode hcode
  · intro h
    obtain ⟨hcrash, hexit, -⟩ := h.outcome json
    exact ⟨hcrash, hexit⟩
  · intro code h
    exact (h.outcome json).2.2
  · intro hexit
    rcases hcases with ⟨code, h⟩ | h | ⟨job, c, files, l, h⟩
    · obtain ⟨-, hcode, -⟩ := h.outcome json
      exact absurd (hcode.symm.trans hexit) h.ne_zero
    · simp [h.exitCode] at hexit
    · obtain ⟨found, hdirectory, hfound⟩ :=
        Compilation.exists_documents_of_ofDirectory h.compiled
      obtain ⟨outcomes, hall, haccounts, hplaces⟩ :=
        Compilation.hasOnePlace_of_ofDirectory hdirectory hfound h.compiled
      exact ⟨job, c, files, l, h, found, outcomes, hfound, hall, haccounts, hplaces⟩
  · intro job c files made l h hfiles hroom
    exact exitCode_of_isAccepted hread.tree h hfiles hroom

end Outcomes

theorem wellFormed_pinging : pinging.files.WellFormed := by
  refine ⟨by decide, fun e he => ?_⟩
  obtain rfl := List.mem_singleton.mp he
  exact ⟨[], "ping.json", rfl, by decide, rfl⟩

/-- Settings to compile the working directory into a directory inside it. -/
def intoOut : CompilerConfig :=
  { CompilerConfig.default with specDir := some ".", outDir := some "out" }

theorem exists_package_pinging : ∃ c t p i,
    Compilation.ofDirectory pinging "." intoOut = .ok c ∧
      package c.registry = .ok [("_transport.py", t), ("ping.py", p), ("__init__.py", i)] := by
  have hcompiled : (match Compilation.ofDirectory pinging "." intoOut with
      | .ok c => match package c.registry with
        | .ok files => files.map (·.1) == ["_transport.py", "ping.py", "__init__.py"]
        | .error _ => false
      | .error _ => false) = true := by decide +kernel
  cases hc : Compilation.ofDirectory pinging "." intoOut with
  | error failure => simp [hc] at hcompiled
  | ok c =>
      cases hfiles : package c.registry with
      | error d => simp [hc, hfiles] at hcompiled
      | ok files =>
          simp only [hc, hfiles, beq_iff_eq, List.map_eq_cons_iff, List.map_eq_nil_iff]
            at hcompiled
          obtain ⟨⟨_, t⟩, _, rfl, rfl, ⟨_, p⟩, _, rfl, rfl, ⟨_, i⟩, _, rfl, rfl, rfl⟩ := hcompiled
          exact ⟨c, t, p, i, rfl, hfiles⟩

theorem ofString_out : FilePath.ofString "out" = ⟨"", ["out"]⟩ := by decide +kernel

theorem eq_of_locate_out {fs : FileSystem} {l : Location}
    (h : fs.locate pinging.cwd (.ofString "out") = .ok l) : l = ["out"] := by
  rw [ofString_out] at h
  obtain ⟨-, hl⟩ := FileSystem.follow_cons_eq_ok (FileSystem.locate_eq_ok h)
  exact (Except.ok.inj hl).symm

theorem hasRoom_pinging {t p i : String} :
    FileSystem.HasRoom pinging.files pinging.cwd (.ofString "out")
      [("_transport.py", t), ("ping.py", p), ("__init__.py", i)]
      (pinging.files.put ["out"] .directory) ["out"] := by
  have hlocated : pinging.files.locate pinging.cwd ⟨"", ["out"]⟩ = .ok ["out"] := by
    rw [FileSystem.locate_eq (by decide) (by decide)]
    decide +kernel
  have hmake : pinging.files.makeDirectory pinging.cwd ⟨"", ["out"]⟩ =
      .ok (pinging.files.put ["out"] .directory) := by
    rw [FileSystem.makeDirectory, hlocated]
    rfl
  have hprepared : pinging.files.ensureDirectory pinging.cwd (.ofString "out") =
      (pinging.files.put ["out"] .directory, .ok ()) := by
    rw [ofString_out, FileSystem.ensureDirectory]
    dsimp only
    rw [List.reverse_singleton, FileSystem.makeDirectories, List.reverse_singleton, hmake]
  obtain ⟨l, hl⟩ := FileSystem.prepares_of_ensureDirectory wellFormed_pinging.isTree hprepared
  obtain rfl := eq_of_locate_out hl.located
  refine ⟨hprepared, hl.located, fun f hf => ⟨?_, ?_⟩⟩
  · simp only [List.mem_cons, List.not_mem_nil, or_false] at hf
    rcases hf with rfl | rfl | rfl
    all_goals
      rw [FileSystem.requireName, if_neg (by simp [String.contains_char_eq])]
      rfl
  · have hnone : pinging.files.get? ["out", f.1] = none := rfl
    rw [FileSystem.get?_put_of_ne (by simp) (by simp), List.singleton_append, hnone]
    simp

/-- A directory with one document, in a file of that name. -/
def holding (document : String) : World :=
  Compilation.filesOnly ⟨[("ping.json", Text.Utf8.encode document.toList)],
    List.pairwise_singleton _ _⟩

theorem globalConfigPath_holding (document : String) : (holding document).globalConfigPath =
    .ok ⟨"/", [".config", "specbind", "config.json"]⟩ := by
  have hsystem : (holding document).hasBaseDirectories = true := rfl
  have hvariable : (holding document).setVariable? "XDG_CONFIG_HOME" = none := rfl
  have hhome : (holding document).home = .ok ⟨"/", []⟩ := by
    rw [World.home]
    dsimp only [holding, Compilation.filesOnly, List.lookup, Option.getD]
    decide +kernel
  rw [World.globalConfigPath, World.configDirectory, World.ownDirectory, if_pos hsystem,
    World.baseDirectory, hvariable, hhome]
  decide +kernel

theorem octets?_globalConfig_holding (document : String) :
    (holding document).octets? ⟨"/", [".config", "specbind", "config.json"]⟩ = .ok none := by
  rw [World.octets?, FileSystem.octets?, FileSystem.lookup,
    FileSystem.locate_eq (by decide) (by decide)]
  rfl

theorem globalConfig_holding (document : String) :
    Config.globalConfig (holding document) = .ok .default := by
  rw [Config.globalConfig, globalConfigPath_holding, mapError_ok]
  dsimp only [bind, Except.bind]
  rw [octets?_globalConfig_holding, mapError_ok]
  rfl

theorem octets?_projectConfig_holding (document : String) :
    (holding document).octets? (holding document).projectConfigPath = .ok none := by
  have hpath : (holding document).projectConfigPath = ⟨"/", ["specbind.json"]⟩ := by
    rw [World.projectConfigPath, World.cwdPath]
    dsimp only [holding, Compilation.filesOnly]
    decide +kernel
  rw [hpath, World.octets?, FileSystem.octets?, FileSystem.lookup,
    FileSystem.locate_eq (by decide) (by decide)]
  rfl

theorem projectEntries_holding (document : String) :
    Config.projectEntries (holding document) = .ok none := by
  rw [Config.projectEntries, octets?_projectConfig_holding, mapError_ok]
  rfl

theorem globalConfig_pinging : Config.globalConfig pinging = .ok .default :=
  globalConfig_holding _

theorem projectEntries_pinging : Config.projectEntries pinging = .ok none :=
  projectEntries_holding _

theorem resolve_pinging :
    Config.resolve pinging (commandLayer (some ".") (some "out") none none) [] = .ok intoOut := by
  rw [Config.resolve, globalConfig_pinging, projectEntries_pinging]
  rfl

theorem isReadable_pinging :
    IsReadable pinging (commandLayer (some ".") (some "out") none none) [] := by
  refine ⟨wellFormed_pinging, fun path octets cs hpath hoctets _ => ?_,
    fun config specDir found hconfig hspec hfound => ?_⟩
  · rcases hpath with hpath | rfl
    · obtain rfl := Except.ok.inj ((globalConfigPath_holding _).symm.trans hpath)
      have hnone := octets?_globalConfig_holding Compilation.pingText
      cases hnone.symm.trans hoctets
    · have hnone := octets?_projectConfig_holding Compilation.pingText
      cases hnone.symm.trans hoctets
  · obtain rfl := Except.ok.inj (resolve_pinging.symm.trans hconfig)
    obtain rfl := Option.some.inj hspec
    have hping : Discovery.documents pinging.files pinging.cwd (.ofString ".") intoOut.included
        intoOut.excluded = .ok ⟨[("ping.json", Text.Utf8.encode Compilation.pingText.toList)],
          List.pairwise_singleton _ _⟩ := rfl
    obtain rfl := Except.ok.inj (hping.symm.trans hfound)
    intro f hf
    obtain rfl := List.mem_singleton.mp hf
    exact Compilation.isWhole_ping

theorem compile_writes_all_or_nothing_pinging :
    (compile pinging false (commandLayer (some ".") (some "out") none none) []).exitCode = 0 ∧
      (∃ text : String, (compile pinging false (commandLayer (some ".") (some "out") none none)
        []).files.get? ["out", "ping.py"] = some (.file (Text.Utf8.encode text.toList))) ∧
      ∀ octets, (compile pinging false (commandLayer (some ".") (some "out") none none)
        []).files.get? ["ping.json"] = some (.file octets) ↔
          pinging.files.get? ["ping.json"] = some (.file octets) := by
  obtain ⟨c, t, p, i, hc, hfiles⟩ := exists_package_pinging
  have haccepted : IsAccepted pinging (commandLayer (some ".") (some "out") none none) []
      ⟨intoOut, ".", "out"⟩ c := by
    refine ⟨resolve_pinging, ⟨rfl, rfl⟩, hc, ?_⟩
    simp [intoOut, CompilerConfig.default]
  obtain ⟨-, -, hwritten, hends⟩ := compile_writes_all_or_nothing isReadable_pinging false
  have hexit := hends _ c _ _ _ haccepted hfiles hasRoom_pinging
  obtain ⟨job, c', files, l, h, -⟩ := hwritten hexit
  -- The settings tell the directories, and those tell what was compiled and where it went.
  have hconfig : job.config = intoOut := Except.ok.inj (h.resolved.symm.trans resolve_pinging)
  obtain ⟨hspec, hout⟩ := h.named
  rw [hconfig] at hspec hout
  have hspec : job.specDir = "." := (Option.some.inj hspec).symm
  have hout : job.outDir = "out" := (Option.some.inj hout).symm
  have hcompiled := h.compiled
  rw [hspec, hconfig, hc] at hcompiled
  obtain rfl := Except.ok.inj hcompiled
  obtain rfl := Except.ok.inj (hfiles.symm.trans h.emitted)
  have hpublished := h.published
  obtain rfl := eq_of_locate_out (hout ▸ hpublished.located)
  refine ⟨hexit, ⟨p, hpublished.written "ping.py" p (by simp)⟩, ?_⟩
  intro octets
  exact hpublished.untouched ["ping.json"] octets (by simp)

end Run

end EndpointBindings
