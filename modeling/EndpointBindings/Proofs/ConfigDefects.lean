import EndpointBindings.Proofs.ConfigPrecedence
import EndpointBindings.Proofs.FileIsolation

/-!
What is not told as a fault of the settings. JSON that is malformed, an object of another form and a
value that cannot be read are told with their file or their place. A file without a place, a text
that is no UTF-8, an integer with too many digits, a text nested too deep and a value that takes no
more patterns end the run as defects, and nothing else does.
-/

namespace EndpointBindings

namespace Layer

/-- A value with items that go into a list; blank values have none. -/
def IsSpreadable : Value → Prop
  | .list _ | .tuple _ | .set _ | .text _ | .mapping _ | .bytes _ => True
  | v => v.isBlank = true

theorem items_eq_error_iff {v : Value} {d : Defect} :
    items v = .error d ↔ d = .notSequence ∧ ¬IsSpreadable v := by
  have hother : (if v.isBlank then Except.ok [] else Except.error Defect.notSequence :
      Except Defect (List Value)) = .error d ↔ d = .notSequence ∧ ¬v.isBlank = true := by
    by_cases h : v.isBlank = true
    · simp [h]
    · simp [h, eq_comm]
  cases v with
  | null | bool | int | float | date | instant | loop | again => exact hother
  | text | list | mapping | tuple | set | bytes => simp [items, IsSpreadable]

theorem exclude_eq_error_iff {l : Layer} {below : CompilerConfig} {patterns : List String}
    {d : Defect} :
    l.exclude below patterns = .error d ↔
      d = .notSequence ∧ patterns ≠ [] ∧ ∃ v, l .excluded = some v ∧ ¬IsSpreadable v := by
  cases patterns with
  | nil => simp [exclude]
  | cons p ps =>
      cases hl : l .excluded with
      | none => simp [exclude, hl, bind, Except.bind, pure, Except.pure]
      | some v => simp [exclude, hl, bind_eq_error, items_eq_error_iff, pure, Except.pure]

end Layer

namespace World

variable {w : World} {d : Defect}

theorem home_eq_error (h : w.home = .error d) : d = .noHome := by
  unfold home at h
  dsimp only at h
  split at h
  · simp at h
  · exact (Except.error.inj h).symm
  · simp at h

theorem baseDirectory_eq_error {varName : String} {inHome : List String}
    (h : w.baseDirectory varName inHome = .error d) : d = .noHome := by
  unfold baseDirectory at h
  split at h
  · simp at h
  · rcases bind_eq_error.mp h with h | ⟨_, _, h⟩
    · exact home_eq_error h
    · simp [pure, Except.pure] at h

theorem globalConfigPath_eq_error (h : w.globalConfigPath = .error d) : d = .noHome := by
  rcases bind_eq_error.mp h with h | ⟨_, _, h⟩
  · unfold configDirectory ownDirectory at h
    split at h
    · rcases bind_eq_error.mp h with h | ⟨_, _, h⟩
      · exact baseDirectory_eq_error h
      · simp [pure, Except.pure] at h
    · rcases bind_eq_error.mp h with h | ⟨_, _, h⟩
      · exact home_eq_error h
      · simp [pure, Except.pure] at h
  · simp [pure, Except.pure] at h

theorem octets?_eq_error {p : FilePath} (h : w.octets? p = .error d) : d = .nameTooLong := by
  rcases bind_eq_error.mp h with h | ⟨node, _, h⟩
  · unfold FileSystem.lookup at h
    split at h
    · simp at h
    · exact (Except.error.inj h).symm
    · simp at h
  · split at h
    · simp [pure, Except.pure] at h
    · simp [pure, Except.pure] at h

end World

namespace Config

open EndpointBindings.Text

variable {w : World} {octets : List UInt8} {d : Defect} {commandLine : Layer}
  {patterns : List String}

/-- Octets that are not even a malformed JSON text. -/
inductive OctetsDefect (octets : List UInt8) : Defect → Prop
  | notUtf8 {fault : Utf8.Fault} (h : Utf8.decode octets = .error fault) :
      OctetsDefect octets .notUtf8
  | tooManyDigits {cs : List Char} {count : Nat} (h : Utf8.decode octets = .ok cs)
      (hread : Json.read (unifyLineEnds cs) = .error (.tooManyDigits count)) :
      OctetsDefect octets .tooManyDigits
  | tooDeep {cs : List Char} {nesting : Json.Nesting} (h : Utf8.decode octets = .ok cs)
      (hread : Json.read (unifyLineEnds cs) = .error (.tooDeep nesting)) :
      OctetsDefect octets .tooDeep

/-- A file that cannot be looked for, or has such octets. -/
inductive FileDefect (file : Except Defect (Option (List UInt8))) : Defect → Prop
  | place {d : Defect} (h : file = .error d) : FileDefect file d
  | octets {octets : List UInt8} {d : Defect} (h : file = .ok (some octets))
      (hoctets : OctetsDefect octets d) : FileDefect file d

/-- The octets of the user's file, if there is one. -/
def userFile (w : World) : Except Defect (Option (List UInt8)) := w.globalConfigPath >>= w.octets?

/-- The octets of the project's file, if there is one. -/
def projectFile (w : World) : Except Defect (Option (List UInt8)) := w.octets? w.projectConfigPath

/-- The values over the user's settings. -/
def overUser (w : World) (commandLine : Layer) (project : Option (List (Value × Value))) : Layer :=
  commandLine.above ((environmentLayer w).above (Layer.ofEntries (project.getD [])))

/-- A file of settings with a defect, or patterns for a value that takes none. The project's file is
looked at only after the user's has been read, and the value only after both. -/
inductive SettingsDefect (w : World) (commandLine : Layer) (patterns : List String) : Defect → Prop
  | user {d : Defect} (h : FileDefect (userFile w) d) : SettingsDefect w commandLine patterns d
  | project {user : GlobalConfig} {d : Defect} (huser : globalConfig w = .ok user)
      (h : FileDefect (projectFile w) d) : SettingsDefect w commandLine patterns d
  | patterns {user : GlobalConfig} {project : Option (List (Value × Value))} {v : Value}
      (huser : globalConfig w = .ok user) (hproject : projectEntries w = .ok project)
      (hpatterns : patterns ≠ []) (hv : overUser w commandLine project .excluded = some v)
      (h : ¬Layer.IsSpreadable v) : SettingsDefect w commandLine patterns .notSequence

theorem readJson_eq_error_iff : readJson octets = .error d ↔ OctetsDefect octets d := by
  constructor
  · intro h
    unfold readJson at h
    dsimp only at h
    split at h
    · rename_i hdecode
      obtain rfl := Except.error.inj h
      exact .notUtf8 hdecode
    · rename_i cs hdecode
      split at h
      · simp at h
      · rename_i hread
        obtain rfl := Except.error.inj h
        exact .tooManyDigits hdecode hread
      · rename_i hread
        obtain rfl := Except.error.inj h
        exact .tooDeep hdecode hread
      · simp at h
  · intro h
    cases h with
    | notUtf8 h => simp [readJson, h]
    | tooManyDigits h hread => simp [readJson, h, hread]
    | tooDeep h hread => simp [readJson, h, hread]

theorem mapError_eq_defect_iff {α : Type} {x : Except Defect α} :
    x.mapError Failure.defect = .error (.defect d) ↔ x = .error d := by
  cases x <;> simp

theorem globalConfig_eq_defect_iff :
    globalConfig w = .error (.defect d) ↔ FileDefect (userFile w) d := by
  constructor
  · intro h
    rcases bind_eq_error.mp h with hpath | ⟨path, hpath, h⟩
    · exact .place (bind_eq_error.mpr (.inl (mapError_eq_defect_iff.mp hpath)))
    · have hpath := mapError_eq_ok.mp hpath
      rcases bind_eq_error.mp h with hfile | ⟨file, hfile, h⟩
      · exact .place (bind_eq_error.mpr (.inr ⟨path, hpath, mapError_eq_defect_iff.mp hfile⟩))
      · have hfile : userFile w = .ok file :=
          bind_eq_ok.mpr ⟨path, hpath, mapError_eq_ok.mp hfile⟩
        cases file with
        | none => simp [pure, Except.pure] at h
        | some octets =>
            refine .octets hfile (readJson_eq_error_iff.mp ?_)
            rcases bind_eq_error.mp h with hjson | ⟨json, _, h⟩
            · exact mapError_eq_defect_iff.mp hjson
            · cases json with
              | error reason => simp at h
              | ok v => simp [mapError_eq_error] at h
  · intro h
    cases h with
    | place h =>
        rcases bind_eq_error.mp h with hpath | ⟨path, hpath, hfile⟩
        · simp [globalConfig, hpath, bind, Except.bind]
        · simp [globalConfig, hpath, hfile, bind, Except.bind]
    | octets h hoctets =>
        obtain ⟨path, hpath, hfile⟩ := bind_eq_ok.mp h
        simp [globalConfig, hpath, hfile, readJson_eq_error_iff.mpr hoctets, bind, Except.bind]

theorem projectEntries_eq_defect_iff :
    projectEntries w = .error (.defect d) ↔ FileDefect (projectFile w) d := by
  constructor
  · intro h
    rcases bind_eq_error.mp h with hfile | ⟨file, hfile, h⟩
    · exact .place (mapError_eq_defect_iff.mp hfile)
    · have hfile : projectFile w = .ok file := mapError_eq_ok.mp hfile
      cases file with
      | none => simp [pure, Except.pure] at h
      | some octets =>
          refine .octets hfile (readJson_eq_error_iff.mp ?_)
          rcases bind_eq_error.mp h with hjson | ⟨json, _, h⟩
          · exact mapError_eq_defect_iff.mp hjson
          · split at h <;> simp at h
  · intro h
    rw [projectEntries]
    cases h with
    | place h =>
        rw [projectFile] at h
        simp [h, bind, Except.bind]
    | octets h hoctets =>
        rw [projectFile] at h
        simp [h, readJson_eq_error_iff.mpr hoctets, bind, Except.bind]

theorem resolve_eq_bind {user : GlobalConfig} {project : Option (List (Value × Value))}
    (huser : globalConfig w = .ok user) (hproject : projectEntries w = .ok project) :
    resolve w commandLine patterns =
      ((overUser w commandLine project).exclude user.compiler patterns).mapError Failure.defect >>=
        fun layers => (layers.resolve user.compiler).mapError
          fun places => .config (.invalidSettings places) := by
  rw [resolve, huser, hproject]
  rfl

theorem resolve_eq_defect_iff :
    resolve w commandLine patterns = .error (.defect d) ↔
      SettingsDefect w commandLine patterns d := by
  constructor
  · intro h
    rcases bind_eq_error.mp h with huser | ⟨user, huser, h⟩
    · exact .user (globalConfig_eq_defect_iff.mp huser)
    · rcases bind_eq_error.mp h with hproject | ⟨project, hproject, h⟩
      · exact .project huser (projectEntries_eq_defect_iff.mp hproject)
      · rcases bind_eq_error.mp h with hlayers | ⟨layers, _, h⟩
        · obtain ⟨rfl, hpatterns, v, hv, hspread⟩ :=
            Layer.exclude_eq_error_iff.mp (mapError_eq_defect_iff.mp hlayers)
          exact .patterns huser hproject hpatterns hv hspread
        · simp [mapError_eq_error] at h
  · intro h
    cases h with
    | user h => simp [resolve, globalConfig_eq_defect_iff.mpr h, bind, Except.bind]
    | project huser h =>
        simp [resolve, huser, projectEntries_eq_defect_iff.mpr h, bind, Except.bind]
    | @patterns user project v huser hproject hpatterns hv h =>
        have hexclude :
            (overUser w commandLine project).exclude user.compiler patterns =
              .error .notSequence :=
          Layer.exclude_eq_error_iff.mpr ⟨rfl, hpatterns, v, hv, h⟩
        rw [resolve_eq_bind huser hproject, hexclude]
        rfl

theorem OctetsDefect.mem (h : OctetsDefect octets d) :
    d ∈ [.notUtf8, .tooManyDigits, .tooDeep] := by
  cases h <;> decide

theorem SettingsDefect.mem (h : SettingsDefect w commandLine patterns d) :
    d ∈ [.noHome, .nameTooLong, .notUtf8, .tooManyDigits, .tooDeep, .notSequence] := by
  have hoctets : ∀ octets, OctetsDefect octets d →
      d ∈ [.noHome, .nameTooLong, .notUtf8, .tooManyDigits, .tooDeep, .notSequence] := by
    intro octets h
    have hmem := h.mem
    simp only [List.mem_cons] at hmem ⊢
    tauto
  cases h with
  | user h =>
      cases h with
      | place h =>
          rcases bind_eq_error.mp h with hpath | ⟨path, _, hfile⟩
          · simp [World.globalConfigPath_eq_error hpath]
          · simp [World.octets?_eq_error hfile]
      | octets _ h => exact hoctets _ h
  | project _ h =>
      cases h with
      | place h => simp [World.octets?_eq_error h]
      | octets _ h => exact hoctets _ h
  | patterns => simp

/-- A result, or a fault that is reported as one of the settings. -/
def IsTold {α : Type} : Except Failure α → Prop
  | .ok _ => True
  | .error (.config fault) => fault.report.kind = .config
  | .error (.defect _) => False

theorem isTold_iff {α : Type} {result : Except Failure α} :
    IsTold result ↔ ¬∃ d, result = .error (.defect d) := by
  cases result with
  | ok a => simp [IsTold]
  | error failure =>
      cases failure with
      | config fault => simp [IsTold, ConfigFault.report, Report.of]
      | defect d => simp [IsTold]

/-- Settings that cannot be had are told as such, unless a file of settings or the patterns of the
command line have a defect; then the defect is what the run ends in. -/
theorem settings_told_iff (w : World) (commandLine : Layer) (patterns : List String) :
    (IsTold (globalConfig w) ↔ ¬∃ d, FileDefect (userFile w) d) ∧
    (IsTold (projectEntries w) ↔ ¬∃ d, FileDefect (projectFile w) d) ∧
    (IsTold (resolve w commandLine patterns) ↔ ¬∃ d, SettingsDefect w commandLine patterns d) ∧
    ∀ d, (globalConfig w = .error (.defect d) ↔ FileDefect (userFile w) d) ∧
      (projectEntries w = .error (.defect d) ↔ FileDefect (projectFile w) d) ∧
      (resolve w commandLine patterns = .error (.defect d) ↔
        SettingsDefect w commandLine patterns d) ∧
      (SettingsDefect w commandLine patterns d →
        d ∈ [.noHome, .nameTooLong, .notUtf8, .tooManyDigits, .tooDeep, .notSequence]) := by
  simp only [isTold_iff, globalConfig_eq_defect_iff, projectEntries_eq_defect_iff,
    resolve_eq_defect_iff, true_and]
  exact fun d => SettingsDefect.mem

/-- A working directory, the root, with nothing in it but a project's file. -/
def onlyProject (octets : List UInt8) : World :=
  Compilation.filesOnly ⟨[("specbind.json", octets)], List.pairwise_singleton _ _⟩

theorem globalConfigPath_onlyProject : (onlyProject octets).globalConfigPath =
    .ok ⟨"/", [".config", "specbind", "config.json"]⟩ := by
  have hsystem : (onlyProject octets).hasBaseDirectories = true := rfl
  have hvariable : (onlyProject octets).setVariable? "XDG_CONFIG_HOME" = none := rfl
  have hhome : (onlyProject octets).home = .ok ⟨"/", []⟩ := by
    rw [World.home]
    dsimp only [onlyProject, Compilation.filesOnly, List.lookup, Option.getD]
    decide +kernel
  rw [World.globalConfigPath, World.configDirectory, World.ownDirectory, if_pos hsystem,
    World.baseDirectory, hvariable, hhome]
  decide +kernel

theorem globalConfig_onlyProject : globalConfig (onlyProject octets) = .ok .default := by
  have hlocated : (onlyProject octets).files.locate (onlyProject octets).cwd
      ⟨"/", [".config", "specbind", "config.json"]⟩ = .error .noSuchFile := by
    rw [FileSystem.locate_eq (by decide) (by decide)]
    rfl
  have hfile : (onlyProject octets).octets? ⟨"/", [".config", "specbind", "config.json"]⟩ =
      .ok none := by
    simp [World.octets?, FileSystem.octets?, FileSystem.lookup, hlocated, bind, Except.bind,
      pure, Except.pure]
  rw [globalConfig, globalConfigPath_onlyProject, mapError_ok]
  dsimp only [bind, Except.bind]
  rw [hfile]
  rfl

theorem projectFile_onlyProject : projectFile (onlyProject octets) = .ok (some octets) := by
  have hlocated : (onlyProject octets).files.locate [] ⟨"/", ["specbind.json"]⟩ =
      .ok ["specbind.json"] := by
    rw [FileSystem.locate_eq (by decide) (by decide)]
    rfl
  exact FileSystem.octets?_of_locate rfl hlocated

theorem projectEntries_onlyProject {entries : List (Value × Value)}
    (h : readJson octets = .ok (.ok (.mapping entries))) :
    projectEntries (onlyProject octets) = .ok (some entries) := by
  have hfile : (onlyProject octets).octets? (onlyProject octets).projectConfigPath =
      .ok (some octets) := projectFile_onlyProject
  rw [projectEntries, hfile, mapError_ok]
  dsimp only [bind, Except.bind]
  rw [h]
  rfl

/-- A command line without options. -/
def noOptions : Layer := Run.commandLayer none none none none

/-- A single octet that is no text is a defect of the project's file. -/
theorem resolve_notUtf8 :
    globalConfig (onlyProject [0xff]) = .ok .default ∧
      resolve (onlyProject [0xff]) noOptions [] = .error (.defect .notUtf8) ∧
      ¬IsTold (resolve (onlyProject [0xff]) noOptions []) := by
  have hoctets : OctetsDefect [0xff] .notUtf8 := .notUtf8 rfl
  have hresolve : resolve (onlyProject [0xff]) noOptions [] = .error (.defect .notUtf8) :=
    resolve_eq_defect_iff.mpr
      (.project globalConfig_onlyProject (.octets projectFile_onlyProject hoctets))
  exact ⟨globalConfig_onlyProject, hresolve, by simp [hresolve, IsTold]⟩

end Config

end EndpointBindings
