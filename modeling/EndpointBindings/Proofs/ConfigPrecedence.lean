import Mathlib.Tactic.ByContra
import Mathlib.Tactic.Choose
import EndpointBindings.Config.Resolution
import EndpointBindings.Run.Compile
import EndpointBindings.Proofs.ExceptResults
import EndpointBindings.Proofs.FileTree

/-!
The settings of a run by their layers. Each setting is what the uppermost of its values is read as,
and the run has no settings exactly when one of these values cannot be read. What they hide has no
say in either.
-/

namespace EndpointBindings

namespace Setting

def type : Setting → Type
  | specDir | outDir => Option String
  | included | excluded => List String
  | workers => Nat
  | strict => Bool

/-- The check that a value of a setting has to pass. -/
def reader : (s : Setting) → Value → Checked s.type
  | specDir | outDir => readDirectory
  | included | excluded => readPatterns
  | workers => readCount
  | strict => readSwitch

def all : List Setting := [specDir, outDir, included, excluded, workers, strict]

end Setting

def CompilerConfig.get (config : CompilerConfig) : (s : Setting) → s.type
  | .specDir => config.specDir
  | .outDir => config.outDir
  | .included => config.included
  | .excluded => config.excluded
  | .workers => config.workers
  | .strict => config.strict

namespace Layer

section Reading

variable {l upper lower : Layer} {below config : CompilerConfig}

/-- The value of a setting on top of given settings. -/
def valueOn (l : Layer) (below : CompilerConfig) (s : Setting) : Checked s.type :=
  l.read s s.reader (below.get s)

/-- All places at fault in the values of a layer. -/
def faults (l : Layer) : List Place :=
  Setting.all.flatMap fun s => (l.valueOn .default s).places

/-- A setting is what the layer's value is read as, or the usual one where the layer has none. -/
def Gives (l : Layer) (s : Setting) (a : s.type) : Prop :=
  match l s with
  | none => a = CompilerConfig.default.get s
  | some v => s.reader v = .ok a

/-- A layer is resolved through the values of the settings alone. -/
theorem resolve_eq : l.resolve below =
    match l.valueOn below .specDir, l.valueOn below .outDir, l.valueOn below .included,
      l.valueOn below .excluded, l.valueOn below .workers, l.valueOn below .strict with
    | .ok a, .ok b, .ok c, .ok d, .ok e, .ok f => .ok ⟨a, b, c, d, e, f⟩
    | _, _, _, _, _, _ => .error (Setting.all.flatMap fun s => (l.valueOn below s).places) := by
  simp only [Setting.all, List.flatMap_cons, List.flatMap_nil, List.append_nil,
    ← List.append_assoc]
  rfl

theorem resolve_congr {l' : Layer} {below' : CompilerConfig}
    (h : ∀ s, l.valueOn below s = l'.valueOn below' s) : l.resolve below = l'.resolve below' := by
  simp only [resolve_eq, h]

theorem resolve_eq_ok_iff :
    l.resolve below = .ok config ↔ ∀ s, l.valueOn below s = .ok (config.get s) := by
  constructor
  · intro h s
    rw [resolve_eq] at h
    split at h
    · rename_i hspecDir houtDir hincluded hexcluded hworkers hstrict
      obtain rfl := Except.ok.inj h
      cases s with
      | specDir => exact hspecDir
      | outDir => exact houtDir
      | included => exact hincluded
      | excluded => exact hexcluded
      | workers => exact hworkers
      | strict => exact hstrict
    · simp at h
  · intro h
    simp only [resolve_eq, h]
    rfl

theorem places_of_resolve {places : List Place} (h : l.resolve below = .error places) :
    places = Setting.all.flatMap fun s => (l.valueOn below s).places := by
  rw [resolve_eq] at h
  split at h
  · simp at h
  · exact (Except.error.inj h).symm

theorem resolve_eq_error_iff {places : List Place} :
    l.resolve below = .error places ↔
      (∃ s error, l.valueOn below s = .error error) ∧
        places = Setting.all.flatMap fun s => (l.valueOn below s).places := by
  constructor
  · intro h
    refine ⟨?_, places_of_resolve h⟩
    by_contra hnone
    have hvalues : ∀ s, ∃ a, l.valueOn below s = .ok a := by
      intro s
      cases hs : l.valueOn below s with
      | ok a => exact ⟨a, rfl⟩
      | error error => exact absurd ⟨s, error, hs⟩ hnone
    choose values hvalues using hvalues
    simp [resolve_eq, hvalues] at h
  · rintro ⟨⟨s, error, hs⟩, rfl⟩
    cases hresolve : l.resolve below with
    | ok config =>
        rw [resolve_eq_ok_iff.mp hresolve s] at hs
        simp at hs
    | error places => rw [places_of_resolve hresolve]

/-- Checked settings below a layer stand for the values that they were read from. -/
theorem resolve_above (h : lower.resolve .default = .ok below) :
    upper.resolve below = (upper.above lower).resolve .default := by
  apply resolve_congr
  intro s
  have hlower := resolve_eq_ok_iff.mp h s
  cases hupper : upper s with
  | none =>
      rw [valueOn, read, hupper, ← hlower, valueOn, valueOn, read, read, above_eq_of_none hupper]
  | some v => rw [valueOn, valueOn, read, read, hupper, above_eq_some hupper]

theorem gives_iff {s : Setting} {a : s.type} : l.Gives s a ↔ l.valueOn .default s = .ok a := by
  rw [Gives, valueOn, read]
  cases l s with
  | none => exact ⟨fun h => congrArg Except.ok h.symm, fun h => (Except.ok.inj h).symm⟩
  | some v => exact mapError_eq_ok.symm

theorem exists_fault_iff {s : Setting} : (∃ places, l.valueOn below s = .error places) ↔
    ∃ v places, l s = some v ∧ s.reader v = .error places := by
  rw [valueOn, read]
  cases l s with
  | none => simp
  | some v =>
      simp only [Checked.under, mapError_eq_error, Option.some.injEq]
      constructor
      · rintro ⟨_, places, h, _⟩
        exact ⟨v, places, rfl, h⟩
      · rintro ⟨_, places, rfl, h⟩
        exact ⟨_, places, h, rfl⟩

end Reading

end Layer

namespace Config

variable {w : World} {commandLine : Layer} {user : GlobalConfig}
  {project : Option (List (Value × Value))}

/-- The entries of the object under a key; there are none where no object is. -/
def entriesUnder (key : String) (entries : List (Value × Value)) : List (Value × Value) :=
  match Value.field? key entries with
  | some (.mapping inner) => inner
  | _ => []

/-- The entries of the user's file; there are none where no file is. -/
def userEntries (w : World) : List (Value × Value) :=
  match w.globalConfigPath >>= w.octets? with
  | .ok (some octets) =>
    match readJson octets with
    | .ok (.ok (.mapping entries)) => entries
    | _ => []
  | _ => []

/-- The values that the user's file gives to settings, as they stand there. -/
def userLayer (w : World) : Layer := .ofEntries (entriesUnder "compiler" (userEntries w))

/-- The value of each setting that nothing hides: of the command line, or else of the environment,
or else of the project's file, or else of the user's. -/
def uppermost (w : World) (commandLine : Layer) (project : Option (List (Value × Value))) : Layer :=
  commandLine.above ((environmentLayer w).above
    ((Layer.ofEntries (project.getD [])).above (userLayer w)))

theorem readGlobal_eq_ok {v : Value} (h : readGlobal v = .ok user) : ∃ entries,
    v = .mapping entries ∧
      readUnder "compiler" readCompiler .default entries = .ok user.compiler := by
  cases v with
  | mapping entries =>
      rw [readGlobal] at h
      split at h
      · rename_i hcompiler _
        obtain rfl := Except.ok.inj h
        exact ⟨entries, rfl, hcompiler⟩
      · simp at h
  | _ => simp [readGlobal, Checked.refuse] at h

theorem readUnder_userEntries (h : globalConfig w = .ok user) :
    readUnder "compiler" readCompiler .default (userEntries w) = .ok user.compiler := by
  simp only [globalConfig, bind_eq_ok, mapError_eq_ok] at h
  obtain ⟨path, hpath, octets, hoctets, h⟩ := h
  have hfile : w.globalConfigPath >>= w.octets? = .ok octets :=
    bind_eq_ok.mpr ⟨path, hpath, hoctets⟩
  rw [userEntries, hfile]
  cases octets with
  | none =>
      obtain rfl := Except.ok.inj h
      rfl
  | some octets =>
      simp only [bind_eq_ok, mapError_eq_ok] at h
      obtain ⟨json, hjson, h⟩ := h
      cases json with
      | error reason => simp at h
      | ok v =>
          obtain ⟨entries, rfl, hcompiler⟩ := readGlobal_eq_ok (mapError_eq_ok.mp h)
          simpa only [hjson] using hcompiler

theorem resolve_entriesUnder {key : String} {entries : List (Value × Value)}
    {config : CompilerConfig} (h : readUnder key readCompiler .default entries = .ok config) :
    (Layer.ofEntries (entriesUnder key entries)).resolve .default = .ok config := by
  rw [readUnder] at h
  rw [entriesUnder]
  cases hfield : Value.field? key entries with
  | none =>
      rw [hfield] at h
      exact h
  | some v =>
      rw [hfield] at h
      have hv := mapError_eq_ok.mp h
      cases v with
      | mapping inner => exact hv
      | _ => simp [readCompiler, Checked.refuse] at hv

theorem resolve_eq (huser : globalConfig w = .ok user) (hproject : projectEntries w = .ok project) :
    resolve w commandLine [] =
      ((uppermost w commandLine project).resolve .default).mapError
        fun places => .config (.invalidSettings places) := by
  have huserLayer : (userLayer w).resolve .default = .ok user.compiler :=
    resolve_entriesUnder (readUnder_userEntries huser)
  have hassoc : uppermost w commandLine project =
      (commandLine.above ((environmentLayer w).above (Layer.ofEntries (project.getD [])))).above
        (userLayer w) := by
    funext s
    simp [uppermost, Layer.above, Option.or_assoc]
  rw [hassoc, ← Layer.resolve_above huserLayer, resolve, huser, hproject]
  rfl

/-- A run has the settings that the uppermost values are read as, and fails if and only if one of
these cannot be read; so the values below them and entries of other names do not count. -/
theorem resolve_reads_uppermost (huser : globalConfig w = .ok user)
    (hproject : projectEntries w = .ok project) :
    (∀ config, resolve w commandLine [] = .ok config ↔
      ∀ s, (uppermost w commandLine project).Gives s (config.get s)) ∧
    (∀ failure, resolve w commandLine [] = .error failure ↔
      (∃ s v places, uppermost w commandLine project s = some v ∧ s.reader v = .error places) ∧
        failure = .config (.invalidSettings (uppermost w commandLine project).faults)) ∧
    ∀ w' commandLine' user' project', globalConfig w' = .ok user' →
      projectEntries w' = .ok project' →
      (∀ s, uppermost w' commandLine' project' s = uppermost w commandLine project s) →
      resolve w' commandLine' [] = resolve w commandLine [] := by
  rw [resolve_eq huser hproject]
  refine ⟨fun config => ?_, fun failure => ?_, ?_⟩
  · rw [mapError_eq_ok, Layer.resolve_eq_ok_iff]
    exact forall_congr' fun s => Layer.gives_iff.symm
  · simp only [mapError_eq_error, Layer.resolve_eq_error_iff, Layer.exists_fault_iff]
    constructor
    · rintro ⟨places, ⟨hfault, rfl⟩, rfl⟩
      exact ⟨hfault, rfl⟩
    · rintro ⟨hfault, rfl⟩
      exact ⟨_, ⟨hfault, rfl⟩, rfl⟩
  · intro w' commandLine' user' project' huser' hproject' hsame
    have hlayers : uppermost w' commandLine' project' = uppermost w commandLine project :=
      funext hsame
    rw [resolve_eq huser' hproject', hlayers]

def strictUser : String := "\x7b\"compiler\":\x7b\"strict\":\"yes\",\"workers\":8\x7d\x7d"

def oddProject : String := "\x7b\"workers\":\"many\",\"colour\":1\x7d"

/-- A user who wants no failures and a project whose count is no number, under an environment that
gives another count. -/
def overruling : World :=
  { env := [("XDG_CONFIG_HOME", "/config"), ("SPECBIND_WORKERS", "2"), ("SPECBIND_OUT_DIR", "")]
    system := "Linux", accountHome := "/", cwd := [], time := "", terminal := false
    files := ⟨[(["config"], .directory), (["config", "specbind"], .directory),
      (["config", "specbind", "config.json"], .file (Text.Utf8.encode strictUser.toList)),
      (["specbind.json"], .file (Text.Utf8.encode oddProject.toList))]⟩ }

/-- The values that the user's file holds. -/
def strictEntries : List (Value × Value) :=
  [(.text "compiler", .mapping [(.text "strict", .text "yes"), (.text "workers", .int 8)])]

theorem globalConfigOctets_overruling : overruling.globalConfigPath >>= overruling.octets? =
    .ok (some (Text.Utf8.encode strictUser.toList)) := by
  have hpath : overruling.globalConfigPath = .ok ⟨"/", ["config", "specbind", "config.json"]⟩ := by
    decide +kernel
  have hlocated : overruling.files.locate [] ⟨"/", ["config", "specbind", "config.json"]⟩ =
      .ok ["config", "specbind", "config.json"] := by
    rw [FileSystem.locate_eq (by decide) (by decide)]
    decide +kernel
  rw [hpath]
  exact FileSystem.octets?_of_locate rfl hlocated

theorem read_strictUser : (match readJson (Text.Utf8.encode strictUser.toList) with
    | .ok (.ok (.mapping [(.text a, .mapping [(.text b, .text c), (.text d, .int i)])])) =>
      decide ((a, b, c, d, i) = ("compiler", "strict", "yes", "workers", 8))
    | _ => false) = true := by
  decide +kernel

theorem readJson_strictUser :
    readJson (Text.Utf8.encode strictUser.toList) = .ok (.ok (.mapping strictEntries)) := by
  have hread := read_strictUser
  split at hread
  · rename_i heq
    simp only [decide_eq_true_eq, Prod.mk.injEq] at hread
    obtain ⟨rfl, rfl, rfl, rfl, rfl⟩ := hread
    exact heq
  · simp at hread

theorem globalConfig_overruling : globalConfig overruling =
    .ok ⟨{ CompilerConfig.default with workers := 8, strict := true }, .automatic⟩ := by
  obtain ⟨path, hpath, hoctets⟩ := bind_eq_ok.mp globalConfigOctets_overruling
  rw [globalConfig, hpath, mapError_ok]
  dsimp only [bind, Except.bind]
  rw [hoctets, mapError_ok]
  dsimp only
  rw [readJson_strictUser]
  rfl

theorem read_oddProject : (match readJson (Text.Utf8.encode oddProject.toList) with
    | .ok (.ok (.mapping [(.text a, .text b), (.text c, .int i)])) =>
      decide ((a, b, c, i) = ("workers", "many", "colour", 1))
    | _ => false) = true := by
  decide +kernel

theorem projectEntries_overruling : projectEntries overruling =
    .ok (some [(.text "workers", .text "many"), (.text "colour", .int 1)]) := by
  have hpath : overruling.projectConfigPath = ⟨"/", ["specbind.json"]⟩ := by decide +kernel
  have hlocated : overruling.files.locate [] ⟨"/", ["specbind.json"]⟩ = .ok ["specbind.json"] := by
    rw [FileSystem.locate_eq (by decide) (by decide)]
    decide +kernel
  have hoctets : overruling.octets? overruling.projectConfigPath =
      .ok (some (Text.Utf8.encode oddProject.toList)) := by
    rw [hpath]
    exact FileSystem.octets?_of_locate rfl hlocated
  have hread := read_oddProject
  split at hread
  · rename_i heq
    simp only [decide_eq_true_eq, Prod.mk.injEq] at hread
    obtain ⟨rfl, rfl, rfl, rfl⟩ := hread
    rw [projectEntries, hoctets, mapError_ok]
    dsimp only [bind, Except.bind]
    rw [heq]
    rfl
  · simp at hread

theorem resolve_overruling :
    resolve overruling (Run.commandLayer (some "specs") none none none) [] =
      .ok { CompilerConfig.default with
        specDir := some "specs", workers := 2, strict := true } := by
  have hentries : userEntries overruling = strictEntries := by
    rw [userEntries, globalConfigOctets_overruling]
    dsimp only
    rw [readJson_strictUser]
  apply ((resolve_reads_uppermost globalConfig_overruling projectEntries_overruling).1 _).mpr
  intro s
  apply Layer.gives_iff.mpr
  rw [uppermost, userLayer, hentries]
  cases s <;> rfl

end Config

end EndpointBindings
