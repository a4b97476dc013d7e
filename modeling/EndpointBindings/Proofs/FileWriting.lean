import Mathlib.Data.List.Infix
import EndpointBindings.Proofs.DirectoryMaking
import EndpointBindings.Proofs.FreshNames

/-!
What writing files leaves of a file system. A file that is written stands at its place, and all
other places are as they were, since the name it is written under at first is a free one; and where
a step of it fails, everything is as it was.
-/

namespace EndpointBindings.FileSystem

section Removal

variable {fs : FileSystem} {l m : Location}

theorem lookup_filter {wanted : Location → Bool} {nodes : List (Location × Node)} :
    (nodes.filter fun e => wanted e.1).lookup m = if wanted m then nodes.lookup m else none := by
  induction nodes with
  | nil => simp
  | cons e rest ih =>
      obtain ⟨k, n⟩ := e
      rw [List.filter_cons]
      by_cases hm : m = k
      · subst hm
        cases hwanted : wanted m <;> simp [hwanted, ih]
      · have hne : (m == k) = false := beq_eq_false_iff_ne.mpr hm
        cases hwanted : wanted k <;> simp [List.lookup_cons, hne, ih]

theorem get?_remove (hl : l ≠ []) :
    (fs.remove l).get? m = if l <+: m then none else fs.get? m := by
  by_cases hm : m = []
  · simp [hm, hl]
  · rw [get?, if_neg hm, remove]
    dsimp only
    rw [@lookup_filter m fun k => !l.isPrefixOf k, get?, if_neg hm]
    simp only [← List.isPrefixOf_iff_prefix]
    cases l.isPrefixOf m <;> rfl

end Removal

section Names

variable {fs : FileSystem} {l : Location} {name : String}

theorem temporaryName_free : fs.get? (l ++ [fs.temporaryName l name]) = none := by
  have hinjective :
      Function.Injective fun k : Nat => "." ++ name ++ "." ++ toString k ++ ".tmp" := by
    intro j k h
    have hlist := congrArg String.toList h
    simp only [String.toList_append, List.append_cancel_right_eq,
      List.append_cancel_left_eq] at hlist
    exact Naming.toString_injective (String.toList_inj.mp hlist)
  rw [← Option.not_isSome_iff_eq_none, Option.isSome_iff_exists]
  rintro ⟨n, hn⟩
  have htaken : fs.temporaryName l name ∈ fs.namesIn l := by
    rw [namesIn, List.mem_filterMap]
    refine ⟨_, mem_nodes_of_get? hn (by simp), ?_⟩
    rw [relative?_eq_some_iff.mpr rfl]
  exact Naming.fresh_not_mem hinjective htaken

theorem temporaryName_ne : fs.temporaryName l name ≠ name := by
  intro h
  obtain ⟨k, hk⟩ : ∃ k, fs.temporaryName l name = "." ++ name ++ "." ++ toString k ++ ".tmp" :=
    Naming.exists_fresh_eq
  have hlength := congrArg (fun s => s.toList.length) (hk.symm.trans h)
  simp at hlength
  omega

end Names

/-- A file stands at a place where no directory was, and all else is as it was. -/
structure Replaces (fs fs' : FileSystem) (l : Location) (octets : List UInt8) : Prop where
  old : fs.get? l ≠ some .directory
  get?_eq : ∀ m, fs'.get? m = if m = l then some (.file octets) else fs.get? m

/-- Files stand in a directory, none of them where a directory was, and all else is as it was. -/
structure Fills (fs fs' : FileSystem) (l : Location) (files : List (String × String)) : Prop where
  old : ∀ f ∈ files, fs.get? (l ++ [f.1]) ≠ some .directory
  written : ∀ f ∈ files, fs'.get? (l ++ [f.1]) = some (.file (Text.Utf8.encode f.2.toList))
  kept : ∀ m, (∀ f ∈ files, m ≠ l ++ [f.1]) → fs'.get? m = fs.get? m

section Files

variable {fs fs' next beside : FileSystem} {cwd l temporary target : Location} {p : FilePath}
  {name : String} {octets content : List UInt8} {files : List (String × String)}
  {fault : Step → Option Defect} {faults : String → Step → Option Defect}

theorem Replaces.get?_directory {m : Location} (h : Replaces fs fs' l octets)
    (hm : fs.get? m = some .directory) : fs'.get? m = some .directory := by
  rw [h.get?_eq, if_neg, hm]
  rintro rfl
  exact h.old hm

theorem Replaces.isTree (h : Replaces fs fs' (l ++ [name]) octets) (htree : fs.IsTree)
    (hl : fs.get? l = some .directory) : fs'.IsTree := by
  intro m other n hm
  apply h.get?_directory
  rw [h.get?_eq] at hm
  split at hm
  · rename_i heq
    obtain ⟨rfl, -⟩ := List.append_inj' heq rfl
    exact hl
  · exact htree m other n hm

/-- What stands in the way of moving a file to a place. -/
def placeFault? (fs : FileSystem) (target : Location) : Option Defect :=
  if !isNamed target then some .unnamedPlace
  else if fs.isDirectoryAt target then some .isDirectory else none

theorem placeFault?_eq_none_iff : fs.placeFault? target = none ↔
    isNamed target = true ∧ fs.get? target ≠ some .directory := by
  rw [placeFault?]
  cases isNamed target <;> simp [isDirectoryAt]

theorem moveFile_eq {source : Location} {n : Node} (h : fs.get? source = some n) :
    fs.moveFile source target = match fs.placeFault? target with
      | none => .ok ((fs.remove source).put target n)
      | some d => .error d := by
  rw [moveFile, placeFault?, h]
  cases isNamed target with
  | false => rfl
  | true =>
      by_cases hold : fs.get? target = some .directory
      · simp [hold]
      · have hfile : fs.isDirectoryAt target = false := by simpa [isDirectoryAt] using hold
        simp [hfile]

/-- What keeps a file from its place once its directory is there: the first fault from outside, or
else the place itself. -/
def obstacle? (fault : Step → Option Defect) (fs : FileSystem) (target : Location) :
    Option Defect :=
  ((Step.create :: Step.afterCreation).findSome? fault).or (fs.placeFault? target)

/-- A file was put in its place, or something kept it from there and everything is as it was. -/
def Settles (fs : FileSystem) (target : Location) (octets : List UInt8)
    (out : FileSystem × Except Defect Unit) : Option Defect → Prop
  | none => out.2 = .ok () ∧ Replaces fs out.1 target octets
  | some d => out.2 = .error d ∧ ∀ m, out.1.get? m = fs.get? m

theorem Settles.unchanged {obstacle : Option Defect} {out : FileSystem × Except Defect Unit}
    {d : Defect} (h : Settles fs target octets out obstacle) (hout : out.2 = .error d) :
    ∀ m, out.1.get? m = fs.get? m := by
  cases obstacle with
  | none => exact absurd (h.1.symm.trans hout) (by simp)
  | some d => exact h.2

theorem Settles.replaced {obstacle : Option Defect} {out : FileSystem × Except Defect Unit}
    (h : Settles fs target octets out obstacle) (hout : out.2 = .ok ()) :
    obstacle = none ∧ Replaces fs out.1 target octets := by
  cases obstacle with
  | none => exact ⟨rfl, h.2⟩
  | some d => exact absurd (h.1.symm.trans hout) (by simp)

/-- A file stands at a place that was free before, and all else is as it was. -/
structure IsBeside (fs beside : FileSystem) (temporary : Location) (octets : List UInt8) :
    Prop where
  free : fs.get? temporary = none
  get?_eq : ∀ m, beside.get? m = if m = temporary then some (.file octets) else fs.get? m

theorem IsBeside.ne_nil (h : IsBeside fs beside temporary octets) : temporary ≠ [] := by
  rintro rfl
  exact absurd h.free (by simp)

/-- Below a free place there is nothing, so nothing is lost when the file is taken away. -/
theorem IsBeside.get?_remove (h : IsBeside fs beside temporary octets) (htree : fs.IsTree)
    (m : Location) : (beside.remove temporary).get? m = fs.get? m := by
  rw [FileSystem.get?_remove h.ne_nil, h.get?_eq]
  split
  · rename_i hbegins
    obtain ⟨way, rfl⟩ := hbegins
    cases way with
    | nil => rw [List.append_nil, h.free]
    | cons first rest => exact (htree.get?_append (by simp [h.free]) (by simp)).symm
  · rename_i hbegins
    rw [if_neg]
    rintro rfl
    exact hbegins List.prefix_rfl

/-- No step but the last changes anything but the file beside the target. -/
theorem IsBeside.perform (h : IsBeside fs beside temporary content) {s : Step} (hs : s ≠ .move) :
    ∃ next, beside.perform temporary target octets s = .ok next ∧
      IsBeside fs next temporary (if s = .write then octets else content) := by
  cases s with
  | write =>
      refine ⟨_, rfl, h.free, fun m => ?_⟩
      rw [get?_put _ _ _ h.ne_nil, h.get?_eq]
      split <;> rfl
  | move => exact absurd rfl hs
  | prepare | create | flush | sync | close => exact ⟨_, rfl, h⟩

theorem IsBeside.settles_move (h : IsBeside fs beside temporary octets) (htree : fs.IsTree)
    (hne : target ≠ temporary) : Settles fs target octets
      (performAll fault temporary target octets [.move] beside)
      ((fault .move).or (fs.placeFault? target)) := by
  have htarget : beside.placeFault? target = fs.placeFault? target := by
    rw [placeFault?, placeFault?, isDirectoryAt, isDirectoryAt, h.get?_eq, if_neg hne]
  have htemporary : beside.get? temporary = some (.file octets) := by rw [h.get?_eq, if_pos rfl]
  rw [performAll]
  cases fault .move with
  | some d => exact ⟨rfl, h.get?_remove htree⟩
  | none =>
      dsimp only
      rw [FileSystem.perform, moveFile_eq htemporary, htarget, Option.none_or]
      cases hplace : fs.placeFault? target with
      | some d => exact ⟨rfl, h.get?_remove htree⟩
      | none =>
          obtain ⟨hnamed, hold⟩ := placeFault?_eq_none_iff.mp hplace
          have hroot : target ≠ [] := by
            rintro rfl
            simp [isNamed] at hnamed
          refine ⟨rfl, hold, fun m => ?_⟩
          change ((beside.remove temporary).put target (.file octets)).get? m = _
          rw [get?_put _ _ _ hroot, h.get?_remove htree]

/-- The induction is on the steps before the last one; each of them leaves the file beside the
target, and the last finds it written. -/
theorem IsBeside.settles_performAll (h : IsBeside fs beside temporary content)
    (htree : fs.IsTree) (hne : target ≠ temporary) {quiet : List Step}
    (hquiet : Step.move ∉ quiet) (hwritten : Step.write ∈ quiet ∨ content = octets) :
    Settles fs target octets (performAll fault temporary target octets (quiet ++ [.move]) beside)
      (((quiet ++ [Step.move]).findSome? fault).or (fs.placeFault? target)) := by
  induction quiet generalizing beside content with
  | nil =>
      obtain rfl := hwritten.resolve_left (by simp)
      have hmove := @settles_move _ _ _ _ _ fault h htree hne
      rw [List.nil_append, List.findSome?_cons]
      cases hfault : fault .move <;> simpa [hfault] using hmove
  | cons s rest ih =>
      rw [List.cons_append, performAll, List.findSome?_cons]
      cases fault s with
      | some d => exact ⟨rfl, h.get?_remove htree⟩
      | none =>
          rw [List.mem_cons, not_or] at hquiet
          obtain ⟨hs, hrest⟩ := hquiet
          obtain ⟨next, hnext, hbeside⟩ := h.perform (Ne.symm hs)
          dsimp only
          rw [hnext]
          apply ih hbeside hrest
          split
          · exact .inr rfl
          · rename_i hother
            refine hwritten.imp_left fun hmem => ?_
            exact (List.mem_cons.mp hmem).resolve_left (Ne.symm hother)

theorem settles_replaceFile (htree : fs.IsTree) : Settles fs (l ++ [name]) octets
    (replaceFile fault fs l name octets) (obstacle? fault fs (l ++ [name])) := by
  rw [replaceFile, obstacle?, List.findSome?_cons]
  cases fault .create with
  | some d => exact ⟨rfl, fun _ => rfl⟩
  | none =>
      have hbeside : IsBeside fs (fs.put (l ++ [fs.temporaryName l name]) (.file []))
          (l ++ [fs.temporaryName l name]) [] :=
        ⟨temporaryName_free, fun m => get?_put _ _ _ (by simp)⟩
      have hne : l ++ [name] ≠ l ++ [fs.temporaryName l name] := by
        simpa using temporaryName_ne.symm
      have hquiet : Step.move ∉ [Step.write, Step.flush, Step.sync, Step.close] := by decide
      exact hbeside.settles_performAll htree hne hquiet (.inl (by decide))

/-- What keeps a file from being written into a directory that is there. -/
def hindrance? (fault : Step → Option Defect) (fs : FileSystem) (l : Location) (name : String) :
    Option Defect :=
  (fault .prepare).or (match requireName name with
    | .ok () => obstacle? fault fs (l ++ [name])
    | .error d => some d)

theorem hindrance?_noFault_eq_none_iff (hname : IsEntryName name) :
    hindrance? noFault fs l name = none ↔
      requireName name = .ok () ∧ fs.get? (l ++ [name]) ≠ some .directory := by
  have hnamed : isNamed (l ++ [name]) = true := by
    obtain ⟨hempty, -, hup, -⟩ := hname
    rw [isNamed, List.getLast?_concat]
    split <;> simp_all
  have hobstacle : obstacle? noFault fs (l ++ [name]) = fs.placeFault? (l ++ [name]) := rfl
  rw [hindrance?, noFault, Option.none_or, hobstacle]
  cases requireName name with
  | error d => simp
  | ok _ => simp [placeFault?_eq_none_iff, hnamed]

theorem settles_write_child (htree : fs.IsTree) (hname : IsEntryName name)
    (hl : fs.locate cwd p = .ok l) (hd : fs.get? l = some .directory) :
    Settles fs (l ++ [name]) octets (write fault fs cwd (p.child name) octets)
      (hindrance? fault fs l name) := by
  have hparent : (p.child name).parent = p := by simp [FilePath.child_eq hname, FilePath.parent]
  have hlast : (p.child name).name = name := by simp [FilePath.child_eq hname, FilePath.name]
  rw [write, hindrance?]
  cases fault .prepare with
  | some d => exact ⟨rfl, fun _ => rfl⟩
  | none =>
      rw [hparent, ensureDirectory_of_directory hl hd, Option.none_or]
      dsimp only
      rw [locateTarget, hparent, hlast, hl]
      cases requireName name with
      | error d => exact ⟨rfl, fun _ => rfl⟩
      | ok _ => exact settles_replaceFile htree

/-- Of several files those before the first that is kept from its place stand there, all else is as
it was, and the outcome is that file's. -/
structure Stops (faults : String → Step → Option Defect) (fs : FileSystem) (l : Location)
    (before after : List (String × String)) (out : FileSystem × Except Defect Unit) : Prop where
  free : ∀ f ∈ before, hindrance? (faults f.1) fs l f.1 = none
  filled : Fills fs out.1 l before
  left : ∀ f ∈ after, out.1.get? (l ++ [f.1]) = fs.get? (l ++ [f.1])
  succeeds : after = [] → out.2 = .ok ()
  fails : ∀ f rest, after = f :: rest →
    ∃ d, hindrance? (faults f.1) fs l f.1 = some d ∧ out.2 = .error d

/-- Where a file stands now makes no difference to what keeps another one from its place. -/
theorem Replaces.hindrance?_eq {other : String} (h : Replaces fs fs' (l ++ [name]) octets)
    (hne : other ≠ name) : hindrance? fault fs' l other = hindrance? fault fs l other := by
  have hplace : fs'.placeFault? (l ++ [other]) = fs.placeFault? (l ++ [other]) := by
    have hother : l ++ [other] ≠ l ++ [name] := by simpa using hne
    rw [placeFault?, placeFault?, isDirectoryAt, isDirectoryAt, h.get?_eq, if_neg hother]
  rw [hindrance?, hindrance?, obstacle?, obstacle?, hplace]

theorem Replaces.fills {text : String}
    (h : Replaces fs next (l ++ [name]) (Text.Utf8.encode text.toList))
    (h' : Fills next fs' l files) (hother : ∀ f ∈ files, l ++ [f.1] ≠ l ++ [name]) :
    Fills fs fs' l ((name, text) :: files) := by
  have hsame : ∀ f ∈ files, next.get? (l ++ [f.1]) = fs.get? (l ++ [f.1]) := by
    intro f hf
    rw [h.get?_eq, if_neg (hother f hf)]
  refine ⟨?_, ?_, ?_⟩
  · rw [List.forall_mem_cons]
    refine ⟨h.old, fun f hf => ?_⟩
    rw [← hsame f hf]
    exact h'.old f hf
  · rw [List.forall_mem_cons]
    refine ⟨?_, h'.written⟩
    rw [h'.kept _ fun f hf => (hother f hf).symm, h.get?_eq, if_pos rfl]
  · intro m hm
    obtain ⟨hfirst, hrest⟩ := List.forall_mem_cons.mp hm
    rw [h'.kept m hrest, h.get?_eq, if_neg hfirst]

theorem exists_stops (hall : ∀ f ∈ files, IsEntryName f.1) (hdistinct : (files.map (·.1)).Nodup)
    (htree : fs.IsTree) (hl : fs.locate cwd p = .ok l) (hd : fs.get? l = some .directory) :
    ∃ before after, files = before ++ after ∧
      Stops faults fs l before after (writeAll faults cwd p files fs) := by
  induction files generalizing fs with
  | nil =>
      have hfills : Fills fs fs l [] := ⟨by simp, by simp, fun _ _ => rfl⟩
      exact ⟨[], [], rfl, by simp, hfills, by simp, fun _ => rfl, by simp⟩
  | cons f rest ih =>
      obtain ⟨name, text⟩ := f
      obtain ⟨hname, hall⟩ := List.forall_mem_cons.mp hall
      obtain ⟨hnew, hdistinct⟩ := List.nodup_cons.mp hdistinct
      have hsettles := @settles_write_child fs cwd l p name (Text.Utf8.encode text.toList)
        (faults name) htree hname hl hd
      rw [writeAll]
      generalize write (faults name) fs cwd (p.child name) (Text.Utf8.encode text.toList) = out
        at hsettles
      obtain ⟨next, outcome⟩ := out
      cases hfirst : hindrance? (faults name) fs l name with
      | some d =>
          rw [hfirst] at hsettles
          obtain ⟨rfl, hsame⟩ := hsettles
          refine ⟨[], (name, text) :: rest, rfl, by simp, ⟨by simp, by simp, fun m _ => hsame m⟩,
            fun f _ => hsame _, by simp, ?_⟩
          rintro f more heq
          obtain ⟨rfl, -⟩ := List.cons.inj heq
          exact ⟨d, hfirst, rfl⟩
      | none =>
          rw [hfirst] at hsettles
          obtain ⟨rfl, hreplaced⟩ := hsettles
          have hdirectories := fun m => hreplaced.get?_directory (m := m)
          -- No later file takes the place of the first.
          have hother : ∀ f ∈ rest, f.1 ≠ name := by
            intro f hf hname
            exact hnew (List.mem_map.mpr ⟨f, hf, hname⟩)
          have hplace : ∀ f ∈ rest, l ++ [f.1] ≠ l ++ [name] := by
            intro f hf
            simpa using hother f hf
          obtain ⟨before, after, rfl, hstops⟩ := ih hall hdistinct (hreplaced.isTree htree hd)
            (locate_mono hdirectories hl) (hdirectories _ hd)
          obtain ⟨hbefore, hafter⟩ := List.forall_mem_append.mp hother
          obtain ⟨hplaceBefore, hplaceAfter⟩ := List.forall_mem_append.mp hplace
          refine ⟨(name, text) :: before, after, rfl, ?_,
            hreplaced.fills hstops.filled hplaceBefore, fun f hf => ?_, hstops.succeeds, ?_⟩
          · rw [List.forall_mem_cons]
            refine ⟨hfirst, fun f hf => ?_⟩
            rw [← hreplaced.hindrance?_eq (hbefore f hf)]
            exact hstops.free f hf
          · rw [hstops.left f hf]
            dsimp only at hreplaced
            rw [hreplaced.get?_eq, if_neg (hplaceAfter f hf)]
          · rintro f more rfl
            obtain ⟨d, hd, herror⟩ := hstops.fails f more rfl
            rw [hreplaced.hindrance?_eq (hafter f List.mem_cons_self)] at hd
            exact ⟨d, hd, herror⟩

theorem Stops.after_eq_nil {before after : List (String × String)}
    {out : FileSystem × Except Defect Unit} (h : Stops faults fs l before after out)
    (hfree : ∀ f ∈ after, hindrance? (faults f.1) fs l f.1 = none) : after = [] := by
  cases after with
  | nil => rfl
  | cons f more =>
      obtain ⟨d, hd, -⟩ := h.fails f more rfl
      simp [hfree f List.mem_cons_self] at hd

theorem Stops.after_eq_nil_iff {before after : List (String × String)}
    {out : FileSystem × Except Defect Unit} (h : Stops faults fs l before after out) :
    after = [] ↔ out.2 = .ok () := by
  refine ⟨h.succeeds, fun hok => ?_⟩
  cases after with
  | nil => rfl
  | cons f more =>
      obtain ⟨d, -, hd⟩ := h.fails f more rfl
      simp [hok] at hd

/-- What writing one file after another comes to. -/
theorem fills_of_writeAll (htree : fs.IsTree) (hl : fs.locate cwd p = .ok l)
    (hd : fs.get? l = some .directory) (hnames : ∀ f ∈ files, IsEntryName f.1)
    (hdistinct : (files.map (·.1)).Nodup)
    (h : writeAll faults cwd p files fs = (fs', .ok ())) : Fills fs fs' l files := by
  obtain ⟨before, after, rfl, hstops⟩ : ∃ before after, files = before ++ after ∧
      Stops faults fs l before after (fs', .ok ()) :=
    h ▸ exists_stops hnames hdistinct htree hl hd
  obtain rfl := hstops.after_eq_nil_iff.mpr rfl
  rw [List.append_nil]
  exact hstops.filled

/-- Files are written one after another if their names allow it and no directory is in the way. -/
theorem exists_writeAll (htree : fs.IsTree) (hl : fs.locate cwd p = .ok l)
    (hd : fs.get? l = some .directory)
    (hnames : ∀ f ∈ files, IsEntryName f.1 ∧ requireName f.1 = .ok ())
    (hdistinct : (files.map (·.1)).Nodup)
    (hold : ∀ f ∈ files, fs.get? (l ++ [f.1]) ≠ some .directory) :
    ∃ fs', writeAll (fun _ => noFault) cwd p files fs = (fs', .ok ()) := by
  obtain ⟨before, after, rfl, hstops⟩ : ∃ before after, files = before ++ after ∧
      Stops (fun _ => noFault) fs l before after (writeAll (fun _ => noFault) cwd p files fs) :=
    exists_stops (fun f hf => (hnames f hf).1) hdistinct htree hl hd
  obtain rfl : after = [] := by
    apply hstops.after_eq_nil
    intro f hf
    have hmem := List.mem_append_right before hf
    exact (hindrance?_noFault_eq_none_iff (hnames f hmem).1).mpr ⟨(hnames f hmem).2, hold f hmem⟩
  exact ⟨_, Prod.ext rfl (hstops.succeeds rfl)⟩

end Files

end EndpointBindings.FileSystem
