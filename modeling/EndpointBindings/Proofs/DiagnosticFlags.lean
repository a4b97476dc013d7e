import EndpointBindings.Proofs.Listings

/-!
Options that only tell how loud the program is. Wherever they are added in front of a command, the
output, the way the program ends and the files stay as they are, and of the messages none goes but
those that only tell how things go.
-/

namespace EndpointBindings.CommandLine

section Words

variable {known : List OptionName} {front rest : List String} {word : String} {w : OptionWord}
  {cs : List Char}

/-- Options none of which takes a value. -/
def AreSwitches (known : List OptionName) : Prop := ∀ o ∈ known, o.takesValue = false

instance : Decidable (AreSwitches known) :=
  inferInstanceAs (Decidable (∀ o ∈ known, o.takesValue = false))

/-- A word that is read as options. -/
def IsOptionWord (word : String) : Prop := word ≠ "--" ∧ isOption word.toList = true

instance : Decidable (IsOptionWord word) :=
  inferInstanceAs (Decidable (word ≠ "--" ∧ isOption word.toList = true))

theorem pending_readLetters (hknown : AreSwitches known) (h : readLetters known cs = .ok w) :
    w.pending = none := by
  induction cs generalizing w with
  | nil =>
      obtain rfl := Except.ok.inj h
      rfl
  | cons c rest ih =>
      rw [readLetters] at h
      split at h
      · simp at h
      · rename_i o hfind
        rw [hknown o (List.mem_of_find?_eq_some hfind), if_neg Bool.false_ne_true] at h
        obtain ⟨more, hmore, h⟩ := bind_eq_ok.mp h
        obtain rfl := Except.ok.inj h
        have hpending : more.pending = none := ih hmore
        exact hpending

theorem pending_readLong (hknown : AreSwitches known) (h : readLong known cs = .ok w) :
    w.pending = none := by
  rw [readLong] at h
  split at h
  · simp at h
  · rename_i o hfind
    rw [hknown o (List.mem_of_find?_eq_some hfind)] at h
    split at h
    · simp at h
    · rw [if_neg Bool.false_ne_true] at h
      obtain rfl := Except.ok.inj h
      rfl

theorem pending_readOptionWord (hknown : AreSwitches known)
    (h : readOptionWord known cs = .ok w) : w.pending = none := by
  rw [readOptionWord.eq_def] at h
  split at h
  · exact pending_readLong hknown h
  · exact pending_readLetters hknown h

/-- The options of words in front of a command. -/
def readOptions (known : List OptionName) :
    List String → Except UsageFault (List (OptionName × String))
  | [] => .ok []
  | word :: rest => do
    let w ← readOptionWord known word.toList
    return w.options ++ (← readOptions known rest)

/-- Switches in front are read by themselves. -/
theorem readWords_append (hknown : AreSwitches known) (hfront : ∀ word ∈ front, IsOptionWord word) :
    readWords known true none (front ++ rest) = do
      let options ← readOptions known front
      let a ← readWords known true none rest
      return a.withOptions options := by
  induction front with
  | nil =>
      rw [List.nil_append]
      cases readWords known true none rest <;> rfl
  | cons word more ih =>
      obtain ⟨⟨hdashes, hoption⟩, hmore⟩ := List.forall_mem_cons.mp hfront
      rw [List.cons_append, readWords, if_neg hdashes, if_pos hoption, readOptions]
      cases hword : readOptionWord known word.toList with
      | error fault => rfl
      | ok w =>
          have hpending := pending_readOptionWord hknown hword
          dsimp only [bind, Except.bind]
          rw [hpending, ih hmore]
          cases readOptions known more with
          | error fault => rfl
          | ok options =>
              cases readWords known true none rest with
              | error fault => rfl
              | ok a => simp [bind, Except.bind, pure, Except.pure, Arguments.withOptions]

end Words

/-- The options that a flag of the diagnostics stands for. -/
def flagOption (flag : String) : OptionName := if flag = "--no-color" then .noColor else .quiet

/-- The flags of the diagnostics. -/
def diagnosticFlags : List String := ["--quiet", "-q", "--no-color"]

/-- The options of such flags. -/
def flagOptions (flags : List String) : List (OptionName × String) :=
  flags.map fun flag => (flagOption flag, "")

section Flags

variable {front flags rest : List String} {a : Arguments}
  {options : List (OptionName × String)}

theorem areSwitches_program : AreSwitches Topic.program.optionsOf := by decide

theorem isOptionWord_of_mem_diagnosticFlags :
    ∀ flag ∈ diagnosticFlags, IsOptionWord flag := by decide

theorem flagOption_eq_or (flag : String) :
    flagOption flag = .noColor ∨ flagOption flag = .quiet := by
  rw [flagOption]
  split
  · exact .inl rfl
  · exact .inr rfl

theorem readOptions_flags (hflags : ∀ flag ∈ flags, flag ∈ diagnosticFlags) :
    readOptions Topic.program.optionsOf flags = .ok (flagOptions flags) := by
  induction flags with
  | nil => rfl
  | cons flag more ih =>
      obtain ⟨hflag, hmore⟩ := List.forall_mem_cons.mp hflags
      have hword : ∀ flag ∈ diagnosticFlags, ∃ w,
          readOptionWord Topic.program.optionsOf flag.toList = .ok w ∧
            w.options = [(flagOption flag, "")] := by
        simp only [diagnosticFlags, List.forall_mem_cons]
        refine ⟨⟨_, rfl, rfl⟩, ⟨_, rfl, rfl⟩, ⟨_, rfl, rfl⟩, by simp⟩
      obtain ⟨w, hw, hoptions⟩ := hword flag hflag
      rw [readOptions, hw]
      dsimp only [bind, Except.bind]
      rw [hoptions, ih hmore]
      rfl

/-- Options with more flags of the diagnostics. -/
def RootOptions.flagged (flags : List String) (o : RootOptions) : RootOptions :=
  { o with
    quiet := o.quiet || flags.any (flagOption · = .quiet)
    noColor := o.noColor || flags.any (flagOption · = .noColor) }

/-- What comes of the arguments in front of a command. -/
def rootOf (a : Arguments) : Except Stop (RootOptions × Topic × List String) :=
  match a.firstOf? [.version, .help] with
  | some .version => .error .version
  | some _ => .error (.help .program)
  | none => do
    let command ← readCommand .program a.words
    return (⟨a.has .json, a.has .plain, a.has .noColor, a.has .quiet, a.has .verbose⟩, command)

theorem readRoot_eq {words : List String} (h : words ≠ []) : readRoot words =
    (readWords Topic.program.optionsOf true none words).mapError (Stop.usage .program) >>=
      rootOf := by
  have hwords : words.isEmpty = false := by simpa using h
  have hfirst : (!Topic.program.commandsOf.isEmpty) = true := rfl
  rw [readRoot, readGroup, hwords, if_neg Bool.false_ne_true, readTopic, readArguments, hfirst]
  cases readWords Topic.program.optionsOf true none words with
  | error fault => rfl
  | ok a =>
      simp only [mapError_ok, bind, Except.bind, rootOf]
      cases a.firstOf? [.version, .help] with
      | none =>
          dsimp only [pure, Except.pure]
          cases readCommand .program a.words <;> rfl
      | some o => cases o <;> rfl

theorem has_flagOptions (o : OptionName) :
    ((a.withOptions (flagOptions flags)).withOptions options).has o =
      ((a.withOptions options).has o || flags.any (flagOption · = o)) := by
  simp only [Arguments.has, Arguments.withOptions, flagOptions, List.any_append, List.any_map,
    Function.comp_def, Bool.or_assoc]
  rw [Bool.or_comm (a.options.any _)]

/-- No flag of the diagnostics ends the reading. -/
theorem firstOf?_flagOptions :
    ((a.withOptions (flagOptions flags)).withOptions options).firstOf? [.version, .help] =
      (a.withOptions options).firstOf? [.version, .help] := by
  have hnames : (flagOptions flags).map (·.1) = flags.map flagOption := List.map_map
  have hnone : (flags.map flagOption).find? ([OptionName.version, .help].contains ·) = none := by
    rw [List.find?_eq_none]
    intro o ho
    obtain ⟨flag, -, rfl⟩ := List.mem_map.mp ho
    rcases flagOption_eq_or flag with h | h <;> rw [h] <;> decide
  simp only [Arguments.firstOf?, Arguments.withOptions, List.map_append, List.find?_append, hnames,
    hnone, Option.none_or]

theorem rootOf_flagged : rootOf ((a.withOptions (flagOptions flags)).withOptions options) =
    (rootOf (a.withOptions options)).map fun r => (r.1.flagged flags, r.2) := by
  have hother (o : OptionName) (hcolor : .noColor ≠ o) (hquiet : .quiet ≠ o) :
      ((a.withOptions (flagOptions flags)).withOptions options).has o =
        (a.withOptions options).has o := by
    have hnone : flags.any (flagOption · = o) = false := by
      rw [List.any_eq_false]
      intro flag _
      rcases flagOption_eq_or flag with h | h <;> simpa [h]
    rw [has_flagOptions, hnone, Bool.or_false]
  rw [rootOf, rootOf, firstOf?_flagOptions]
  cases (a.withOptions options).firstOf? [.version, .help] with
  | none =>
      have hwords : ((a.withOptions (flagOptions flags)).withOptions options).words =
          (a.withOptions options).words := rfl
      dsimp only
      rw [hwords, hother .json (by decide) (by decide), hother .plain (by decide) (by decide),
        hother .verbose (by decide) (by decide), has_flagOptions, has_flagOptions]
      cases readCommand .program (a.withOptions options).words <;> rfl
  | some o => cases o <;> rfl

/-- Flags of the diagnostics change nothing of what is read but the options that they stand for. -/
theorem readRoot_flagged (hwords : front ++ rest ≠ [])
    (hfront : ∀ word ∈ front, IsOptionWord word)
    (hflags : ∀ flag ∈ flags, flag ∈ diagnosticFlags) :
    readRoot (front ++ (flags ++ rest)) =
      (readRoot (front ++ rest)).map fun r => (r.1.flagged flags, r.2) := by
  have hflagwords : ∀ flag ∈ flags, IsOptionWord flag := fun flag hflag =>
    isOptionWord_of_mem_diagnosticFlags flag (hflags flag hflag)
  have hmore : front ++ (flags ++ rest) ≠ [] := by
    intro hnil
    obtain ⟨hfirst, hlast⟩ := List.append_eq_nil_iff.mp hnil
    exact hwords (List.append_eq_nil_iff.mpr ⟨hfirst, (List.append_eq_nil_iff.mp hlast).2⟩)
  rw [readRoot_eq hwords, readRoot_eq hmore, readWords_append areSwitches_program hfront,
    readWords_append areSwitches_program hfront, readWords_append areSwitches_program hflagwords,
    readOptions_flags hflags]
  cases readOptions Topic.program.optionsOf front with
  | error fault => rfl
  | ok options =>
      cases readWords Topic.program.optionsOf true none rest with
      | error fault => rfl
      | ok a => exact rootOf_flagged

end Flags

end EndpointBindings.CommandLine

namespace EndpointBindings

namespace Console

variable {c : Console} {d : Diagnostic} {more : Bool}

/-- A console that may be quieter than another. -/
def quieted (more : Bool) (c : Console) : Console := { c with quiet := c.quiet || more }

/-- What is kept of the messages when there shall be less of them. -/
def keeps (more : Bool) (d : Diagnostic) : Bool := !(more && d.isChatter)

theorem shows_quieted : (c.quieted more).shows d = (c.shows d && keeps more d) := by
  cases d <;> simp [shows, quieted, keeps, Diagnostic.isChatter]

/-- A log record between debugging and warning is written where more is asked for and nowhere else,
however quiet the console is. -/
theorem logLevel_le_iff {level : Nat} (hlow : 10 ≤ level) (hhigh : level < 30) :
    c.logLevel ≤ level ↔ c.verbose = true := by
  unfold logLevel
  split_ifs with hverbose hquiet
  · simp [hverbose, hlow]
  · simp only [hverbose, Bool.false_eq_true, iff_false]
    omega
  · simp only [hverbose, Bool.false_eq_true, iff_false]
    omega

theorem logLevel_quieted_le_iff {level : Nat} (hlow : 10 ≤ level) (hhigh : level < 30) :
    (c.quieted more).logLevel ≤ level ↔ c.logLevel ≤ level := by
  rw [logLevel_le_iff hlow hhigh, logLevel_le_iff hlow hhigh, quieted]

end Console

namespace Run

open Console

variable {c : Console} {r : Run} {w : World} {more : Bool} {e : RunError}

/-- The messages that a run leaves on the error stream: of which kind each is, and its text. -/
def messages (c : Console) (r : Run) : List (Diagnostic × String) :=
  (r.remarks.filter (c.shows ·.kind)).map fun m => (m.kind, m.kind.lead ++ m.message ++ "\n")

theorem diagnostics_eq_join : r.diagnostics c = String.join ((r.messages c).map (·.2)) := by
  rw [diagnostics, messages]
  induction r.remarks with
  | nil => rfl
  | cons m rest ih =>
      rw [List.map_cons, String.join_cons, ih, diagnostic]
      cases hshown : c.shows m.kind with
      | true =>
          rw [List.filter_cons_of_pos (by simpa using hshown), List.map_cons, List.map_cons,
            String.join_cons, if_pos rfl]
      | false =>
          rw [List.filter_cons_of_neg (by simpa using hshown), if_neg Bool.false_ne_true,
            String.empty_append]

theorem messages_quieted :
    r.messages (c.quieted more) = (r.messages c).filter fun m => keeps more m.1 := by
  simp only [messages, List.filter_map, List.filter_filter, shows_quieted, Function.comp_def,
    Bool.and_comm]

theorem output_quieted : r.output (c.quieted more) = r.output c := by
  rw [output, output]
  split <;> rfl

/-- An error that ends a run is all that the run tells. -/
theorem kind_of_mem_log_failed : ∀ m ∈ ((failed w [] e).log w).1.remarks, m.kind = .error := by
  cases e with
  | defect d =>
      rw [log, failed]
      dsimp only
      repeat' split
      all_goals simp
  | _ => simp [log, failed, RunError.report?]

end Run

namespace Program

open CommandLine Console

variable {w : World} {front flags rest words : List String} {o : RootOptions}

/-- The messages that are left on the error stream; a usage text is one. -/
def messages (w : World) : Except Stop (Console × Run) → List (Diagnostic × String)
  | .error stop => [(.error, stop.diagnostics)]
  | .ok (console, r) => (r.log w).1.messages console

theorem diagnostics_finish (s : Except Stop (Console × Run)) :
    (finish w s).diagnostics = String.join ((messages w s).map (·.2)) := by
  cases s with
  | error stop => simp [finish, messages, ofStop]
  | ok s => exact Run.diagnostics_eq_join

/-- The console for more flags is the one without them, but quieter if they say so. -/
theorem consoleFor_flagged (hterminal : w.terminal = false) : consoleFor w (o.flagged flags) =
    (consoleFor w o).map (Console.quieted (flags.any (flagOption · = .quiet))) := by
  have hformat : formatFor w (o.flagged flags) = formatFor w o := rfl
  rw [consoleFor, consoleFor, hformat]
  cases formatFor w o with
  | error e => rfl
  | ok choice => cases choice <;> simp [Except.map, choose, hterminal, quieted, RootOptions.flagged]

/-- Two sessions that differ at most by how quiet the console is. Where none was chosen it is the
same, and where nothing is run there is none. -/
inductive Quiets (w : World) (more : Bool) :
    Except Stop (Console × Run) → Except Stop (Console × Run) → Prop
  | stopped (stop : Stop) : Quiets w more (.error stop) (.error stop)
  | unset (e : RunError) : Quiets w more (.ok (initialConsole w, Run.failed w [] e))
      (.ok (initialConsole w, Run.failed w [] e))
  | told (console : Console) (r : Run) :
      Quiets w more (.ok (console, r)) (.ok (console.quieted more, r))

section Pairs

variable {more : Bool} {s t : Except Stop (Console × Run)}

theorem Quiets.finish_eq (h : Quiets w more s t) :
    (finish w t).output = (finish w s).output ∧ (finish w t).ending = (finish w s).ending ∧
      (finish w t).files = (finish w s).files := by
  cases h with
  | stopped stop => exact ⟨rfl, rfl, rfl⟩
  | unset e => exact ⟨rfl, rfl, rfl⟩
  | told console r => exact ⟨Run.output_quieted, rfl, rfl⟩

theorem Quiets.messages_eq (h : Quiets w more s t) :
    messages w t = (messages w s).filter fun m => keeps more m.1 := by
  cases h with
  | stopped stop => simp [messages, keeps, Diagnostic.isChatter]
  | unset e =>
      symm
      apply List.filter_eq_self.mpr
      intro m hm
      obtain ⟨remark, hremark, rfl⟩ := List.mem_map.mp hm
      have hkind := Run.kind_of_mem_log_failed remark (List.mem_of_mem_filter hremark)
      simp [keeps, hkind, Diagnostic.isChatter]
  | told console r => exact Run.messages_quieted

end Pairs

/-- Flags of the diagnostics in front of a command change nothing of the session but how quiet the
console is. -/
theorem session_flagged (hterminal : w.terminal = false) (hwords : front ++ rest ≠ [])
    (hfront : ∀ word ∈ front, IsOptionWord word)
    (hflags : ∀ flag ∈ flags, flag ∈ diagnosticFlags) :
    Quiets w (flags.any (flagOption · = .quiet)) (session w (front ++ rest))
      (session w (front ++ flags ++ rest)) := by
  rw [session, session, List.append_assoc, readRoot_flagged hwords hfront hflags]
  cases readRoot (front ++ rest) with
  | error stop => exact .stopped stop
  | ok read =>
      obtain ⟨options, topic, words⟩ := read
      dsimp only [bind, Except.bind, Except.map]
      rw [consoleFor_flagged hterminal]
      cases consoleFor w options with
      | error e => exact .unset e
      | ok console =>
          dsimp only [Except.map]
          cases Command.read topic words with
          | error stop => exact .stopped stop
          | ok command => exact .told console _

/-- With more flags of the diagnostics the output, the ending and the files are as they were. Of the
messages those are left that the flags keep, in their order: all, or all but the chatter. -/
theorem diagnostic_flags_quiet_only (hterminal : w.terminal = false) (hwords : front ++ rest ≠ [])
    (hfront : ∀ word ∈ front, IsOptionWord word)
    (hflags : ∀ flag ∈ flags, flag ∈ diagnosticFlags) :
    ((run w (front ++ flags ++ rest)).output = (run w (front ++ rest)).output ∧
      (run w (front ++ flags ++ rest)).ending = (run w (front ++ rest)).ending ∧
      (run w (front ++ flags ++ rest)).files = (run w (front ++ rest)).files) ∧
    (run w (front ++ rest)).diagnostics =
      String.join ((messages w (session w (front ++ rest))).map (·.2)) ∧
    (run w (front ++ flags ++ rest)).diagnostics =
      String.join (((messages w (session w (front ++ rest))).filter fun m =>
        keeps (flags.any (flagOption · = .quiet)) m.1).map (·.2)) := by
  have hquiets := session_flagged hterminal hwords hfront hflags
  rw [run_eq_finish, run_eq_finish]
  refine ⟨hquiets.finish_eq, diagnostics_finish _, ?_⟩
  rw [diagnostics_finish, hquiets.messages_eq]

/-- The words that list the errors of a directory without any, with two flags more. -/
def quietWords : List String := ["--plain", "--no-color", "-q", "inspect", "errors", "."]

theorem diagnostic_flags_quiet_only_unnamed :
    (run (Run.holding unnamed) (wordsFor "--plain" "errors")).diagnostics = "No errors.\n" ∧
      (run (Run.holding unnamed) quietWords).diagnostics = "" ∧
      (run (Run.holding unnamed) quietWords).ending = .exit 0 := by
  obtain ⟨c, hc, -, hclean⟩ := exists_rows_unnamed
  have hlisting : Run.listing (Run.holding unnamed).files c .errors =
      Run.done (Run.holding unnamed).files [⟨.info, "No errors."⟩] .none := by
    rw [Run.listing, if_pos hclean]
  have hsession := session_listing (readRoot_plain "errors") rfl read_errors hc
  have hends := (run_listing (readRoot_plain "errors") rfl read_errors hc).1
  have hmessages : messages (Run.holding unnamed)
      (session (Run.holding unnamed) (wordsFor "--plain" "errors")) =
        [(.info, "No errors.\n")] := by
    rw [hsession, hlisting]
    rfl
  obtain ⟨⟨-, hending, -⟩, hbefore, hafter⟩ :=
    @diagnostic_flags_quiet_only (Run.holding unnamed) ["--plain"] ["--no-color", "-q"]
      ["inspect", "errors", "."] rfl (List.cons_ne_nil _ _) (by decide) (by decide)
  refine ⟨hbefore.trans ?_, hafter.trans ?_, hending.trans hends⟩
  · rw [List.singleton_append, ← wordsFor, hmessages]
    rfl
  · rw [List.singleton_append, ← wordsFor, hmessages]
    rfl

end Program

end EndpointBindings
