import EndpointBindings.Proofs.CompileOutcome
import EndpointBindings.Proofs.JsonRoundTrip
import EndpointBindings.Proofs.Sessions
import EndpointBindings.Proofs.SourceLines

/-!
Listings read back. As records a listing is read as the rows that it was written for, under their
headers; as lines with tabs it is read as its rows exactly where no cell holds a tab or a line end.
-/

namespace EndpointBindings

open CommandLine

section Splitting

variable {mark x : Char} {cs piece : List Char}

/-- The pieces between marks hold what stood there, and no mark. -/
theorem mem_of_mem_splitOn (h : piece ∈ cs.splitOn mark) (hx : x ∈ piece) : x ∈ cs ∧ x ≠ mark := by
  induction cs generalizing piece with
  | nil =>
      rw [List.splitOn_nil, List.mem_singleton] at h
      simp [h] at hx
  | cons c rest ih =>
      rw [List.splitOn_cons_eq_if_modifyHead] at h
      split at h
      · rcases List.mem_cons.mp h with rfl | h
        · simp at hx
        · exact ⟨List.mem_cons_of_mem _ (ih h hx).1, (ih h hx).2⟩
      · rename_i hc
        obtain ⟨first, more, hpieces⟩ := List.exists_cons_of_ne_nil (List.splitOn_ne_nil mark rest)
        rw [hpieces, List.modifyHead_cons, List.mem_cons] at h
        rw [hpieces] at ih
        rcases h with rfl | h
        · rcases List.mem_cons.mp hx with rfl | hx
          · exact ⟨List.mem_cons_self, by simpa using hc⟩
          · have hmem := ih List.mem_cons_self hx
            exact ⟨List.mem_cons_of_mem _ hmem.1, hmem.2⟩
        · have hmem := ih (List.mem_cons_of_mem _ h) hx
          exact ⟨List.mem_cons_of_mem _ hmem.1, hmem.2⟩

end Splitting

namespace Console

open Emission Json

/-- Text that fits between two tabs of a line. -/
def IsCell (s : String) : Prop := '\t' ∉ s.toList ∧ '\n' ∉ s.toList

instance (s : String) : Decidable (IsCell s) :=
  inferInstanceAs (Decidable ('\t' ∉ s.toList ∧ '\n' ∉ s.toList))

/-- What stands between the tabs of a line. -/
def readRow (line : String) : List String := (line.toList.splitOn '\t').map String.ofList

/-- The rows of a text: its lines, each of which is ended, in cells. -/
def readRows (text : String) : List (List String) := (sourceLines text).dropLast.map readRow

/-- A row as the members of a record. -/
def members (headers row : List String) : List (String × Value) := headers.zip (row.map .text)

section Tables

variable {c : Console} {headers row : List String} {rows : List (List String)} {text cell : String}

theorem isCell_of_mem_readRows (hrow : row ∈ readRows text) (hcell : cell ∈ row) :
    IsCell cell := by
  obtain ⟨line, hline, rfl⟩ := List.mem_map.mp hrow
  obtain ⟨cs, hcs, rfl⟩ := List.mem_map.mp (List.mem_of_mem_dropLast hline)
  obtain ⟨piece, hpiece, rfl⟩ := List.mem_map.mp hcell
  rw [String.toList_ofList] at hpiece
  rw [IsCell, String.toList_ofList]
  refine ⟨fun htab => (mem_of_mem_splitOn hpiece htab).2 rfl, fun hend => ?_⟩
  exact (mem_of_mem_splitOn hcs (mem_of_mem_splitOn hpiece hend).1).2 rfl

theorem readRow_intercalate (hne : row ≠ []) (h : ∀ cell ∈ row, IsCell cell) :
    readRow ("\t".intercalate row) = row := by
  have hsplit : ("\t".intercalate row).toList.splitOn '\t' = row.map String.toList := by
    rw [String.toList_intercalate]
    apply List.splitOn_intercalate
    · intro cs hcs
      obtain ⟨cell, hcell, rfl⟩ := List.mem_map.mp hcs
      exact (h cell hcell).1
    · simpa using hne
  rw [readRow, hsplit]
  simp

theorem readRows_endLines (hne : ∀ row ∈ rows, row ≠ [])
    (h : ∀ row ∈ rows, ∀ cell ∈ row, IsCell cell) :
    readRows (endLines (rows.map "\t".intercalate)) = rows := by
  have hlines : ∀ l ∈ rows.map "\t".intercalate, IsLine l := by
    intro l hl
    obtain ⟨row, hrow, rfl⟩ := List.mem_map.mp hl
    exact isLine_intercalate (by decide) fun cell hcell => (h row hrow cell hcell).2
  rw [readRows, sourceLines_endLines_of_isLine hlines, List.dropLast_concat, List.map_map]
  conv_rhs => rw [← List.map_id rows]
  exact List.map_congr_left fun row hrow => readRow_intercalate (hne row hrow) (h row hrow)

/-- The rows that are read from lines with tabs are the rows that were written exactly where no cell
of theirs was cut. -/
theorem readRows_table_eq_iff (hformat : c.format = .plain)
    (hne : ∀ row ∈ headers :: rows, row ≠ []) (hheaders : ∀ cell ∈ headers, IsCell cell) :
    readRows (c.table headers rows) = headers :: rows ↔
      ∀ row ∈ rows, ∀ cell ∈ row, IsCell cell := by
  have htable : c.table headers rows = endLines ((headers :: rows).map "\t".intercalate) := by
    rw [table, hformat, endLines, List.map_map]
    rfl
  rw [htable]
  constructor
  · intro heq row hrow cell
    exact isCell_of_mem_readRows (heq ▸ List.mem_cons_of_mem headers hrow)
  · intro hrows
    exact readRows_endLines hne (List.forall_mem_cons.mpr ⟨hheaders, hrows⟩)

theorem names_members : ((members headers row).map (·.1)).Sublist headers := by
  induction headers generalizing row with
  | nil => simp [members]
  | cons h headers ih =>
      cases row with
      | nil => simp [members]
      | cons cell row => exact ih.cons_cons h

theorem record_eq (h : headers.Nodup) :
    record headers row = .mapping (entries (members headers row)) := by
  have hzip : (headers.zip row).map (fun p => (Value.text p.1, Value.text p.2)) =
      entries (members headers row) := by
    rw [entries, members, List.zip_map_right, List.map_map]
    rfl
  rw [record, hzip, ofPairs_entries (h.sublist names_members)]

theorem textual_record (h : headers.Nodup) : Textual 1 (record headers row) := by
  rw [record_eq h]
  refine .mapping (h.sublist names_members) fun m hm => ?_
  obtain ⟨cell, -, hcell⟩ := List.mem_map.mp (List.of_mem_zip hm).2
  rw [← hcell]
  exact .text 0 cell

/-- A table is read back as the list of its records. -/
theorem readText_table (hformat : c.format = .json) (h : headers.Nodup) :
    readText (c.table headers rows) =
      .ok (.list (rows.map fun row => .mapping (entries (members headers row)))) := by
  have htextual : Textual 2 (.list (rows.map (record headers))) := by
    refine .list fun v hv => ?_
    obtain ⟨row, -, rfl⟩ := List.mem_map.mp hv
    exact textual_record h
  rw [table, hformat]
  refine (htextual.readText_write (by decide)).trans ?_
  rw [List.map_congr_left fun row _ => record_eq h]

end Tables

end Console

namespace Run

open Console

/-- The headers of a listing. -/
def headers : Subject → List String
  | .endpoints => endpointHeaders
  | .errors => errorHeaders

/-- The rows of a listing: one for each endpoint, or for each file that failed. -/
def rows (c : Compilation) : Subject → List (List String)
  | .endpoints => c.registry.entries.map fun (name, e) => endpointRow c name e
  | .errors => c.errors.map errorRow

section Listings

variable {c : Compilation} {subject : Subject} {files : FileSystem} {row : List String}

theorem headers_nodup : (headers subject).Nodup := by
  cases subject <;> decide

theorem isCell_of_mem_headers : ∀ cell ∈ headers subject, IsCell cell := by
  cases subject <;> decide

theorem ne_nil_of_mem_headers_rows : ∀ row ∈ headers subject :: rows c subject, row ≠ [] := by
  intro row hrow
  cases subject with
  | endpoints =>
      rcases List.mem_cons.mp hrow with rfl | hrow
      · exact List.cons_ne_nil _ _
      · obtain ⟨entry, -, rfl⟩ := List.mem_map.mp hrow
        exact List.cons_ne_nil _ _
  | errors =>
      rcases List.mem_cons.mp hrow with rfl | hrow
      · exact List.cons_ne_nil _ _
      · obtain ⟨error, -, rfl⟩ := List.mem_map.mp hrow
        exact List.cons_ne_nil _ _

theorem listing_eq_table (h : rows c subject ≠ []) :
    listing files c subject = done files [] (.table (headers subject) (rows c subject)) := by
  cases subject with
  | endpoints =>
      have hne : c.registry.isEmpty = false := by
        simpa [rows, NameMap.isEmpty] using h
      rw [listing, hne]
      rfl
  | errors =>
      have hne : c.isClean = false := by
        simpa [rows, Compilation.isClean] using h
      rw [listing, hne]
      rfl

/-- A listing ends well, whatever there is to list. -/
theorem listing_ends : (listing files c subject).crash = none ∧
    (listing files c subject).exitCode = 0 := by
  cases subject with
  | endpoints =>
      rw [listing]
      split <;> exact ⟨rfl, rfl⟩
  | errors =>
      rw [listing]
      split <;> exact ⟨rfl, rfl⟩

end Listings

end Run

namespace Program

variable {w : World} {words rest : List String} {options : RootOptions} {topic : Topic}
  {console : Console}

/-- Where a listing ends well, something compiled, and it is told on the console that the options
choose. -/
theorem run_inspect {subject : Subject} {specDir : Option String} {excluded : List String}
    (hroot : readRoot words = .ok (options, topic, rest))
    (hcommand : Command.read topic rest = .ok (.inspect subject specDir excluded))
    (hexit : (run w words).ending = .exit 0) :
    ∃ console c, consoleFor w options = .ok console ∧
      Run.compilationOf w specDir excluded = .ok c ∧
      (run w words).output = (Run.listing w.files c subject).output console := by
  obtain ⟨console, hconsole, hrun, hexit⟩ := exists_session_of_ending hroot hcommand hexit
  rw [hrun]
  rw [perform, Run.inspect] at hexit ⊢
  cases hc : Run.compilationOf w specDir excluded with
  | error e =>
      rw [hc] at hexit
      exact absurd hexit exitCode_failed_ne_zero
  | ok c =>
      refine ⟨console, c, hconsole, rfl, ?_⟩
      rw [ofRun_of_no_crash Run.listing_ends.1]

/-- The fixed formats are those of the options that ask for them, records before lines. -/
theorem format_consoleFor (h : consoleFor w options = .ok console) :
    (options.json = true → console.format = .json) ∧
      (options.json = false → options.plain = true → console.format = .plain) := by
  obtain ⟨choice, hchoice, rfl⟩ := map_eq_ok.mp h
  refine ⟨fun hjson => ?_, fun hjson hplain => ?_⟩
  · rw [formatFor, if_pos hjson] at hchoice
    obtain rfl := Except.ok.inj hchoice
    rfl
  · rw [formatFor, hjson, if_neg Bool.false_ne_true, if_pos hplain] at hchoice
    obtain rfl := Except.ok.inj hchoice
    rfl

/-- A listing of something is read back from the output: from records as its rows under their
headers, and from lines with tabs as its headers and rows where no cell of them is cut. -/
theorem listing_read_back {subject : Subject} {specDir : Option String} {excluded : List String}
    (hroot : readRoot words = .ok (options, topic, rest))
    (hcommand : Command.read topic rest = .ok (.inspect subject specDir excluded))
    (hexit : (run w words).ending = .exit 0) :
    ∃ c, Run.compilationOf w specDir excluded = .ok c ∧ (Run.rows c subject ≠ [] →
      (options.json = true → Json.readText (run w words).output =
        .ok (.list ((Run.rows c subject).map fun row =>
          .mapping (Json.entries (Console.members (Run.headers subject) row))))) ∧
      (options.json = false → options.plain = true →
        (Console.readRows (run w words).output = Run.headers subject :: Run.rows c subject ↔
          ∀ row ∈ Run.rows c subject, ∀ cell ∈ row, Console.IsCell cell))) := by
  obtain ⟨console, c, hconsole, hc, houtput⟩ := run_inspect hroot hcommand hexit
  obtain ⟨hrecords, hlines⟩ := format_consoleFor hconsole
  refine ⟨c, hc, fun hne => ?_⟩
  have htable : (run w words).output =
      console.table (Run.headers subject) (Run.rows c subject) := by
    rw [houtput, Run.listing_eq_table hne]
    rfl
  rw [htable]
  refine ⟨fun hjson => ?_, fun hjson hplain => ?_⟩
  · exact Console.readText_table (hrecords hjson) Run.headers_nodup
  · exact Console.readRows_table_eq_iff (hlines hjson hplain) Run.ne_nil_of_mem_headers_rows
      Run.isCell_of_mem_headers

section Held

variable {document : String} {c : Compilation}

/-- The settings under which the working directory is listed. -/
def listedHere : CompilerConfig := { CompilerConfig.default with specDir := some "." }

theorem compilationOf_holding
    (hc : Compilation.ofDirectory (Run.holding document) "." listedHere = .ok c) :
    Run.compilationOf (Run.holding document) (some ".") [] = .ok c := by
  have hresolve : Config.resolve (Run.holding document)
      (fun s => if s = .specDir then (some ".").map Value.text else none) [] =
        .ok listedHere := by
    rw [Config.resolve, Run.globalConfig_holding, Run.projectEntries_holding]
    rfl
  rw [Run.compilationOf, hresolve, mapError_ok]
  exact mapError_eq_ok.mpr hc

/-- The words that list the working directory. -/
def wordsFor (format subject : String) : List String := [format, "inspect", subject, "."]

theorem readRoot_json (subject : String) : readRoot (wordsFor "--json" subject) =
    .ok (⟨true, false, false, false, false⟩, .inspect, [subject, "."]) := rfl

theorem readRoot_plain (subject : String) : readRoot (wordsFor "--plain" subject) =
    .ok (⟨false, true, false, false, false⟩, .inspect, [subject, "."]) := rfl

theorem read_endpoints : Command.read .inspect ["endpoints", "."] =
    .ok (.inspect .endpoints (some ".") []) := rfl

theorem read_errors : Command.read .inspect ["errors", "."] =
    .ok (.inspect .errors (some ".") []) := rfl

theorem session_listing {subject : Subject}
    (hroot : readRoot words = .ok (options, topic, rest))
    (hconsole : consoleFor (Run.holding document) options = .ok console)
    (hcommand : Command.read topic rest = .ok (.inspect subject (some ".") []))
    (hc : Compilation.ofDirectory (Run.holding document) "." listedHere = .ok c) :
    session (Run.holding document) words =
      .ok (console, Run.listing (Run.holding document).files c subject) := by
  rw [session_eq_ok hroot hconsole hcommand, perform, Run.inspect, compilationOf_holding hc]

/-- What a listing of the working directory comes to. -/
theorem run_listing {subject : Subject} (hroot : readRoot words = .ok (options, topic, rest))
    (hconsole : consoleFor (Run.holding document) options = .ok console)
    (hcommand : Command.read topic rest = .ok (.inspect subject (some ".") []))
    (hc : Compilation.ofDirectory (Run.holding document) "." listedHere = .ok c) :
    (run (Run.holding document) words).ending = .exit 0 ∧
      (run (Run.holding document) words).output =
        (Run.listing (Run.holding document).files c subject).output console := by
  obtain ⟨hcrash, hexit⟩ := @Run.listing_ends c subject (Run.holding document).files
  rw [run_eq_finish, session_listing hroot hconsole hcommand hc, finish, ofRun_of_no_crash hcrash,
    hexit]
  exact ⟨rfl, rfl⟩

theorem exists_rows_eq {row : List String}
    (h : isOkWith (fun c => Run.rows c .endpoints == [row] && c.isClean)
      (Compilation.ofDirectory (Run.holding document) "." listedHere) = true) :
    ∃ c, Compilation.ofDirectory (Run.holding document) "." listedHere = .ok c ∧
      Run.rows c .endpoints = [row] ∧ c.isClean := by
  obtain ⟨c, hc, hlisted⟩ := exists_of_isOkWith h
  exact ⟨c, hc, by simpa using hlisted⟩

end Held

/-- A document of an endpoint that its file names. -/
def unnamed : String := "\x7b\"methods\": [\"GET\"], \"url\": \x7b\"path\": \"/\"\x7d\x7d"

theorem exists_rows_unnamed : ∃ c,
    Compilation.ofDirectory (Run.holding unnamed) "." listedHere = .ok c ∧
      Run.rows c .endpoints = [["ping", "GET", "/", "-", "-", "ping.json"]] ∧ c.isClean :=
  exists_rows_eq (by decide +kernel)

theorem listing_read_back_unnamed :
    Json.readText (run (Run.holding unnamed) (wordsFor "--json" "endpoints")).output =
        .ok (.list [.mapping [(.text "Endpoint", .text "ping"), (.text "Verbs", .text "GET"),
          (.text "Paths", .text "/"), (.text "Params", .text "-"), (.text "Body", .text "-"),
          (.text "File", .text "ping.json")]]) ∧
      Console.readRows (run (Run.holding unnamed) (wordsFor "--plain" "endpoints")).output =
        [Run.endpointHeaders, ["ping", "GET", "/", "-", "-", "ping.json"]] := by
  obtain ⟨c, hc, hrows, -⟩ := exists_rows_unnamed
  have hcompiled := compilationOf_holding hc
  have hcells : ∀ row ∈ [["ping", "GET", "/", "-", "-", "ping.json"]], ∀ cell ∈ row,
      Console.IsCell cell := by decide
  have hjson := (run_listing (readRoot_json "endpoints") rfl read_endpoints hc).1
  have hplain := (run_listing (readRoot_plain "endpoints") rfl read_endpoints hc).1
  obtain ⟨c₁, hc₁, hread⟩ := listing_read_back (readRoot_json "endpoints") read_endpoints hjson
  obtain ⟨c₂, hc₂, hsplit⟩ := listing_read_back (readRoot_plain "endpoints") read_endpoints hplain
  obtain rfl := Except.ok.inj (hcompiled.symm.trans hc₁)
  obtain rfl := Except.ok.inj (hcompiled.symm.trans hc₂)
  rw [hrows] at hread hsplit
  exact ⟨(hread (List.cons_ne_nil _ _)).1 rfl,
    ((hsplit (List.cons_ne_nil _ _)).2 rfl rfl).mpr hcells⟩

/-- A document of an endpoint whose name holds a tab. -/
def tabbed : String :=
  "\x7b\"a\\tb\": \x7b\"methods\": [\"GET\"], \"url\": \x7b\"path\": \"/\"\x7d\x7d\x7d"

theorem exists_rows_tabbed : ∃ c,
    Compilation.ofDirectory (Run.holding tabbed) "." listedHere = .ok c ∧
      Run.rows c .endpoints = [["a\tb", "GET", "/", "-", "-", "ping.json"]] ∧ c.isClean :=
  exists_rows_eq (by decide +kernel)

/-- Where there is nothing to list not even an empty list is written, and a tab in a name cuts its
cell. -/
theorem listing_not_read_back : ∃ c,
    Run.compilationOf (Run.holding tabbed) (some ".") [] = .ok c ∧ Run.rows c .errors = [] ∧
      (run (Run.holding tabbed) (wordsFor "--json" "errors")).ending = .exit 0 ∧
      (∀ items, Json.readText (run (Run.holding tabbed) (wordsFor "--json" "errors")).output ≠
        .ok (.list items)) ∧
      (run (Run.holding tabbed) (wordsFor "--plain" "endpoints")).ending = .exit 0 ∧
      Console.readRows (run (Run.holding tabbed) (wordsFor "--plain" "endpoints")).output ≠
        Run.headers .endpoints :: Run.rows c .endpoints := by
  obtain ⟨c, hc, hrows, hclean⟩ := exists_rows_tabbed
  obtain ⟨hends, hnone⟩ := run_listing (readRoot_json "errors") rfl read_errors hc
  obtain ⟨hplain, htable⟩ := run_listing (readRoot_plain "endpoints") rfl read_endpoints hc
  have hempty : (run (Run.holding tabbed) (wordsFor "--json" "errors")).output = "" := by
    rw [hnone, Run.listing, hclean]
    rfl
  have hlisted : (run (Run.holding tabbed) (wordsFor "--plain" "endpoints")).output =
      "Endpoint\tVerbs\tPaths\tParams\tBody\tFile\na\tb\tGET\t/\t-\t-\tping.json\n" := by
    rw [htable, Run.listing_eq_table (by simp [hrows]), hrows]
    decide +kernel
  refine ⟨c, compilationOf_holding hc, by simpa [Run.rows, Compilation.isClean] using hclean, hends,
    fun items hread => ?_, hplain, fun hread => ?_⟩
  · have hfault : isOkWith (fun _ => true) (Json.readText "") = false := rfl
    rw [← hempty, hread] at hfault
    exact Bool.noConfusion hfault
  · rw [hlisted, hrows] at hread
    revert hread
    decide +kernel

end Program

end EndpointBindings
