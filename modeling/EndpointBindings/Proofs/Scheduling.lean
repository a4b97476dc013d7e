import Mathlib.Logic.Relation
import EndpointBindings.Compilation
import EndpointBindings.Proofs.DirectoryWalk
import EndpointBindings.Proofs.ExceptResults
import EndpointBindings.Proofs.FileIsolation
import EndpointBindings.Proofs.NestingRoom
import EndpointBindings.Proofs.RelatedLists
import EndpointBindings.Proofs.SourceForms

/-!
Compilation by workers. A pool takes the files up and finishes them in any order, as many at a time
as there are workers; what became of each file is read off in the order of the files. How much room
a document has to nest in depends on who reads it, but there is always some. So neither the walk
through the directory nor the workers can be told from what is compiled, as long as no document
needs more room than that.
-/

namespace EndpointBindings.Compilation

open Relation (ReflTransGen)
open EndpointBindings.Text

/-- How far the work on a file has come. -/
inductive Progress where
  | waiting
  | taken
  | done (result : Except Defect Outcome)

/-- The work on each file, in the order of the files. -/
abbrev Pool := List ((String × List UInt8) × Progress)

def Progress.isTaken : Progress → Bool
  | taken => true
  | _ => false

namespace Pool

def start (files : List (String × List UInt8)) : Pool := files.map fun f => (f, .waiting)

/-- The number of files that are worked on. -/
def busy (pool : Pool) : Nat := pool.countP fun j => j.2.isTaken

/-- A free worker takes up a file that waits, or a file is finished in the room of its worker. -/
inductive Step (least : Room) (workers : Nat) : Pool → Pool → Prop
  | take {before after : Pool} {file : String × List UInt8}
      (hfree : busy (before ++ (file, .waiting) :: after) < workers) :
      Step least workers (before ++ (file, .waiting) :: after) (before ++ (file, .taken) :: after)
  | finish {before after : Pool} {file : String × List UInt8} {room : Room}
      (hroom : least ≤ room) :
      Step least workers (before ++ (file, .taken) :: after)
        (before ++ (file, .done (compileFile file.1 file.2 room)) :: after)

def IsFinished (pool : Pool) : Prop := ∀ j ∈ pool, ∃ result, j.2 = .done result

/-- What became of the files that are done, up to the first that ended in a defect. -/
def outcomes : Pool → Except Defect (List (String × Outcome))
  | [] => .ok []
  | (file, .done result) :: rest => do
    let outcome ← result
    return (file.1, outcome) :: (← outcomes rest)
  | _ :: rest => outcomes rest

/-- The work is on the given files, by no more than the workers, and what is done is done right. -/
structure IsUnderWay (least : Room) (workers : Nat) (files : List (String × List UInt8))
    (pool : Pool) : Prop where
  files_eq : pool.map (·.1) = files
  busy_le : pool.busy ≤ workers
  result_eq : ∀ file result, (file, Progress.done result) ∈ pool →
    ∃ room, least ≤ room ∧ result = compileFile file.1 file.2 room

section Run

variable {least : Room} {workers : Nat} {files : List (String × List UInt8)} {pool pool' : Pool}

theorem isUnderWay_start : (start files).IsUnderWay least workers files where
  files_eq := by simp [start, Function.comp_def]
  busy_le := by simp [start, busy, Progress.isTaken, List.countP_eq_zero.mpr]
  result_eq := by simp [start]

theorem IsUnderWay.step (h : pool.IsUnderWay least workers files)
    (hstep : Step least workers pool pool') : pool'.IsUnderWay least workers files := by
  cases hstep with
  | @take before after file hfree =>
      refine ⟨by simpa using h.files_eq, ?_, fun other result hmem => ?_⟩
      · simp only [busy, Progress.isTaken, List.countP_append, List.countP_cons] at hfree ⊢
        simp only [Bool.false_eq_true, if_false, if_true] at hfree ⊢
        omega
      · apply h.result_eq
        simpa using hmem
  | @finish before after file room hroom =>
      refine ⟨by simpa using h.files_eq, ?_, fun other result hmem => ?_⟩
      · have hbusy := h.busy_le
        simp only [busy, Progress.isTaken, List.countP_append, List.countP_cons] at hbusy ⊢
        simp only [Bool.false_eq_true, if_false, if_true] at hbusy ⊢
        omega
      · simp only [List.mem_append, List.mem_cons, Prod.mk.injEq, Progress.done.injEq] at hmem
        rcases hmem with hmem | ⟨rfl, rfl⟩ | hmem
        · exact h.result_eq other result (by simp [hmem])
        · exact ⟨room, hroom, rfl⟩
        · exact h.result_eq other result (by simp [hmem])

theorem IsUnderWay.steps (h : pool.IsUnderWay least workers files)
    (hsteps : ReflTransGen (Step least workers) pool pool') :
    pool'.IsUnderWay least workers files := by
  induction hsteps with
  | refl => exact h
  | tail _ hstep ih => exact ih.step hstep

/-- What a pool has done of its files is what they compile to one after the other. -/
theorem IsUnderWay.outcomes_eq (h : pool.IsUnderWay least workers files)
    (hfinished : pool.IsFinished) (hnests : ∀ f ∈ files, NestsWithin least f) :
    pool.outcomes = compileFiles files least := by
  obtain ⟨rfl, -, hresults⟩ := h
  induction pool with
  | nil => rfl
  | cons j rest ih =>
      obtain ⟨⟨path, octets⟩, progress⟩ := j
      obtain ⟨result, hresult⟩ := hfinished _ List.mem_cons_self
      obtain rfl : progress = .done result := hresult
      obtain ⟨room, hroom, hfirst⟩ := hresults (path, octets) result List.mem_cons_self
      rw [compileFile_of_le hroom (hnests (path, octets) List.mem_cons_self)] at hfirst
      have hrest := ih (fun j hj => hfinished j (List.mem_cons_of_mem _ hj))
        (fun file result hmem => hresults file result (List.mem_cons_of_mem _ hmem))
        fun f hf => hnests f (List.mem_cons_of_mem _ hf)
      rw [outcomes, hrest, hfirst]
      rfl

/-- What is left to do: two steps for a file that waits, one for a file that is taken. -/
def left (pool : Pool) : Nat :=
  (pool.map fun j => match j.2 with
    | .waiting => 2
    | .taken => 1
    | .done _ => 0).sum

theorem left_lt (hstep : Step least workers pool pool') : pool'.left < pool.left := by
  cases hstep <;> simp [left]

/-- Some worker can go on as long as anything is left to do. -/
theorem exists_step (least : Room) (hworkers : 0 < workers) (hpool : ¬pool.IsFinished) :
    ∃ pool', Step least workers pool pool' := by
  by_cases htaken : ∃ file, (file, Progress.taken) ∈ pool
  · obtain ⟨file, hmem⟩ := htaken
    obtain ⟨before, after, rfl⟩ := List.append_of_mem hmem
    exact ⟨_, .finish ⟨le_rfl, le_rfl⟩⟩
  · have hbusy : pool.busy = 0 := by
      apply List.countP_eq_zero.mpr
      rintro ⟨file, progress⟩ hmem
      cases progress with
      | taken => exact absurd ⟨file, hmem⟩ htaken
      | _ => simp [Progress.isTaken]
    have hwaiting : ∃ file, (file, Progress.waiting) ∈ pool := by
      by_contra hnone
      apply hpool
      rintro ⟨file, progress⟩ hmem
      cases progress with
      | waiting => exact absurd ⟨file, hmem⟩ hnone
      | taken => exact absurd ⟨file, hmem⟩ htaken
      | done result => exact ⟨result, rfl⟩
    obtain ⟨file, hmem⟩ := hwaiting
    obtain ⟨before, after, rfl⟩ := List.append_of_mem hmem
    exact ⟨_, .take (by omega)⟩

/-- Work comes to an end. -/
theorem exists_finished (least : Room) (hworkers : 0 < workers) (pool : Pool) :
    ∃ pool', ReflTransGen (Step least workers) pool pool' ∧ pool'.IsFinished := by
  generalize hleft : pool.left = k
  induction k using Nat.strongRecOn generalizing pool with
  | ind k ih =>
      by_cases hpool : pool.IsFinished
      · exact ⟨pool, .refl, hpool⟩
      · obtain ⟨next, hstep⟩ := exists_step least hworkers hpool
        obtain ⟨last, hsteps, hlast⟩ := ih next.left (hleft ▸ left_lt hstep) next rfl
        exact ⟨last, hsteps.head hstep, hlast⟩

end Run

end Pool

/-- What a number of workers make of files, with the least room or more to read them in: one worker,
or one file, needs no pool. -/
inductive Compiles (least : Room) (workers : Nat) (files : List (String × List UInt8)) :
    Except Defect (List (String × Outcome)) → Prop
  | inTurn {room : Room} (hroom : least ≤ room) (hfew : ¬(1 < workers ∧ 1 < files.length)) :
      Compiles least workers files (compileFiles files room)
  | pooled {pool : Pool} (hmany : 1 < workers ∧ 1 < files.length)
      (hsteps : ReflTransGen (Pool.Step least workers) (Pool.start files) pool)
      (hfinished : pool.IsFinished) : Compiles least workers files pool.outcomes

theorem Compiles.eq {least : Room} {workers : Nat} {files : List (String × List UInt8)}
    {result : Except Defect (List (String × Outcome))} (h : Compiles least workers files result)
    (hnests : ∀ f ∈ files, NestsWithin least f) : result = compileFiles files least := by
  cases h with
  | inTurn hroom _ => exact compileFiles_of_le hroom hnests
  | pooled _ hsteps hfinished =>
      exact (Pool.isUnderWay_start.steps hsteps).outcomes_eq hfinished hnests

theorem exists_compiles (least : Room) (workers : Nat) (files : List (String × List UInt8)) :
    ∃ result, Compiles least workers files result := by
  by_cases hmany : 1 < workers ∧ 1 < files.length
  · obtain ⟨pool, hsteps, hfinished⟩ :=
      Pool.exists_finished least (by omega : 0 < workers) (Pool.start files)
    exact ⟨_, .pooled hmany hsteps hfinished⟩
  · exact ⟨_, .inTurn ⟨le_rfl, le_rfl⟩ hmany⟩

open Discovery (Walk)

/-- How a run goes: the order in which each directory is listed, the order in which the files are
compiled, and the room for each. -/
structure Schedule (least : Room) (fs : FileSystem) (workers : Nat) where
  walk : (String → Bool) → Location → List (Location × List UInt8)
  walk_steps : ∀ wanted root, ReflTransGen (Walk.Step wanted fs root) Walk.start
    ⟨[], walk wanted root⟩
  compile : List (String × List UInt8) → Except Defect (List (String × Outcome))
  compiles : ∀ files, Compiles least workers files (compile files)

namespace Schedule

variable {least : Room} {fs : FileSystem} {workers : Nat}

theorem nonempty (least : Room) (fs : FileSystem) (workers : Nat) :
    Nonempty (Schedule least fs workers) := by
  have hwalks : ∀ (wanted : String → Bool) (root : Location), ∃ found,
      ReflTransGen (Walk.Step wanted fs root) Walk.start ⟨[], found⟩ :=
    fun _ _ => Walk.exists_finished Walk.start
  choose walk hwalk using hwalks
  choose compile hcompile using exists_compiles least workers
  exact ⟨⟨walk, hwalk, compile, hcompile⟩⟩

/-- The documents that a walk finds, in the order of their paths. -/
def documents (s : Schedule least fs workers) (cwd : Location) (directory : FilePath)
    (included excluded : List String) : Except Defect (List (String × List UInt8)) := do
  let inside ← Discovery.readPatterns included
  let outside ← Discovery.readPatterns excluded
  match fs.locate cwd directory with
  | .ok l =>
    return if fs.isDirectoryAt l then
      Walk.sorted ⟨[], s.walk (Discovery.wantedBy inside outside) l⟩ else []
  | .error .nulInName => .error .nulInName
  | .error _ => return []

end Schedule

section Result

variable {least : Room} {w : World} {directory : String} {config : CompilerConfig} {workers : Nat}

theorem Schedule.documents_eq {fs : FileSystem} (hfs : fs.WellFormed) (s : Schedule least fs workers)
    {cwd : Location} {directory : FilePath} {included excluded : List String} :
    s.documents cwd directory included excluded =
      NameMap.entries <$> Discovery.documents fs cwd directory included excluded := by
  rw [documents, Discovery.documents]
  cases Discovery.readPatterns included with
  | error d => rfl
  | ok inside =>
      cases Discovery.readPatterns excluded with
      | error d => rfl
      | ok outside =>
          simp only [bind, Except.bind]
          cases fs.locate cwd directory with
          | error d => cases d <;> rfl
          | ok l =>
              simp only [pure, Except.pure, Functor.map, Except.map, Except.ok.injEq]
              split
              · rename_i hdirectory
                exact Walk.sorted_eq hfs (FileSystem.isDirectoryAt_iff.mp hdirectory)
                  (s.walk_steps _ _)
              · rfl

end Result

end EndpointBindings.Compilation
