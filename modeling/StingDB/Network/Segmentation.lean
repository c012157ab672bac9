import StingDB.Network.Connection

/-!
# Commands and reads

A client sends lines, and TCP delivers their bytes cut into reads in whatever way.  A connection
takes each read for one query, and recognises it by how it begins: it neither waits for the end of a
line nor looks for a second one.  So what it executes is decided by how the reads begin
(`executed`, `run_doRead`), and the same lines, cut in another way, can be other commands.

The cuts that do not matter are those of `Framed`: no read has bytes of two lines, and among the
reads of a line the first is recognised as the line is, and no other as a command.
-/

set_option autoImplicit false

namespace StingDB

open Machine

/-- The byte that ends a command. -/
def newline : UInt8 := 10

/-- The text of a command, without the newline at its end. -/
abbrev CommandLine := { text : List UInt8 // newline ∉ text }

/-- The bytes that are sent for a command. -/
def CommandLine.sent (c : CommandLine) : List UInt8 := c.1 ++ [newline]

/-- The bytes of a client that sends these commands. -/
def stream (commands : List CommandLine) : List UInt8 := commands.flatMap CommandLine.sent

/-- `MAX_LENGTH` -/
def maxLength : ℕ := 8192

/-- What TCP may make of the bytes: reads that are not empty and no longer than the buffer. -/
structure Segmentation (sent : List UInt8) (reads : List (List UInt8)) : Prop where
  flatten : reads.flatten = sent
  ne_nil : ∀ read ∈ reads, read ≠ []
  length_le : ∀ read ∈ reads, read.length ≤ maxLength

/-- The reads of commands, each with reads of its own: the first begins like the command, and the
others like none. -/
inductive ReadsOf : List CommandLine → List (List UInt8) → Prop
  | nil : ReadsOf [] []
  | cons {c : CommandLine} {commands : List CommandLine} {read : List UInt8}
      {rest reads : List (List UInt8)} : read ++ rest.flatten = c.sent →
      Command.ofQuery read = .ofQuery c.sent → (∀ r ∈ rest, Command.ofQuery r = .unsupported) →
      ReadsOf commands reads → ReadsOf (c :: commands) (read :: rest ++ reads)

/-- A way of cutting the bytes of these commands in which each has reads of its own. -/
structure Framed (commands : List CommandLine) (reads : List (List UInt8)) : Prop extends
    Segmentation (stream commands) reads where
  readsOf : ReadsOf commands reads

/-! ## What is executed -/

/-- The commands that queries make the server execute, in order. -/
def executed (queries : List (List UInt8)) : List Command :=
  (queries.map Command.ofQuery).filter (· ≠ .unsupported)

/-- The branches of `DoRead`. -/
def execute (s : StingInstance) : Command → Option (Response × StingInstance)
  | .createTable => some (Connection.createTable s)
  | .insert => Connection.insert s
  | .select => Connection.select s
  | .begin => some (Connection.begin s)
  | .unsupported => some (.unsupported, s)

/-- The answers to commands that are supported, and the instance in the end. -/
def answered (r : List Response × StingInstance) : List Response × StingInstance :=
  (r.1.filter (· ≠ .unsupported), r.2)

theorem doRead_eq (s : StingInstance) (query : List UInt8) :
    Connection.doRead s query = execute s (.ofQuery query) := by
  rw [Connection.doRead]
  cases Command.ofQuery query <;> rfl

/-- Nothing else is answered as an unsupported query is. -/
theorem execute_ne_unsupported {s s' : StingInstance} {c : Command} {o : Response}
    (hc : c ≠ .unsupported) (hs : execute s c = some (o, s')) : o ≠ .unsupported := by
  cases c with
  | createTable =>
    rw [execute, Connection.createTable] at hs
    split at hs <;> cases hs <;> simp
  | insert =>
    simp only [execute, Connection.insert, Option.bind_eq_bind] at hs
    split at hs
    · cases hs
      simp
    · simp only [Option.bind_eq_some_iff] at hs
      obtain ⟨_, _, _, _, heq⟩ := hs
      cases heq
      simp
  | select =>
    simp only [execute, Connection.select, Option.bind_eq_bind] at hs
    split at hs
    · cases hs
      simp
    · simp only [Option.bind_eq_some_iff] at hs
      obtain ⟨_, _, _, _, heq⟩ := hs
      cases heq
      simp
  | begin =>
    cases hs
    simp
  | unsupported => exact absurd rfl hc

/-- **A run is decided by how the queries begin.** -/
theorem run_doRead (s : StingInstance) (queries : List (List UInt8)) :
    (run Connection.doRead s queries).map answered = run execute s (executed queries) := by
  induction queries generalizing s with
  | nil => rfl
  | cons query queries ih =>
    by_cases hc : Command.ofQuery query = .unsupported
    · have hread : Connection.doRead s query = some (.unsupported, s) := by
        rw [doRead_eq, hc]
        rfl
      have hexec : executed (query :: queries) = executed queries := by
        simp [executed, hc]
      rw [hexec, ← ih s, run]
      simp only [hread]
      cases run Connection.doRead s queries with
      | none => rfl
      | some r => simp [answered]
    · have hexec : executed (query :: queries) = .ofQuery query :: executed queries := by
        simp [executed, hc]
      rw [hexec, run, run, doRead_eq]
      cases hs : execute s (.ofQuery query) with
      | none => rfl
      | some r =>
        obtain ⟨o, s₁⟩ := r
        have ho := execute_ne_unsupported hc hs
        simp only [← ih s₁]
        cases run Connection.doRead s₁ queries with
        | none => rfl
        | some r' => simp [answered, ho]

theorem executed_append (queries queries' : List (List UInt8)) :
    executed (queries ++ queries') = executed queries ++ executed queries' := by
  simp [executed]

/-- What begins like no command does nothing. -/
theorem executed_of_unsupported {queries : List (List UInt8)}
    (h : ∀ query ∈ queries, Command.ofQuery query = .unsupported) : executed queries = [] := by
  simpa [executed, List.filter_eq_nil_iff] using h

/-- Of a command with reads of its own, the first is the command. -/
theorem ReadsOf.executed_eq {commands : List CommandLine} {reads : List (List UInt8)}
    (h : ReadsOf commands reads) : executed reads = executed (commands.map CommandLine.sent) := by
  induction h with
  | nil => rfl
  | @cons c commands read rest reads _ hread hrest _ ih =>
    have hfirst : executed [read] = executed [c.sent] := by simp [executed, hread]
    calc executed (read :: rest ++ reads)
        = executed [read] ++ executed rest ++ executed reads := by
          rw [← executed_append, ← executed_append, List.singleton_append]
      _ = executed [c.sent] ++ executed (commands.map CommandLine.sent) := by
          rw [executed_of_unsupported hrest, List.append_nil, hfirst, ih]
      _ = executed ((c :: commands).map CommandLine.sent) := by
          rw [← executed_append, List.singleton_append, List.map_cons]

/-- **Cuts that do not matter.**  For every stream of commands, and every two ways of cutting its
bytes into reads where each command has reads of its own, the first of them recognised as the
command is and none of the others as a command: from every state, the server executes the same
commands in the same order, each of them once, gives them the same answers and ends in the same
state. -/
theorem run_eq_of_framed {commands : List CommandLine} {reads reads' : List (List UInt8)}
    (hreads : Framed commands reads) (hreads' : Framed commands reads') (s : StingInstance) :
    executed reads = executed (commands.map CommandLine.sent) ∧
      executed reads' = executed (commands.map CommandLine.sent) ∧
      (run Connection.doRead s reads).map answered =
        (run Connection.doRead s reads').map answered := by
  have heq := hreads.readsOf.executed_eq
  have heq' := hreads'.readsOf.executed_eq
  refine ⟨heq, heq', ?_⟩
  rw [run_doRead, run_doRead, heq, heq']

/-- The newline of an INSERT comes in the same read, or in one of its own. -/
theorem run_eq_of_framed_insert :
    (run Connection.doRead (.start 4096 fun _ ↦ none) [bytes "INSERT\n"]).map answered =
      (run Connection.doRead (.start 4096 fun _ ↦ none) [bytes "INSERT", bytes "\n"]).map
        answered := by
  have hwhole : Framed [⟨bytes "INSERT", by decide⟩] ([bytes "INSERT\n"] ++ []) :=
    ⟨⟨by decide, by decide, by decide⟩, .cons (by decide) (by decide) (by decide) .nil⟩
  have hcut : Framed [⟨bytes "INSERT", by decide⟩] ([bytes "INSERT", bytes "\n"] ++ []) :=
    ⟨⟨by decide, by decide, by decide⟩, .cons (by decide) (by decide) (by decide) .nil⟩
  exact (run_eq_of_framed hwhole hcut _).2.2

/-- A cut within `CREATE TABLE`: there is no table. -/
theorem segmentation_matters :
    Segmentation (stream [⟨bytes "CREATE TABLE", by decide⟩]) [bytes "CREATE TABLE\n"] ∧
      Segmentation (stream [⟨bytes "CREATE TABLE", by decide⟩])
        [bytes "CREATE", bytes " TABLE\n"] ∧
      ∃ os s os' s',
        run Connection.doRead (.start 4096 fun _ ↦ none) [bytes "CREATE TABLE\n"] = some (os, s) ∧
        run Connection.doRead (.start 4096 fun _ ↦ none) [bytes "CREATE", bytes " TABLE\n"] =
          some (os', s') ∧
        s.catalogManager.getTable "users" = some 0 ∧ s'.catalogManager.getTable "users" = none := by
  refine ⟨⟨by decide, by decide, by decide⟩, ⟨by decide, by decide, by decide⟩, ?_⟩
  exact ⟨_, _, _, _, rfl, rfl, rfl, rfl⟩

end StingDB
