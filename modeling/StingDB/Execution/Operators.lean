import StingDB.Execution.PinNeutral

/-!
# Plans of operators

`execution/executor.h` and `DummyValues` of `network/connection.h`: an operator gives batches to
the one above it, and a plan is a tree of operators.  What an insert does with a batch of its child
is in `Execution/Executors.lean`, and so is the scan.

Of a batch only the number of rows is ever looked at, by an insert.  `DummyValues` is the only
operator that writes it: a scan leaves the batch as it was, and a filter keeps that of its child to
itself.  So an insert stores rows only if its child is a `DummyValues`, and one row at most
(`calls_spec`).  Tables whose rows are copied past their page, as those of 65532 to 65535 bytes are,
are left out: such a call ends the program here (`InsertExecutor.Overruns`).
-/

set_option autoImplicit false

namespace StingDB

open Machine

/-- `TupleBatch`, without the columns, which no operator adds any of. -/
structure TupleBatch where
  /-- `num_rows_` -/
  numRows : ℕ := 0

/-- `SetNumRows` -/
def TupleBatch.setNumRows (batch : TupleBatch) (rows : ℕ) : TupleBatch :=
  { batch with numRows := rows }

/-- `ExecutionOperator`, by the classes that implement it. -/
inductive ExecutionOperator where
  /-- `DummyValues`, with `done_`. -/
  | dummyValues (done : Bool)
  /-- `SeqScanExecutor` -/
  | seqScan (e : SeqScanExecutor)
  /-- `FilterExecutor`, with `child_`. -/
  | filter (child : ExecutionOperator)
  /-- `InsertExecutor`, with `child_`. -/
  | insert (e : InsertExecutor) (child : ExecutionOperator)

namespace ExecutionOperator

/-- `Next(batch_out)`: whether there is a batch, the batch, the operator and the instance.  `none`
if a null pointer is dereferenced, or a row is copied past its page: of the pins and the frames
behind it nothing is known then. -/
def next : ExecutionOperator → TupleBatch → StingInstance →
    Option (Bool × TupleBatch × ExecutionOperator × StingInstance)
  | .dummyValues done, out, s =>
    if done then some (false, out, .dummyValues done, s)
    else some (true, out.setNumRows 1, .dummyValues true, s)
  | .seqScan e, out, s =>
    let (more, e, bpm) := e.next s.bpm
    some (more, out, .seqScan e, { s with bpm })
  | .filter child, out, s => do
    -- the loop over the batches of the child returns in its first round
    let (more, _, child, s) ← child.next {} s
    some (more, out, .filter child, s)
  | .insert e child, out, s =>
    if e.tableInfo = none then some (false, out, .insert e child, s)
    else do
      let (more, inputBatch, child, s) ← child.next {} s
      if more then
        let batch : InsertExecutor := { e with child := [inputBatch.numRows] }
        if batch.Overruns s then none
        else do
          let (_, s) ← batch.next s
          some (false, out, .insert e child, s)
      else some (false, out, .insert e child, s)

/-- What a plan can say `true` to, at most: a page has less than `2 ^ 16` tuples. -/
def batches : ExecutionOperator → ℕ
  | .dummyValues done => if done then 0 else 1
  | .seqScan e => 2 ^ 16 - 1 - e.currentSlot.toNat
  | .filter child => child.batches
  | .insert _ _ => 0

/-- The rows that an operator has yet to give. -/
def pending : ExecutionOperator → ℕ
  | .dummyValues done => if done then 0 else 1
  | .seqScan _ | .filter _ | .insert _ _ => 0

/-- The rows that a plan has yet to insert. -/
def rows : ExecutionOperator → ℕ
  | .dummyValues _ | .seqScan _ => 0
  | .filter child => child.rows
  | .insert _ child => child.rows + child.pending

end ExecutionOperator

/-! ## What an insert logs -/

namespace StingInstance

/-- From `s` to `s'` the log has got `n` more records at most, and if `n` is zero then nothing has
happened to the log and the transactions. -/
structure Logs (s s' : StingInstance) (n : ℕ) : Prop where
  appended : ∃ entries, s'.getLogManager.appended = s.getLogManager.appended ++ entries ∧
    entries.length ≤ n
  quiet : n = 0 → s'.txnManager = s.txnManager

variable {s s₁ s' : StingInstance} {n n' : ℕ}

theorem Logs.of_eq (h : s'.txnManager = s.txnManager) (n : ℕ) : Logs s s' n :=
  ⟨⟨[], by rw [getLogManager, h, List.append_nil, getLogManager], Nat.zero_le n⟩, fun _ ↦ h⟩

theorem Logs.trans (h : Logs s s₁ n) (h' : Logs s₁ s' n') : Logs s s' (n + n') where
  appended := by
    obtain ⟨entries, heq, hle⟩ := h.appended
    obtain ⟨entries', heq', hle'⟩ := h'.appended
    refine ⟨entries ++ entries', by rw [heq', heq, List.append_assoc], ?_⟩
    rw [List.length_append]
    exact Nat.add_le_add hle hle'
  quiet hn := by
    obtain ⟨hn, hn'⟩ := Nat.add_eq_zero_iff.mp hn
    exact (h'.quiet hn').trans (h.quiet hn)

end StingInstance

namespace InsertExecutor

open StingInstance SlottedPage

variable {e e' : InsertExecutor} {s s' : StingInstance} {rows : ℕ}

theorem logRow_logs (txn : Option TxnId) (s : StingInstance) (f : ℕ) (rid : RID)
    (tuple : List UInt8) : Logs s (logRow txn s f rid tuple) 1 := by
  rw [logRow]
  split
  · exact .of_eq rfl 1
  · exact ⟨⟨_, LogManager.appendLogRecord_appended _ _, le_rfl⟩, fun h ↦ absurd h one_ne_zero⟩

theorem insertRows_logs (txn : Option TxnId) (f : ℕ) (tuple : List UInt8) (rows : ℕ)
    (s : StingInstance) : Logs s (insertRows txn f tuple rows s) rows := by
  induction rows generalizing s with
  | zero => exact .of_eq rfl 0
  | succ rows ih =>
    by_cases ha : Admits (s.bpm.pool.pages f) tuple
    · rw [insertRows_of_admits rows ha, Nat.add_comm]
      let s₁ := s.setPage f ((inserted (s.bpm.pool.pages f) tuple).setDirty true)
      have hpage : Logs s s₁ 0 := .of_eq (by rfl) 0
      have hrow := logRow_logs txn s₁ f (nextRid (s.bpm.pool.pages f)) tuple
      have hlogs := (hpage.trans hrow).trans (ih _)
      rwa [Nat.zero_add] at hlogs
    · rw [insertRows_of_not_admits rows ha]
      exact .of_eq rfl _

/-- A batch of `rows` rows is `rows` records at most. -/
theorem next_logs (hc : e.child = [rows]) (h : e.next s = some (e', s')) : Logs s s' rows := by
  obtain ⟨-, -, rfl⟩ | ⟨table, n, child, info, rawPage, p, s₁, s₂, -, hc', hinfo, htarget, hbatch,
    -, rfl⟩ := next_eq_some h
  · exact .of_eq rfl _
  · cases hc.symm.trans hc'
    have hlast : ∀ t : StingInstance, Logs t { t with bpm := (t.bpm.unpinPage p true).2 } 0 :=
      fun t ↦ .of_eq (by rfl) 0
    have htxn : s₁.txnManager = s.txnManager := by
      rw [targetPage] at htarget
      split at htarget
      · split at htarget
        · cases htarget
        · cases htarget
          rfl
      · cases htarget
        rfl
    have hfirst : Logs s s₁ 0 := .of_eq htxn 0
    cases rawPage with
    | none =>
      rw [insertBatch] at hbatch
      split at hbatch
      · cases hbatch
        exact .of_eq (by exact htxn) _
      · cases hbatch
    | some f =>
      cases hbatch
      let tuple := List.replicate info.schema.getTupleFixedLength (0 : UInt8)
      have hlogs := (hfirst.trans (insertRows_logs e.txn f tuple rows s₁)).trans (hlast _)
      rwa [Nat.zero_add] at hlogs

end InsertExecutor

/-! ## One call -/

namespace ExecutionOperator

open StingInstance

variable {op op' : ExecutionOperator} {s s' : StingInstance} {out out' : TupleBatch} {more : Bool}

/-- **Only a `DummyValues` writes the batch it is given**, and only once. -/
theorem next_pending (h : op.next out s = some (more, out', op', s')) :
    out'.numRows + op'.pending ≤ out.numRows + op.pending := by
  cases op with
  | dummyValues done =>
    rw [next] at h
    split at h <;> cases h
    · exact le_rfl
    · rename_i hdone
      simp [TupleBatch.setNumRows, pending, hdone]
  | seqScan e =>
    cases h
    exact le_rfl
  | filter child =>
    simp only [next, Option.bind_eq_bind, Option.bind_eq_some_iff] at h
    obtain ⟨⟨more₁, input, child₁, s₁⟩, -, h⟩ := h
    cases h
    exact le_rfl
  | insert e child =>
    rw [next] at h
    split at h
    · cases h
      exact le_rfl
    · simp only [Option.bind_eq_bind, Option.bind_eq_some_iff] at h
      obtain ⟨⟨more₁, input, child₁, s₁⟩, -, h⟩ := h
      split at h
      · split at h
        · cases h
        · obtain ⟨⟨_, s₂⟩, -, h⟩ := Option.bind_eq_some_iff.mp h
          cases h
          exact le_rfl
      · cases h
        exact le_rfl

/-- What a call of `Next` may have done: it has said `true` at the cost of a batch, and logged
rows at the cost of these, and it holds on to no page. -/
structure Spends (op : ExecutionOperator) (s : StingInstance) (more : Bool)
    (op' : ExecutionOperator) (s' : StingInstance) : Prop where
  batches : op'.batches + more.toNat ≤ op.batches
  logs : ∃ n, op'.rows + n ≤ op.rows ∧ Logs s s' n
  pins : s.bpm.Settled → s'.bpm.Settled ∧ s.bpm.Released s'.bpm

/-- A scan goes through less than `2 ^ 16` slots. -/
theorem seqScan_batches {e : SeqScanExecutor} (s : Store) :
    (seqScan (e.next s).2.1).batches + (e.next s).1.toNat ≤ (seqScan e).batches := by
  rw [SeqScanExecutor.next]
  split
  · exact le_rfl
  · split
    · exact le_rfl
    · rename_i f s₁ _
      dsimp only
      split
      · exact le_rfl
      · rename_i hlt
        have hcount : SlottedPage.getTupleCount (s₁.pool.pages f) < 2 ^ 16 :=
          Block.field_lt (s₁.pool.pages f).data SlottedPage.tupleCountOffset 2
        simp only [batches, Bool.toNat_true, UInt32.toNat_add, UInt32.toNat_one]
        omega

theorem next_spends (h : op.next out s = some (more, out', op', s')) : Spends op s more op' s' := by
  induction op generalizing out out' op' s' more with
  | dummyValues done =>
    rw [next] at h
    split at h <;> cases h
    · exact ⟨le_rfl, ⟨0, le_rfl, .of_eq rfl 0⟩, fun hs ↦ ⟨hs, .refl _⟩⟩
    · rename_i hdone
      refine ⟨?_, ⟨0, le_rfl, .of_eq rfl 0⟩, fun hs ↦ ⟨hs, .refl _⟩⟩
      simp [batches, hdone]
  | seqScan e =>
    cases h
    refine ⟨seqScan_batches s.bpm, ⟨0, le_rfl, .of_eq (by rfl) 0⟩, fun hs ↦ ?_⟩
    obtain ⟨hsettled, -, hreleased⟩ := SeqScanExecutor.next_pins hs e
    exact ⟨hsettled, hreleased⟩
  | filter child ih =>
    simp only [next, Option.bind_eq_bind, Option.bind_eq_some_iff] at h
    obtain ⟨⟨more₁, input, child₁, s₁⟩, hchild, h⟩ := h
    cases h
    have hspends := ih hchild
    exact ⟨hspends.batches, hspends.logs, hspends.pins⟩
  | insert e child ih =>
    rw [next] at h
    split at h
    · cases h
      exact ⟨le_rfl, ⟨0, le_rfl, .of_eq rfl 0⟩, fun hs ↦ ⟨hs, .refl _⟩⟩
    · simp only [Option.bind_eq_bind, Option.bind_eq_some_iff] at h
      obtain ⟨⟨more₁, input, child₁, s₁⟩, hchild, h⟩ := h
      obtain ⟨-, ⟨n, hn, hlogs⟩, hpins⟩ := ih hchild
      have hpending := next_pending hchild
      change input.numRows + child₁.pending ≤ 0 + child.pending at hpending
      split at h
      · split at h
        · cases h
        · obtain ⟨⟨e₂, s₂⟩, hinsert, h⟩ := Option.bind_eq_some_iff.mp h
          cases h
          refine ⟨le_rfl, ⟨n + input.numRows, ?_, ?_⟩, fun hs ↦ ?_⟩
          · change child₁.rows + child₁.pending + (n + input.numRows) ≤ child.rows + child.pending
            omega
          · exact hlogs.trans (InsertExecutor.next_logs rfl hinsert)
          · obtain ⟨hsettled, hreleased⟩ := hpins hs
            obtain ⟨hsettled', -, hreleased'⟩ := InsertExecutor.next_pins hsettled hinsert
            exact ⟨hsettled', hreleased.trans hreleased'⟩
      · cases h
        refine ⟨le_rfl, ⟨n, ?_, hlogs⟩, hpins⟩
        change child₁.rows + child₁.pending + n ≤ child.rows + child.pending
        omega

/-! ## Any number of calls -/

/-- A call of `Next`, with the instance it found and the one it left. -/
structure Answer where
  /-- What it returned. -/
  more : Bool
  before : StingInstance
  after : StingInstance

/-- One call, on the instance that it finds. -/
def call (op : ExecutionOperator) (c : TupleBatch × StingInstance) :
    Option (Answer × ExecutionOperator) :=
  (op.next c.1 c.2).map fun (more, _, op, s) ↦ (⟨more, c.2, s⟩, op)

/-- The records that a call has appended to the log. -/
def Answer.appended (a : Answer) : List LogEntry :=
  a.after.getLogManager.appended.drop a.before.getLogManager.appended.length

theorem call_spends {c : TupleBatch × StingInstance} {a : Answer} (h : op.call c = some (a, op')) :
    Spends op a.before a.more op' a.after := by
  obtain ⟨⟨more, out, op₁, s⟩, hnext, heq⟩ := Option.map_eq_some_iff.mp h
  cases heq
  exact next_spends hnext

theorem Spends.appended {a : Answer} (h : Spends op a.before a.more op' a.after) :
    a.before.getLogManager.appended ++ a.appended = a.after.getLogManager.appended ∧
      op'.rows + a.appended.length ≤ op.rows := by
  obtain ⟨n, hn, hlogs⟩ := h.logs
  obtain ⟨entries, heq, hle⟩ := hlogs.appended
  have happ : a.appended = entries := by rw [Answer.appended, heq, List.drop_left]
  rw [happ, heq]
  exact ⟨rfl, by omega⟩

theorem run_call_le {cs : List (TupleBatch × StingInstance)} {as : List Answer}
    (hr : run call op cs = some (as, op')) :
    as.countP Answer.more + op'.batches ≤ op.batches ∧
      (as.map fun a ↦ a.appended.length).sum + op'.rows ≤ op.rows := by
  induction cs generalizing op as with
  | nil =>
    cases hr
    simp
  | cons c cs ih =>
    obtain ⟨a, op₁, as', hs, hr', rfl⟩ := run_cons.mp hr
    obtain ⟨hbatches, hrows⟩ := ih hr'
    have hspends := call_spends hs
    have hfirst := hspends.batches
    have hlogged := hspends.appended.2
    have hmore : a.more.toNat = if a.more = true then 1 else 0 := by cases a.more <;> rfl
    rw [List.countP_cons, List.map_cons, List.sum_cons]
    omega

/-- No plan has more batches than a page can have tuples. -/
theorem batches_lt (op : ExecutionOperator) : op.batches < 2 ^ 16 := by
  induction op with
  | dummyValues done => cases done <;> decide
  | seqScan e => exact Nat.lt_of_le_of_lt (Nat.sub_le ..) (by decide)
  | filter child ih => exact ih
  | insert e child _ => exact Nat.two_pow_pos 16

/-- **What a plan does, whatever its operators**, in any sequence of calls of `Next` and whatever
else becomes of the instance between them.  It says `true` less than `2 ^ 16` times, so the loop
over its batches ends.  It appends to the log, and no more than a record for each of its inserts
whose child is a `DummyValues` that has not been read; an insert over anything else, a filter of a
`DummyValues` included, stores no row, and a plan without such an insert leaves the transactions
and the log alone.  And each call releases the pages that it has pinned.  (A call that copies a row
past its page is none: `next`.) -/
theorem calls_spec {cs : List (TupleBatch × StingInstance)} {as : List Answer}
    (hr : run call op cs = some (as, op')) :
    as.countP Answer.more < 2 ^ 16 ∧
      (as.map fun a ↦ a.appended.length).sum ≤ op.rows ∧
      ∀ a ∈ as, a.before.getLogManager.appended ++ a.appended = a.after.getLogManager.appended ∧
        (op.rows = 0 → a.after.txnManager = a.before.txnManager) ∧
        (a.before.bpm.Settled → a.after.bpm.Settled ∧ a.before.bpm.Released a.after.bpm) := by
  obtain ⟨hbatches, hrows⟩ := run_call_le hr
  have hlt := batches_lt op
  refine ⟨by omega, by omega, ?_⟩
  clear hbatches hrows hlt
  induction cs generalizing op as with
  | nil =>
    cases hr
    exact fun a ha ↦ absurd ha List.not_mem_nil
  | cons c cs ih =>
    obtain ⟨a, op₁, as', hs, hr', rfl⟩ := run_cons.mp hr
    have hspends := call_spends hs
    obtain ⟨n, hn, hlogs⟩ := hspends.logs
    refine List.forall_mem_cons.mpr ⟨⟨hspends.appended.1, fun h0 ↦ ?_, hspends.pins⟩,
      fun a' ha' ↦ ?_⟩
    · exact hlogs.quiet (by omega)
    · obtain ⟨happ, hquiet, hpins⟩ := ih hr' a' ha'
      exact ⟨happ, fun h0 ↦ hquiet (by omega), hpins⟩

/-- A transaction has begun, and its table has no page yet. -/
def begun : StingInstance :=
  { InsertExecutor.oneTable (.opened 2 fun _ ↦ none) invalidPageId with
    txnManager := (TransactionManager.begin {} .readCommitted).2 }

/-- A row for the table, which is logged; and the same row through a filter, which says `true` for
it and then no more. -/
theorem calls_spec_one :
    (∃ as op', run call (.insert { InsertExecutor.oneInsert with txn := some 1, child := [] }
          (.dummyValues false)) [({}, begun)] = some (as, op') ∧
        (as.map fun a ↦ a.appended.length).sum = 1 ∧
        ∀ a ∈ as, a.before.getLogManager.appended ++ a.appended = a.after.getLogManager.appended ∧
          a.before.bpm.Released a.after.bpm) ∧
      ∃ as op', run call (.filter (.dummyValues false)) [({}, begun), ({}, begun)] =
          some (as, op') ∧
        as.countP Answer.more = 1 ∧ as.countP Answer.more < 2 ^ 16 ∧
        ∀ a ∈ as, a.after.txnManager = a.before.txnManager := by
  constructor
  · have hrun : ∃ a op', run call (.insert { InsertExecutor.oneInsert with
        txn := some 1, child := [] } (.dummyValues false)) [({}, begun)] = some ([a], op') ∧
        a.before = begun ∧ a.appended.length = 1 := ⟨_, _, rfl, rfl, rfl⟩
    obtain ⟨a, op', hr, hbefore, hlen⟩ := hrun
    obtain ⟨-, -, hcalls⟩ := calls_spec hr
    refine ⟨[a], op', hr, by simp [hlen], fun b hb ↦ ?_⟩
    obtain ⟨happ, -, hpins⟩ := hcalls b hb
    have hsettled : b.before.bpm.Settled := by
      rw [List.mem_singleton.mp hb, hbefore]
      exact Store.settled_opened 2 _
    exact ⟨happ, (hpins hsettled).2⟩
  · have hrun : ∃ as op', run call (.filter (.dummyValues false)) [({}, begun), ({}, begun)] =
        some (as, op') ∧ as.countP Answer.more = 1 := ⟨_, _, rfl, rfl⟩
    obtain ⟨as, op', hr, hmore⟩ := hrun
    obtain ⟨hlt, -, hcalls⟩ := calls_spec hr
    exact ⟨as, op', hr, hmore, hlt, fun a ha ↦ (hcalls a ha).2.1 rfl⟩

end ExecutionOperator

end StingDB
