import StingDB.Transaction.ThreadOutcomes

/-!
# Commits that are in the log for good

`Commit` writes its record, flushes the log and sets the state of the transaction, in this order,
and between any two of these other threads append and flush.  What the log does meanwhile is what
`GroupCommit.lean` says of it (`step_log`).  So a `Flush` that has lost its own records to another
`Flush` is no worse for it, and the state of a transaction is `COMMITTED` only when its COMMIT, and
all that was logged before that, has been handed to I/O: `committed_handed`, for as long as no swap
comes while records wait to be written.
-/

set_option autoImplicit false

namespace StingDB

open Machine

/-- Where the COMMIT of the transaction is to be, for a thread that is here. -/
def TxnPc.secured (m : LogManager) : TxnPc → Option (TxnId × List LogEntry)
  | commitLogged txn => some (txn, m.appended)
  | flushing txn _ => some (txn, m.departed)
  | flushed txn => some (txn, m.handed)
  | _ => none

namespace TxnThreads

variable {s s' : TxnThreads} {thread : ℕ} {e : Event} {o : Option TxnId}

/-- What a step does to the log, if anything. -/
def logEvent (s : TxnThreads) : Event → Option LogThreads.Event
  | .next thread =>
    match s.calls thread with
    | .entered txn => some (.append (.ofType txn.txnId 0 .begin))
    | .commit txn => some (.append (.ofType txn 0 .commit))
    | .commitLogged _ => some .beginFlush
    | .flushing _ ticket => some (.endFlush ticket)
    | .abort txn => some (.append (.ofType txn 0 .abort))
    | _ => none
  | .insert txn prevLsn rid tuple => some (.append (.ofTuple txn prevLsn .insert rid tuple))
  | _ => none

/-- There is no swap while records wait to be written. -/
def Clear (s : TxnThreads) (e : Event) : Prop := ∀ le ∈ s.logEvent e, s.log.Clear le

/-! ## The log -/

/-- Each thread that flushes has a `Flush` of its own in the log. -/
structure Ticketed (s : TxnThreads) : Prop where
  held : ∀ i txn ticket, s.calls i = .flushing txn ticket →
    ∃ f ∈ s.log.flushing, f.ticket = ticket
  lt : ∀ f ∈ s.log.flushing, f.ticket < s.log.tickets
  distinct : ∀ i j txn txn' ticket, s.calls i = .flushing txn ticket →
    s.calls j = .flushing txn' ticket → i = j

theorem ticketed_init (poolSize : ℕ) : Ticketed { poolSize } where
  held i txn ticket hc := absurd hc (by simp)
  lt f hf := absurd hf (by simp)
  distinct i j txn txn' ticket hc := absurd hc (by simp)

theorem appendLogRecord_flushing (l : LogThreads) (r : LogRecord) :
    (l.appendLogRecord r).flushing = l.flushing ∧ (l.appendLogRecord r).tickets = l.tickets := by
  rw [LogThreads.appendLogRecord]
  split <;> exact ⟨rfl, rfl⟩

namespace Ticketed

variable (h : s.Ticketed)

include h

/-- A step in which no `Flush` begins or ends. -/
theorem of_same (s' : TxnThreads) (hcalls : ∀ i txn ticket, s'.calls i = .flushing txn ticket →
      s.calls i = .flushing txn ticket)
    (hflushing : s'.log.flushing = s.log.flushing) (htickets : s'.log.tickets = s.log.tickets) :
    s'.Ticketed where
  held i txn ticket hc := by
    rw [hflushing]
    exact h.held i txn ticket (hcalls i txn ticket hc)
  lt f hf := by
    rw [hflushing] at hf
    rw [htickets]
    exact h.lt f hf
  distinct i j txn txn' ticket hi hj :=
    h.distinct i j txn txn' ticket (hcalls i txn ticket hi) (hcalls j txn' ticket hj)

theorem goto {pc : TxnPc} (hpc : ∀ txn ticket, pc ≠ .flushing txn ticket) :
    (s.goto thread pc).Ticketed := by
  refine h.of_same _ (fun i txn ticket hc ↦ ?_) rfl rfl
  by_cases hi : i = thread
  · rw [hi, goto_calls_self] at hc
    exact absurd hc (hpc txn ticket)
  · rwa [goto_calls_of_ne hi] at hc

theorem append (r : LogRecord) : Ticketed { s with log := s.log.appendLogRecord r } :=
  h.of_same _ (fun _ _ _ hc ↦ hc) (appendLogRecord_flushing s.log r).1
    (appendLogRecord_flushing s.log r).2

/-- A `Flush` begins. -/
theorem beginFlush (txn : TxnId) :
    ({ s with log := s.log.beginFlush }.goto thread (.flushing txn s.log.tickets)).Ticketed where
  held i txn' ticket hc := by
    by_cases hi : i = thread
    · rw [hi, goto_calls_self] at hc
      cases hc
      exact ⟨_, List.mem_append_right _ (List.mem_singleton_self _), rfl⟩
    · rw [goto_calls_of_ne hi] at hc
      obtain ⟨f, hf, heq⟩ := h.held i txn' ticket hc
      exact ⟨f, List.mem_append_left _ hf, heq⟩
  lt f hf := by
    show f.ticket < s.log.tickets + 1
    rcases List.mem_append.mp hf with hf | hf
    · exact Nat.lt_succ_of_lt (h.lt f hf)
    · rw [List.mem_singleton.mp hf]
      exact Nat.lt_succ_self _
  distinct i j txn₁ txn₂ ticket hi hj := by
    have hold : ∀ k txn', s.calls k ≠ .flushing txn' s.log.tickets := by
      intro k txn' hk
      obtain ⟨f, hf, heq⟩ := h.held k txn' _ hk
      exact absurd (h.lt f hf) (by omega)
    by_cases hit : i = thread <;> by_cases hjt : j = thread
    · rw [hit, hjt]
    · rw [hit, goto_calls_self] at hi
      rw [goto_calls_of_ne hjt] at hj
      cases hi
      exact absurd hj (hold j txn₂)
    · rw [goto_calls_of_ne hit] at hi
      rw [hjt, goto_calls_self] at hj
      cases hj
      exact absurd hi (hold i txn₁)
    · rw [goto_calls_of_ne hit] at hi
      rw [goto_calls_of_ne hjt] at hj
      exact h.distinct i j txn₁ txn₂ ticket hi hj

/-- A `Flush` ends. -/
theorem endFlush {txn : TxnId} {ticket : ℕ} (hpc : s.calls thread = .flushing txn ticket) :
    ({ s with log := s.log.endFlush ticket }.goto thread (.flushed txn)).Ticketed := by
  have hcalls : ∀ i txn' ticket', ({ s with log := s.log.endFlush ticket }.goto thread
      (.flushed txn)).calls i = .flushing txn' ticket' →
        i ≠ thread ∧ s.calls i = .flushing txn' ticket' := by
    intro i txn' ticket' hc
    by_cases hi : i = thread
    · rw [hi, goto_calls_self] at hc
      cases hc
    · rw [goto_calls_of_ne hi] at hc
      exact ⟨hi, hc⟩
  exact
    { held := fun i txn' ticket' hc ↦ by
        obtain ⟨hi, hc'⟩ := hcalls i txn' ticket' hc
        obtain ⟨f, hf, rfl⟩ := h.held i txn' ticket' hc'
        refine ⟨f, List.mem_filter.mpr ⟨hf, decide_eq_true ?_⟩, rfl⟩
        rintro rfl
        exact hi (h.distinct i thread txn' txn f.ticket hc' hpc)
      lt := fun f hf ↦ h.lt f (List.mem_filter.mp hf).1
      distinct := fun i j txn₁ txn₂ ticket' hi hj ↦
        h.distinct i j txn₁ txn₂ ticket' (hcalls i txn₁ ticket' hi).2 (hcalls j txn₂ ticket' hj).2 }

theorem step (hs : s.step e = some (o, s')) : s'.Ticketed := by
  cases e with
  | begin thread isoLevel =>
    rw [TxnThreads.step] at hs
    split at hs
    · cases hs
      exact (h.of_same { s with nextTxnId := s.nextTxnId + 1 } (fun _ _ _ hc ↦ hc) rfl
        rfl).goto (by simp)
    · cases hs
  | commit thread txn =>
    rw [TxnThreads.step] at hs
    split at hs
    · obtain ⟨t, -, heq⟩ := Option.map_eq_some_iff.mp hs
      cases heq
      split
      · exact h
      · exact h.goto (by simp)
    · cases hs
  | abort thread txn =>
    rw [TxnThreads.step] at hs
    split at hs
    · obtain ⟨t, -, heq⟩ := Option.map_eq_some_iff.mp hs
      cases heq
      split
      · exact h
      · exact h.goto (by simp)
    · cases hs
  | next thread =>
    rw [TxnThreads.step] at hs
    split at hs
    · generalize hpc : s.calls thread = pc at hs
      cases pc with
      | idle => cases hs
      | numbered txn => cases hs; exact h.goto (by simp)
      | loaded txn epoch =>
        cases hs
        exact (h.of_same { s with epochManager := s.epochManager.addCount epoch 1 }
          (fun _ _ _ hc ↦ hc) rfl rfl).goto (by simp)
      | entered txn => cases hs; exact (h.append _).goto (by simp)
      | begun txn =>
        cases hs
        exact (h.of_same { s with
          txnMap := Function.update s.txnMap txn.txnId (some txn) } (fun _ _ _ hc ↦ hc) rfl
            rfl).goto (by simp)
      | commit txn => cases hs; exact (h.append _).goto (by simp)
      | commitLogged txn => cases hs; exact h.beginFlush txn
      | flushing txn ticket => cases hs; exact h.endFlush hpc
      | flushed txn =>
        cases hs
        exact (h.of_same (s.modify txn fun t ↦ { t with state := .committed })
          (fun _ _ _ hc ↦ hc) rfl rfl).goto (by simp)
      | abort txn => cases hs; exact (h.append _).goto (by simp)
      | abortLogged txn =>
        cases hs
        exact (h.of_same (s.modify txn fun t ↦ { t with state := .aborted })
          (fun _ _ _ hc ↦ hc) rfl rfl).goto (by simp)
      | leaving txn =>
        cases hs
        exact (h.of_same { s with
          epochManager := (s.txnMap txn).elim s.epochManager (·.exitReadEpoch s.epochManager) }
            (fun _ _ _ hc ↦ hc) rfl rfl).goto (by simp)
    · cases hs
  | insert txn prevLsn rid tuple =>
    obtain ⟨t, -, heq⟩ := Option.map_eq_some_iff.mp hs
    cases heq
    exact (h.of_same (s.modify txn (·.appendWriteSet s.log.manager.nextLsn))
      (fun _ _ _ hc ↦ hc) rfl rfl).append _
  | advanceEpoch =>
    cases hs
    exact h.of_same _ (fun _ _ _ hc ↦ hc) rfl rfl

/-- **What a step does to the log** is a step of the log. -/
theorem step_log (hs : s.step e = some (o, s')) :
    (s.logEvent e = none ∧ s'.log = s.log) ∨
      ∃ le lo, s.logEvent e = some le ∧ s.log.step le = some (lo, s'.log) := by
  cases e with
  | begin thread isoLevel =>
    rw [TxnThreads.step] at hs
    split at hs
    · cases hs
      exact Or.inl ⟨rfl, rfl⟩
    · cases hs
  | commit thread txn =>
    rw [TxnThreads.step] at hs
    split at hs
    · obtain ⟨t, -, heq⟩ := Option.map_eq_some_iff.mp hs
      cases heq
      refine Or.inl ⟨rfl, ?_⟩
      split <;> rfl
    · cases hs
  | abort thread txn =>
    rw [TxnThreads.step] at hs
    split at hs
    · obtain ⟨t, -, heq⟩ := Option.map_eq_some_iff.mp hs
      cases heq
      refine Or.inl ⟨rfl, ?_⟩
      split <;> rfl
    · cases hs
  | next thread =>
    rw [TxnThreads.step] at hs
    rw [logEvent]
    split at hs
    · generalize hpc : s.calls thread = pc at hs
      cases pc with
      | idle => cases hs
      | entered txn => cases hs; exact Or.inr ⟨_, _, rfl, rfl⟩
      | commit txn => cases hs; exact Or.inr ⟨_, _, rfl, rfl⟩
      | commitLogged txn => cases hs; exact Or.inr ⟨_, _, rfl, rfl⟩
      | flushing txn ticket =>
        cases hs
        exact Or.inr ⟨_, _, rfl, if_pos (h.held thread txn ticket hpc)⟩
      | abort txn => cases hs; exact Or.inr ⟨_, _, rfl, rfl⟩
      | _ => cases hs; exact Or.inl ⟨rfl, rfl⟩
    · cases hs
  | insert txn prevLsn rid tuple =>
    obtain ⟨t, -, heq⟩ := Option.map_eq_some_iff.mp hs
    cases heq
    exact Or.inr ⟨_, _, rfl, rfl⟩
  | advanceEpoch =>
    cases hs
    exact Or.inl ⟨rfl, rfl⟩

end Ticketed

theorem step_clear_iff (ht : s.Ticketed) (h : s.log.manager.Shelved)
    (hs : s.step e = some (o, s')) :
    s'.log.manager.Shelved ∧ (s'.log.Kept ↔ s.log.Kept ∧ s.Clear e) := by
  obtain ⟨hnone, hlog⟩ | ⟨le, lo, hle, hls⟩ := ht.step_log hs
  · rw [hlog]
    exact ⟨h, (and_iff_left fun le hle ↦ by simp [hnone] at hle).symm⟩
  · have hclear : s.Clear e ↔ s.log.Clear le := by simp [Clear, hle]
    rw [hclear]
    exact ⟨LogThreads.step_shelved h hls, LogThreads.step_kept_iff h hls⟩

/-- What has been said of a record stays so. -/
structure Grows (m m' : LogManager) : Prop where
  appended : m.appended ⊆ m'.appended
  departed : m.departed ⊆ m'.departed
  handed : m.handed ⊆ m'.handed

theorem Grows.refl (m : LogManager) : Grows m m := ⟨fun _ h ↦ h, fun _ h ↦ h, fun _ h ↦ h⟩

theorem Ticketed.grows (ht : s.Ticketed) (hc : s.Clear e) (hs : s.step e = some (o, s')) :
    Grows s.log.manager s'.log.manager := by
  obtain ⟨-, hlog⟩ | ⟨le, lo, hle, hls⟩ := ht.step_log hs
  · rw [hlog]
    exact Grows.refl _
  · have hdeparted := (LogThreads.step_departed (hc le hle) hls).subset
    obtain ⟨r, -, -, heq⟩ | ⟨-, -, heq⟩ | ⟨t, -, -, heq⟩ := LogThreads.step_manager hls
    · refine ⟨?_, hdeparted, ?_⟩
      · rw [heq]
        split <;> exact List.subset_append_left _ _
      · rw [heq]
        split <;> exact fun _ h ↦ h
    · exact ⟨by rw [heq]; exact fun _ h ↦ h, hdeparted, by rw [heq]; exact fun _ h ↦ h⟩
    · refine ⟨by rw [heq]; exact fun _ h ↦ h, hdeparted, ?_⟩
      rw [heq, LogManager.handed_writeOut, LogManager.departed]
      exact List.subset_append_left _ _

/-! ## The commits -/

/-- The COMMIT of a transaction is among these records. -/
def HasCommit (es : List LogEntry) (txn : TxnId) : Prop :=
  ∃ e ∈ es, e.record = .ofType txn 0 .commit

/-- How far the COMMIT of each transaction has come, by where the threads are and by its state. -/
structure Durable (s : TxnThreads) : Prop where
  secured : ∀ i txn es, (s.calls i).secured s.log.manager = some (txn, es) → HasCommit es txn
  committed : ∀ txn t, s.txnMap txn = some t → t.state = .committed →
    HasCommit s.log.manager.handed txn

theorem durable_init (poolSize : ℕ) : Durable { poolSize } where
  secured i txn es hsec := absurd hsec (by simp [TxnPc.secured])
  committed txn t ht := absurd ht (by simp)

theorem HasCommit.mono {es es' : List LogEntry} {txn : TxnId} (h : HasCommit es txn)
    (hsub : es ⊆ es') : HasCommit es' txn := by
  obtain ⟨e, he, heq⟩ := h
  exact ⟨e, hsub he, heq⟩

/-- A thread that stays where it is. -/
theorem Durable.secured_of_grows (h : s.Durable) (hg : Grows s.log.manager s'.log.manager) {i : ℕ}
    {txn : TxnId} {es : List LogEntry}
    (hsec : (s.calls i).secured s'.log.manager = some (txn, es)) : HasCommit es txn := by
  have hold := h.secured i txn
  cases hpc : s.calls i with
  | commitLogged txn' =>
    rw [hpc] at hold hsec
    cases hsec
    exact (hold _ rfl).mono hg.appended
  | flushing txn' ticket =>
    rw [hpc] at hold hsec
    cases hsec
    exact (hold _ rfl).mono hg.departed
  | flushed txn' =>
    rw [hpc] at hold hsec
    cases hsec
    exact (hold _ rfl).mono hg.handed
  | _ =>
    rw [hpc] at hsec
    cases hsec

/-- A thread goes on. -/
theorem Durable.advance (h : s.Durable) (hg : Grows s.log.manager s'.log.manager) {pc : TxnPc}
    (hcalls : s'.calls = Function.update s.calls thread pc)
    (hpc : ∀ txn es, pc.secured s'.log.manager = some (txn, es) → HasCommit es txn)
    (hmap : ∀ txn t', s'.txnMap txn = some t' → t'.state = .committed →
      (∃ t, s.txnMap txn = some t ∧ t.state = .committed) ∨
        HasCommit s'.log.manager.handed txn) : s'.Durable where
  secured i txn es hsec := by
    rw [hcalls] at hsec
    by_cases hi : i = thread
    · rw [hi, Function.update_self] at hsec
      exact hpc txn es hsec
    · rw [Function.update_of_ne hi] at hsec
      exact h.secured_of_grows hg hsec
  committed txn t' ht' hst := by
    rcases hmap txn t' ht' hst with ⟨t, ht, hst⟩ | hhas
    · exact (h.committed txn t ht hst).mono hg.handed
    · exact hhas

/-- A step that ends no `Commit`. -/
theorem Durable.advance_of_state (h : s.Durable) (hg : Grows s.log.manager s'.log.manager)
    {pc : TxnPc} (hcalls : s'.calls = Function.update s.calls thread pc)
    (hpc : ∀ txn es, pc.secured s'.log.manager = some (txn, es) → HasCommit es txn)
    (hmap : s'.txnMap = s.txnMap) : s'.Durable :=
  h.advance hg hcalls hpc fun _ t' ht' hst ↦ Or.inl ⟨t', hmap ▸ ht', hst⟩

theorem Durable.next (h : s.Durable) (hp : s.Placed) (hkept : s.log.Kept)
    (hg : Grows s.log.manager s'.log.manager) (hc : s.Clear (.next thread))
    (hn : s.next thread (s.calls thread) = some (o, s')) : s'.Durable := by
  rw [Clear, logEvent] at hc
  generalize hpc : s.calls thread = pc at hn hc
  cases pc with
  | idle => cases hn
  | begun txn =>
    obtain ⟨hact, -, -⟩ := hp.starting thread txn (by rw [hpc]; rfl)
    cases hn
    refine h.advance hg rfl (fun _ _ hsec ↦ by cases hsec) fun id t' ht' hst ↦ ?_
    by_cases hid : id = txn.txnId
    · subst hid
      cases (Function.update_self ..).symm.trans ht'
      rw [hact] at hst
      cases hst
    · exact Or.inl ⟨t', (Function.update_of_ne hid ..).symm.trans ht', hst⟩
  | commit txn =>
    cases hn
    refine h.advance_of_state hg rfl (fun txn' es hsec ↦ ?_) rfl
    cases hsec
    refine ⟨⟨s.log.manager.nextLsn, .ofType txn 0 .commit⟩, ?_, rfl⟩
    show _ ∈ (s.log.appendLogRecord (.ofType txn 0 .commit)).manager.appended
    rw [LogThreads.appendLogRecord_manager, LogManager.appendLogRecord_appended]
    exact List.mem_append_right _ (List.mem_singleton_self _)
  | commitLogged txn =>
    have hlogged := h.secured thread txn s.log.manager.appended (by rw [hpc]; rfl)
    cases hn
    refine h.advance_of_state hg rfl (fun txn' es hsec ↦ ?_) rfl
    cases hsec
    -- nothing waits, so the swap leaves nothing behind
    have hwaiting : s.log.manager.waiting = [] := hc _ rfl trivial
    have hdeparted : s.log.beginFlush.manager.departed = s.log.manager.appended := by
      show s.log.manager.handed ++ s.log.manager.live = _
      rw [← hkept, LogManager.departed, hwaiting, List.append_nil]
    show HasCommit s.log.beginFlush.manager.departed txn
    rwa [hdeparted]
  | flushing txn ticket =>
    have hswapped := h.secured thread txn s.log.manager.departed (by rw [hpc]; rfl)
    cases hn
    refine h.advance_of_state hg rfl (fun txn' es hsec ↦ ?_) rfl
    cases hsec
    exact hswapped
  | flushed txn =>
    have hflushed := h.secured thread txn s.log.manager.handed (by rw [hpc]; rfl)
    cases hn
    refine h.advance hg rfl (fun _ _ hsec ↦ by cases hsec) fun id t' ht' hst ↦ ?_
    by_cases hid : id = txn
    · subst hid
      exact Or.inr hflushed
    · exact Or.inl ⟨t', (modify_txnMap_of_ne hid _).symm.trans ht', hst⟩
  | abortLogged txn =>
    cases hn
    refine h.advance hg rfl (fun _ _ hsec ↦ by cases hsec) fun id t' ht' hst ↦ ?_
    by_cases hid : id = txn
    · subst hid
      obtain ⟨t, -, rfl⟩ := Option.map_eq_some_iff.mp ((modify_txnMap_self id _).symm.trans ht')
      cases hst
    · exact Or.inl ⟨t', (modify_txnMap_of_ne hid _).symm.trans ht', hst⟩
  | _ =>
    cases hn
    exact h.advance_of_state hg rfl (fun _ _ hsec ↦ by cases hsec) rfl

theorem Durable.step (h : s.Durable) (hp : s.Placed) (ht : s.Ticketed) (hkept : s.log.Kept)
    (hc : s.Clear e) (hs : s.step e = some (o, s')) : s'.Durable := by
  have hg := ht.grows hc hs
  cases e with
  | begin thread isoLevel =>
    rw [TxnThreads.step] at hs
    split at hs
    · cases hs
      exact h.advance_of_state hg rfl (fun _ _ hsec ↦ by cases hsec) rfl
    · cases hs
  | commit thread txn =>
    rw [TxnThreads.step] at hs
    split at hs
    · obtain ⟨t, -, heq⟩ := Option.map_eq_some_iff.mp hs
      cases heq
      split
      · exact h
      · exact h.advance_of_state (Grows.refl _)
          (rfl : _ = Function.update s.calls thread (.commit txn))
          (fun _ _ hsec ↦ by cases hsec) rfl
    · cases hs
  | abort thread txn =>
    rw [TxnThreads.step] at hs
    split at hs
    · obtain ⟨t, -, heq⟩ := Option.map_eq_some_iff.mp hs
      cases heq
      split
      · exact h
      · exact h.advance_of_state (Grows.refl _)
          (rfl : _ = Function.update s.calls thread (.abort txn))
          (fun _ _ hsec ↦ by cases hsec) rfl
    · cases hs
  | next thread =>
    rw [TxnThreads.step] at hs
    split at hs
    · exact h.next hp hkept hg hc hs
    · cases hs
  | insert txn prevLsn rid tuple =>
    obtain ⟨t, ht', heq⟩ := Option.map_eq_some_iff.mp hs
    cases heq
    refine ⟨fun i txn' es hsec ↦ h.secured_of_grows hg hsec, fun id t' hmap hst ↦ ?_⟩
    by_cases hid : id = txn
    · subst hid
      obtain ⟨t₁, ht₁, rfl⟩ :=
        Option.map_eq_some_iff.mp ((modify_txnMap_self id _).symm.trans hmap)
      exact (h.committed id t₁ ht₁ hst).mono hg.handed
    · have hold := (modify_txnMap_of_ne hid _).symm.trans hmap
      exact (h.committed id t' hold hst).mono hg.handed
  | advanceEpoch =>
    cases hs
    exact ⟨h.secured, h.committed⟩

/-! ## Runs -/

variable {poolSize : ℕ} {es : List Event} {os : List (Option TxnId)}

theorem ticketed_of_run (hr : run step { poolSize } es = some (os, s)) :
    s.Ticketed ∧ s.log.manager.Shelved :=
  run_invariant (P := fun _ _ ↦ True) (I := fun s : TxnThreads ↦ s.Ticketed ∧ s.log.manager.Shelved)
    (fun _ _ _ _ h _ hs ↦ ⟨h.1.step hs, (step_clear_iff h.1 h.2 hs).1⟩)
    ⟨ticketed_init poolSize, LogManager.shelved_init⟩ along_true hr

theorem kept_iff_along (hr : run step { poolSize } es = some (os, s)) :
    s.log.Kept ↔ Along step Clear { poolSize } es := by
  induction es using List.reverseRecOn generalizing s os with
  | nil =>
    cases hr
    exact iff_of_true rfl trivial
  | append_singleton es e ih =>
    obtain ⟨s₁, os₁, o, hr₁, hs, rfl⟩ := run_concat.mp hr
    obtain ⟨ht, hsh⟩ := ticketed_of_run hr₁
    rw [(step_clear_iff ht hsh hs).2, along_concat, ih hr₁]
    refine and_congr_right fun _ ↦ ⟨fun hc os' s' hr' ↦ ?_, fun hc ↦ hc os₁ s₁ hr₁⟩
    rw [hr₁] at hr'
    cases hr'
    exact hc

theorem durable_of_run (hc : Along step Clear { poolSize } es)
    (hr : run step { poolSize } es = some (os, s)) : s.Durable := by
  have hall := run_invariant (P := Clear)
    (I := fun s : TxnThreads ↦
      s.Placed ∧ s.Ticketed ∧ s.log.manager.Shelved ∧ s.log.Kept ∧ s.Durable)
    (fun s e o s' ⟨hp, ht, hsh, hkept, h⟩ hc hs ↦
      have ⟨hsh', hiff⟩ := step_clear_iff ht hsh hs
      ⟨hp.step hs, ht.step hs, hsh', hiff.mpr ⟨hkept, hc⟩, h.step hp ht hkept hc hs⟩)
    ⟨placed_init poolSize, ticketed_init poolSize, LogManager.shelved_init, rfl,
      durable_init poolSize⟩ hc hr
  exact hall.2.2.2.2

/-- **Commits are durable among threads.**  In every interleaving: no log record is lost exactly
when no swap of the log buffers comes while records wait to be written.  And while none has been
lost, every transaction whose state is `COMMITTED` has its COMMIT among the records that have been
handed to I/O, with all those that were logged before it. -/
theorem committed_handed (hr : run step { poolSize } es = some (os, s)) :
    (s.log.Kept ↔ Along step Clear { poolSize } es) ∧
      (s.log.Kept → ∀ txn t, s.txnMap txn = some t → t.state = .committed →
        ∃ e ∈ s.log.manager.handed, e.record = .ofType txn 0 .commit ∧
          ∀ e' ∈ s.log.manager.appended, e'.lsn ≤ e.lsn → e' ∈ s.log.manager.handed) := by
  have hiff := kept_iff_along hr
  refine ⟨hiff, fun hkept txn t ht hst ↦ ?_⟩
  obtain ⟨e, he, heq⟩ := (durable_of_run (hiff.mp hkept) hr).committed txn t ht hst
  refine ⟨e, he, heq, fun e' he' hle ↦ ?_⟩
  -- what has not been handed to I/O has come later
  have hsorted := (ticketed_of_run hr).2.recorded.pairwise_lsn
  rw [← hkept, LogManager.departed, List.append_assoc] at hsorted he'
  refine (List.mem_append.mp he').resolve_right fun hrest ↦ ?_
  have hlt := (List.pairwise_append.mp hsorted).2.2 e he e' hrest
  omega

/-- Two threads commit at the same time; the `Flush` of the one writes out the records of both. -/
def twoCommits : List Event :=
  [.begin 0 .snapshotIsolation, .begin 1 .snapshotIsolation, .next 0, .next 0, .next 0, .next 0,
    .next 1, .next 1, .next 1, .next 1, .commit 1 2, .commit 0 1, .next 0, .next 1, .next 0,
    .next 0, .next 1, .next 0, .next 1, .next 1]

theorem committed_handed_two :
    ∃ os s, run step { poolSize := 2 } twoCommits = some (os, s) ∧
      (s.log.Kept ↔ Along step Clear { poolSize := 2 } twoCommits) ∧
      (s.log.Kept → ∀ txn t, s.txnMap txn = some t → t.state = .committed →
        ∃ e ∈ s.log.manager.handed, e.record = .ofType txn 0 .commit ∧
          ∀ e' ∈ s.log.manager.appended, e'.lsn ≤ e.lsn → e' ∈ s.log.manager.handed) :=
  ⟨_, _, rfl, committed_handed (rfl : run step { poolSize := 2 } twoCommits = some _)⟩

end TxnThreads

end StingDB
