import StingDB.Lib.Machine
import StingDB.Lib.Tokens
import StingDB.Network.Segmentation

/-!
# The reactor

`network/server.h` and the asynchronous side of `network/connection.h`: one `io_context`, whose
operations the kernel completes in any order, and a pool of threads that execute the handlers of
those that are complete.  A handler is executed step by step, with steps of the other threads, and
of the kernel, in between.

A connection has one buffer, `data_`, for what it reads and what it answers.  The kernel writes to
it while a read is pending and reads it while a write is, and a handler looks at the query in it and
puts the answer there.  There is no lock; what keeps these apart is that each of them starts the
next (`Sound.token`).  What comes of it is `answers_of_run`.

What a handler computes in between is left open: the response may be any text, and so the results
here hold for whatever the instance does, and whatever other threads do to it meanwhile.
-/

set_option autoImplicit false

namespace StingDB

open Machine Tokens

/-- A connection, by its number. -/
abbrev ConnectionId := ℕ

/-- An operation that is pending, or a handler with what it does next. -/
inductive Activity where
  /-- `async_accept`, pending. -/
  | accepting
  /-- The handler of `DoAccept`, without an error: it makes a connection. -/
  | accepted
  /-- The same handler, in `Start`, and in `DoRead` of that. -/
  | start (c : ConnectionId)
  /-- The same handler: `DoAccept` again. -/
  | doAccept
  /-- `async_read_some`, pending. -/
  | reading (c : ConnectionId)
  /-- The handler of `DoRead`: it looks at the query, of this length, and computes a response. -/
  | execute (c : ConnectionId) (bytesTransferred : ℕ)
  /-- The same handler, in `DoWriteAnswer`: the `std::copy`. -/
  | copy (c : ConnectionId) (response : List UInt8)
  /-- The same handler: the `async_write`. -/
  | write (c : ConnectionId) (len : ℕ)
  /-- `async_write`, pending. -/
  | writing (c : ConnectionId) (len : ℕ)
  /-- The handler of `DoWriteAnswer`: `DoRead`. -/
  | doRead (c : ConnectionId)
  /-- The handler of `DoWriteAnswer`, with an error: `socket_.close()`. -/
  | close (c : ConnectionId)
  /-- A handler that returns. -/
  | finished
  deriving DecidableEq

namespace Activity

/-- It is the business of a connection, which the activity is about to pass on or to end. -/
def holds (c : ConnectionId) : Activity → Bool
  | .start c' | .reading c' | .execute c' _ | .copy c' _ | .write c' _ | .writing c' _
  | .doRead c' | .close c' => c = c'
  | .accepting | .accepted | .doAccept | .finished => false

/-- It is an `async_accept`, or about to make one. -/
def accepts : Activity → Bool
  | .accepting | .accepted | .start _ | .doAccept => true
  | .reading _ | .execute _ _ | .copy _ _ | .write _ _ | .writing _ _ | .doRead _ | .close _
  | .finished => false

/-- A thread executes it. -/
def isHandler : Activity → Bool
  | .accepting | .reading _ | .writing _ _ => false
  | .accepted | .start _ | .doAccept | .execute _ _ | .copy _ _ | .write _ _ | .doRead _ | .close _
  | .finished => true

end Activity

/-- A `Connection`: its buffer, and what has become of it so far. -/
structure ConnectionLog where
  /-- `data_` -/
  data : List UInt8 := List.replicate maxLength 0
  /-- What has arrived, read by read. -/
  reads : List (List UInt8) := []
  /-- The queries that handlers have seen, with their responses. -/
  executed : List (List UInt8 × List UInt8) := []
  /-- What has been sent. -/
  answers : List (List UInt8) := []

/-- `Server`, its `io_context` and its threads. -/
structure Reactor where
  /-- `thread_pool_size_` -/
  threadPoolSize : ℕ
  activities : List Activity := [.accepting]
  connections : ConnectionId → ConnectionLog := fun _ ↦ {}
  nextConnection : ConnectionId := 0

namespace Reactor

/-- What happens next. -/
inductive Event where
  /-- `async_accept` is complete, with a connection or an error. -/
  | accepted (ok : Bool)
  /-- `async_read_some` is complete, with some bytes or an error. -/
  | received (c : ConnectionId) (bytes : Option (List UInt8))
  /-- `async_write` is complete, of all or with an error. -/
  | sent (c : ConnectionId) (len : ℕ) (ok : Bool)
  /-- A thread takes the next step of its handler; `response` is what it computes if it computes
  one. -/
  | proceed (handler : Activity) (response : List UInt8)

/-- An activity is over and others are in its place; the connection may have changed. -/
def replace (s : Reactor) (a : Activity) (bs : List Activity) : Reactor :=
  { s with activities := Tokens.replace s.activities a bs }

/-- What a connection becomes. -/
def setConnection (s : Reactor) (c : ConnectionId) (log : ConnectionLog) : Reactor :=
  { s with connections := Function.update s.connections c log }

/-- A thread of the pool is free. -/
def Idle (s : Reactor) : Prop := s.activities.countP Activity.isHandler < s.threadPoolSize

instance (s : Reactor) : Decidable s.Idle := inferInstanceAs (Decidable (_ < _))

/-- The next step of a handler. -/
def proceed (s : Reactor) (response : List UInt8) : Activity → Option Reactor
  | .accepted =>
    some ({ s with nextConnection := s.nextConnection + 1 }.replace .accepted
      [.start s.nextConnection])
  | .start c => some (s.replace (.start c) [.reading c, .doAccept])
  | .doAccept => some (s.replace .doAccept [.accepting, .finished])
  | .execute c n =>
    let log := s.connections c
    some ((s.setConnection c
      { log with executed := log.executed ++ [(log.data.take n, response)] }).replace
        (.execute c n) [.copy c response])
  | .copy c response =>
    let log := s.connections c
    let answer := response.take maxLength
    some ((s.setConnection c
      { log with data := answer ++ log.data.drop answer.length }).replace
        (.copy c response) [.write c answer.length])
  | .write c len => some (s.replace (.write c len) [.writing c len, .finished])
  | .doRead c => some (s.replace (.doRead c) [.reading c, .finished])
  | .close c => some (s.replace (.close c) [.finished])
  | .finished => some (s.replace .finished [])
  | .accepting | .reading _ | .writing _ _ => none

/-- One event.  `none` if it cannot happen then. -/
def step (s : Reactor) : Event → Option (Unit × Reactor)
  | .accepted ok =>
    if .accepting ∈ s.activities ∧ s.Idle then
      some ((), s.replace .accepting [if ok then .accepted else .doAccept])
    else none
  | .received c bytes =>
    if .reading c ∈ s.activities ∧ s.Idle then
      match bytes with
      | none => some ((), s.replace (.reading c) [.finished])
      | some bytes =>
        let log := s.connections c
        if bytes ≠ [] ∧ bytes.length ≤ maxLength then
          some ((), (s.setConnection c
            { log with
              data := bytes ++ log.data.drop bytes.length
              reads := log.reads ++ [bytes] }).replace (.reading c) [.execute c bytes.length])
        else none
    else none
  | .sent c len ok =>
    if .writing c len ∈ s.activities ∧ s.Idle then
      if ok then
        let log := s.connections c
        some ((), (s.setConnection c
          { log with answers := log.answers ++ [log.data.take len] }).replace (.writing c len)
            [.doRead c])
      else some ((), s.replace (.writing c len) [.close c])
    else none
  | .proceed handler response =>
    if handler ∈ s.activities then (s.proceed response handler).map fun s ↦ ((), s) else none

end Reactor

/-! ## Where a connection is -/

namespace ConnectionLog

/-- The beginning of a response, as far as it fits into the buffer. -/
def answer (x : List UInt8 × List UInt8) : List UInt8 := x.2.take maxLength

/-- All that has arrived has been executed and answered. -/
structure Waiting (log : ConnectionLog) : Prop where
  reads_eq : log.reads = log.executed.map Prod.fst
  answers_eq : log.answers = log.executed.map answer

/-- Only the last read has not been executed; it is in the buffer. -/
structure Asked (log : ConnectionLog) (n : ℕ) : Prop where
  reads_eq : log.reads = log.executed.map Prod.fst ++ [log.data.take n]
  answers_eq : log.answers = log.executed.map answer

/-- Only the last response has not been sent; of that `P` is true. -/
def Answering (log : ConnectionLog) (P : List UInt8 → Prop) : Prop :=
  ∃ before q r, log.executed = before ++ [(q, r)] ∧ log.reads = log.executed.map Prod.fst ∧
    log.answers = before.map answer ∧ P r

/-- What is true of a connection when an activity has it. -/
def Fits (log : ConnectionLog) : Activity → Prop
  | .start _ | .reading _ | .doRead _ => log.Waiting
  | .execute _ n => log.Asked n
  | .copy _ response => log.Answering (· = response)
  | .write _ len | .writing _ len => log.Answering fun r ↦ log.data.take len = r.take maxLength
  | .close _ => log.Answering fun _ ↦ True
  | .accepting | .accepted | .doAccept | .finished => True

/-- What is true of a connection at any time. -/
structure Kept (log : ConnectionLog) : Prop where
  executed : log.executed.map Prod.fst <+: log.reads
  answers : log.answers <+: log.executed.map answer
  length_le : log.reads.length ≤ log.answers.length + 1

variable {log : ConnectionLog} {n : ℕ} {P Q : List UInt8 → Prop}

theorem Waiting.kept (h : log.Waiting) : log.Kept where
  executed := h.reads_eq ▸ List.prefix_rfl
  answers := h.answers_eq ▸ List.prefix_rfl
  length_le := by
    rw [h.reads_eq, h.answers_eq, List.length_map, List.length_map]
    exact Nat.le_succ _

theorem Asked.kept (h : log.Asked n) : log.Kept where
  executed := h.reads_eq ▸ List.prefix_append ..
  answers := h.answers_eq ▸ List.prefix_rfl
  length_le := by
    rw [h.reads_eq, h.answers_eq, List.length_append, List.length_map, List.length_map]
    exact le_rfl

theorem Answering.kept (h : log.Answering P) : log.Kept := by
  obtain ⟨before, q, r, hexec, hreads, hanswers, -⟩ := h
  refine ⟨hreads ▸ List.prefix_rfl, ?_, ?_⟩
  · rw [hanswers, hexec, List.map_append]
    exact List.prefix_append ..
  · rw [hreads, hanswers, hexec]
    simp

theorem waiting_new : ({} : ConnectionLog).Waiting := ⟨rfl, rfl⟩

/-- Some bytes arrive. -/
theorem Waiting.received (h : log.Waiting) (bytes : List UInt8) :
    Asked { log with
      data := bytes ++ log.data.drop bytes.length
      reads := log.reads ++ [bytes] } bytes.length where
  reads_eq := by
    dsimp only
    rw [List.take_left, h.reads_eq]
  answers_eq := h.answers_eq

/-- The query is executed. -/
theorem Asked.executed (h : log.Asked n) (response : List UInt8) :
    Answering { log with executed := log.executed ++ [(log.data.take n, response)] }
      (· = response) := by
  refine ⟨log.executed, _, response, rfl, ?_, h.answers_eq, rfl⟩
  rw [List.map_append, List.map_singleton]
  exact h.reads_eq

/-- The response is copied. -/
theorem Answering.copied {response : List UInt8} (h : log.Answering (· = response)) :
    let answer := response.take maxLength
    let log' := { log with data := answer ++ log.data.drop answer.length }
    log'.Answering fun r ↦ log'.data.take answer.length = r.take maxLength := by
  obtain ⟨before, q, r, hexec, hreads, hanswers, rfl⟩ := h
  exact ⟨before, q, r, hexec, hreads, hanswers, List.take_left ..⟩

/-- The answer is sent. -/
theorem Answering.sent (h : log.Answering fun r ↦ log.data.take n = r.take maxLength) :
    Waiting { log with answers := log.answers ++ [log.data.take n] } := by
  obtain ⟨before, q, r, hexec, hreads, hanswers, hdata⟩ := h
  refine ⟨hreads, ?_⟩
  dsimp only
  rw [hdata, hanswers, hexec, List.map_append]
  rfl

end ConnectionLog

/-! ## Who has a connection -/

namespace Reactor

open ConnectionLog

/-- What is true between two events. -/
structure Sound (s : Reactor) : Prop where
  /-- A connection is the business of one activity at most. -/
  token : ∀ c, s.activities.countP (Activity.holds c) ≤ 1
  /-- There is one `async_accept`, or one handler that is about to make it. -/
  acceptor : s.activities.countP Activity.accepts = 1
  /-- There are as many handlers as threads at most. -/
  threads : s.activities.countP Activity.isHandler ≤ s.threadPoolSize
  fits : ∀ c, ∀ a ∈ s.activities, a.holds c → (s.connections c).Fits a
  kept : ∀ c, (s.connections c).Kept
  /-- What is to be the next connections. -/
  fresh : ∀ c, s.nextConnection ≤ c →
    s.connections c = {} ∧ ∀ a ∈ s.activities, a.holds c = false

theorem sound_start (threadPoolSize : ℕ) : Sound { threadPoolSize } where
  token _ := Nat.zero_le _
  acceptor := rfl
  threads := Nat.zero_le _
  fits c a ha hc := by
    rw [List.mem_singleton.mp ha] at hc
    cases hc
  kept _ := waiting_new.kept
  fresh c _ := ⟨rfl, fun a ha ↦ by rw [List.mem_singleton.mp ha]; rfl⟩

variable {s s' : Reactor} {a : Activity} {bs : List Activity} {c : ConnectionId}
  {log : ConnectionLog}

/-- An activity has one connection at most. -/
theorem holds_inj {c' : ConnectionId} (h : a.holds c = true) (h' : a.holds c' = true) : c = c' := by
  cases a <;> simp_all [Activity.holds]

section

variable (ha : a ∈ s.activities) (hholds : ∀ c, bs.countP (Activity.holds c) ≤ (a.holds c).toNat)
  (haccepts : bs.countP Activity.accepts = a.accepts.toNat)
  (hthreads : bs.countP Activity.isHandler ≤ a.isHandler.toNat ∨
    s.Idle ∧ bs.countP Activity.isHandler ≤ 1)

include ha hholds haccepts hthreads

omit ha haccepts hthreads in
/-- What is left to an activity was had by the one before. -/
theorem holds_of_mem {b : Activity} (hb : b ∈ bs) (hbc : b.holds c = true) : a.holds c = true := by
  have hpos : 0 < bs.countP (Activity.holds c) := List.countP_pos_iff.mpr ⟨b, hb, hbc⟩
  have hle := hholds c
  by_contra hac
  rw [Bool.eq_false_iff.mpr hac, Bool.toNat_false] at hle
  omega

/-- One activity after another.  If the first changes a connection, it is the one that has it. -/
theorem Sound.replace (h : s.Sound) (hc : a.holds c = true ∨ log = s.connections c)
    (hfits : ∀ b ∈ bs, ∀ c', b.holds c' = true → (Function.update s.connections c log c').Fits b)
    (hkept : log.Kept) : ((s.setConnection c log).replace a bs).Sound := by
  have hcount := fun p ↦ countP_replace ha bs p
  refine ⟨fun c' ↦ ?_, ?_, ?_, fun c' b hb hbc ↦ ?_, fun c' ↦ ?_, fun c' hle ↦ ⟨?_, fun b hb ↦ ?_⟩⟩
  · have heq := hcount (Activity.holds c')
    have hle := hholds c'
    have htoken := h.token c'
    change (Tokens.replace s.activities a bs).countP _ ≤ 1
    omega
  · have heq := hcount Activity.accepts
    have hone := h.acceptor
    change (Tokens.replace s.activities a bs).countP _ = 1
    omega
  · have heq := hcount Activity.isHandler
    have hle := h.threads
    change (Tokens.replace s.activities a bs).countP _ ≤ s.threadPoolSize
    rcases hthreads with hthreads | ⟨hidle, hthreads⟩
    · omega
    · rw [Idle] at hidle
      omega
  · change (Function.update s.connections c log c').Fits b
    rcases mem_replace.mp hb with hnew | hold
    · exact hfits b hnew c' hbc
    · have hsame := h.fits c' b (List.mem_of_mem_erase hold) hbc
      by_cases hc' : c' = c
      · subst hc'
        rw [Function.update_self]
        rcases hc with hc | rfl
        · -- there is nobody else who has the connection
          rw [not_of_mem_erase (h.token c') ha hc hold] at hbc
          cases hbc
        · exact hsame
      · rwa [Function.update_of_ne hc']
  · change (Function.update s.connections c log c').Kept
    by_cases hc' : c' = c
    · rwa [hc', Function.update_self]
    · rw [Function.update_of_ne hc']
      exact h.kept c'
  · change Function.update s.connections c log c' = _
    obtain ⟨hnew, hnone⟩ := h.fresh c' hle
    by_cases hc' : c' = c
    · subst hc'
      rw [Function.update_self]
      rcases hc with hc | rfl
      · rw [hnone a ha] at hc
        cases hc
      · exact hnew
    · rwa [Function.update_of_ne hc']
  · obtain ⟨-, hnone⟩ := h.fresh c' hle
    rcases mem_replace.mp hb with hnew | hold
    · by_contra hbc
      rw [Bool.not_eq_false] at hbc
      have hac := holds_of_mem hholds hnew hbc
      rw [hnone a ha] at hac
      cases hac
    · exact hnone b (List.mem_of_mem_erase hold)

/-- **The activity that has a connection** leaves it as `log`, to one other at most. -/
theorem Sound.pass (h : s.Sound) (hc : a.holds c = true)
    (hfits : ∀ b ∈ bs, b.holds c = true → log.Fits b) (hkept : log.Kept) :
    ((s.setConnection c log).replace a bs).Sound := by
  refine h.replace ha hholds haccepts hthreads (Or.inl hc) (fun b hb c' hbc ↦ ?_) hkept
  obtain rfl := holds_inj (holds_of_mem hholds hb hbc) hc
  rw [Function.update_self]
  exact hfits b hb hbc

/-- The same where the connection, if there is one, stays as it was. -/
theorem Sound.pass_same (h : s.Sound)
    (hfits : ∀ b ∈ bs, ∀ c, b.holds c = true → (s.connections c).Fits b) :
    (s.replace a bs).Sound := by
  have hself : Function.update s.connections 0 (s.connections 0) = s.connections :=
    Function.update_eq_self ..
  have hset : s.setConnection 0 (s.connections 0) = s := by rw [setConnection, hself]
  have hreplaced := h.replace (c := 0) ha hholds haccepts hthreads (Or.inr rfl)
    (fun b hb c hbc ↦ by rw [hself]; exact hfits b hb c hbc) (h.kept 0)
  rwa [hset] at hreplaced

end

/-- An activity that leaves to `b` what it had, and nothing to others. -/
theorem countP_holds_le {b : Activity} {rest : List Activity} (hb : ∀ c, b.holds c = a.holds c)
    (hrest : ∀ x ∈ rest, ∀ c, x.holds c = false) (c : ConnectionId) :
    (b :: rest).countP (Activity.holds c) ≤ (a.holds c).toNat := by
  have hnone : rest.countP (Activity.holds c) = 0 :=
    List.countP_eq_zero.mpr fun x hx hxc ↦ by rw [hrest x hx c] at hxc; cases hxc
  rw [List.countP_cons, hnone, hb]
  cases a.holds c <;> decide

/-- **An activity that hands on** what it had to `b`, and nothing to others. -/
theorem Sound.handOn (h : s.Sound) (ha : a ∈ s.activities) {b : Activity} {rest : List Activity}
    (hb : ∀ c, b.holds c = a.holds c) (hrest : ∀ x ∈ rest, ∀ c, x.holds c = false)
    (haccepts : (b :: rest).countP Activity.accepts = a.accepts.toNat)
    (hthreads : (b :: rest).countP Activity.isHandler ≤ a.isHandler.toNat ∨
      s.Idle ∧ (b :: rest).countP Activity.isHandler ≤ 1)
    (hfits : ∀ c, (s.connections c).Fits a → (s.connections c).Fits b) :
    (s.replace a (b :: rest)).Sound := by
  refine h.pass_same ha (countP_holds_le hb hrest) haccepts hthreads fun x hx c hxc ↦ ?_
  rcases List.mem_cons.mp hx with rfl | hx
  · exact hfits c (h.fits c a ha (hb c ▸ hxc))
  · rw [hrest x hx c] at hxc
    cases hxc

/-- A handler that has no connection yet makes the next one. -/
theorem Sound.accept (h : s.Sound) (ha : .accepted ∈ s.activities) :
    ({ s with nextConnection := s.nextConnection + 1 }.replace .accepted
      [.start s.nextConnection]).Sound := by
  have hcount := fun p ↦ countP_replace ha [.start s.nextConnection] p
  obtain ⟨hnew, hnone⟩ := h.fresh _ le_rfl
  refine ⟨fun c ↦ ?_, ?_, ?_, fun c b hb hbc ↦ ?_, h.kept, fun c hle ↦ ⟨?_, fun b hb ↦ ?_⟩⟩
  · have heq := hcount (Activity.holds c)
    change (Tokens.replace s.activities .accepted [.start s.nextConnection]).countP _ ≤ 1
    have htoken := h.token c
    have hle : [Activity.start s.nextConnection].countP (Activity.holds c) ≤ 1 :=
      List.countP_le_length
    by_cases hc : c = s.nextConnection
    · have hzero : s.activities.countP (Activity.holds c) = 0 :=
        List.countP_eq_zero.mpr fun x hx hxc ↦ by rw [hc, hnone x hx] at hxc; cases hxc
      omega
    · have hzero : [Activity.start s.nextConnection].countP (Activity.holds c) = 0 :=
        List.countP_eq_zero.mpr fun x hx hxc ↦ by
          rw [List.mem_singleton.mp hx] at hxc
          exact hc (of_decide_eq_true hxc)
      omega
  · have heq := hcount Activity.accepts
    have hone := h.acceptor
    change (Tokens.replace s.activities .accepted [.start s.nextConnection]).countP _ = 1
    change _ + 1 = 1 + _ at heq
    omega
  · have heq := hcount Activity.isHandler
    have hle := h.threads
    change (Tokens.replace s.activities .accepted [.start s.nextConnection]).countP _ ≤
      s.threadPoolSize
    change _ + 1 = 1 + _ at heq
    omega
  · rcases mem_replace.mp hb with hb | hb
    · rw [List.mem_singleton.mp hb] at hbc ⊢
      obtain rfl : c = s.nextConnection := by simpa [Activity.holds] using hbc
      change (s.connections s.nextConnection).Waiting
      rw [hnew]
      exact waiting_new
    · exact h.fits c b (List.mem_of_mem_erase hb) hbc
  · exact (h.fresh c (Nat.le_of_succ_le hle)).1
  · rcases mem_replace.mp hb with hb | hb
    · rw [List.mem_singleton.mp hb]
      exact decide_eq_false (Nat.lt_of_succ_le hle).ne'
    · exact (h.fresh c (Nat.le_of_succ_le hle)).2 b (List.mem_of_mem_erase hb)

/-- **The steps of the handlers.** -/
theorem Sound.proceed (h : s.Sound) {response : List UInt8} (ha : a ∈ s.activities)
    (hs : s.proceed response a = some s') : s'.Sound := by
  have hfits : ∀ c, a.holds c = true → (s.connections c).Fits a := fun c ↦ h.fits c a ha
  have hself : ∀ {c : ConnectionId}, decide (c = c) = true := decide_eq_true rfl
  cases a with
  | accepted =>
    cases hs
    exact h.accept ha
  | start c =>
    cases hs
    exact h.handOn ha (fun _ ↦ rfl) (by simp [Activity.holds]) rfl (Or.inl le_rfl) fun _ ↦ id
  | doAccept =>
    cases hs
    exact h.handOn ha (fun _ ↦ rfl) (by simp [Activity.holds]) rfl (Or.inl le_rfl) fun _ ↦ id
  | execute c n =>
    cases hs
    have hnext := (hfits c hself).executed response
    refine h.pass ha (countP_holds_le (fun _ ↦ rfl) (by simp)) rfl (Or.inl le_rfl) hself ?_
      hnext.kept
    exact List.forall_mem_singleton.mpr fun _ ↦ hnext
  | copy c response =>
    cases hs
    have hnext := (hfits c hself).copied
    refine h.pass ha (countP_holds_le (fun _ ↦ rfl) (by simp)) rfl (Or.inl le_rfl) hself ?_
      hnext.kept
    exact List.forall_mem_singleton.mpr fun _ ↦ hnext
  | write c len =>
    cases hs
    exact h.handOn ha (fun _ ↦ rfl) (by simp [Activity.holds]) rfl (Or.inl le_rfl) fun _ ↦ id
  | doRead c =>
    cases hs
    exact h.handOn ha (fun _ ↦ rfl) (by simp [Activity.holds]) rfl (Or.inl le_rfl) fun _ ↦ id
  | close c =>
    cases hs
    exact h.pass_same ha (fun _ ↦ Nat.zero_le _) rfl (Or.inl le_rfl) (by simp [Activity.holds])
  | finished =>
    cases hs
    exact h.pass_same ha (fun _ ↦ Nat.zero_le _) rfl (Or.inl (Nat.zero_le _)) (by simp)
  | accepting => cases hs
  | reading c => cases hs
  | writing c len => cases hs

/-- **One event.** -/
theorem Sound.step (h : s.Sound) {e : Event} {o : Unit} (hs : step s e = some (o, s')) :
    s'.Sound := by
  have hself : ∀ {c : ConnectionId}, decide (c = c) = true := decide_eq_true rfl
  cases e with
  | accepted ok =>
    rw [Reactor.step] at hs
    split at hs
    · rename_i hif
      cases hs
      cases ok <;>
        exact h.handOn hif.1 (fun _ ↦ rfl) (by simp) rfl (Or.inr ⟨hif.2, le_rfl⟩) fun _ _ ↦ trivial
    · cases hs
  | received c bytes =>
    by_cases hif : .reading c ∈ s.activities ∧ s.Idle
    · have hfits : (s.connections c).Waiting := h.fits c _ hif.1 hself
      simp only [Reactor.step, if_pos hif] at hs
      cases bytes with
      | none =>
        cases hs
        exact h.pass_same hif.1 (fun _ ↦ Nat.zero_le _) rfl (Or.inr ⟨hif.2, le_rfl⟩)
          (by simp [Activity.holds])
      | some bytes =>
        obtain ⟨-, hs⟩ := Option.ite_none_right_eq_some.mp hs
        cases hs
        have hnext := hfits.received bytes
        exact h.pass hif.1 (countP_holds_le (fun _ ↦ rfl) (by simp)) rfl
          (Or.inr ⟨hif.2, le_rfl⟩) hself (List.forall_mem_singleton.mpr fun _ ↦ hnext) hnext.kept
    · simp only [Reactor.step, if_neg hif] at hs
      cases hs
  | sent c len ok =>
    rw [Reactor.step] at hs
    split at hs
    · rename_i hif
      have hfits := h.fits c _ hif.1 hself
      cases ok with
      | false =>
        cases hs
        refine h.handOn hif.1 (fun _ ↦ rfl) (by simp) rfl (Or.inr ⟨hif.2, le_rfl⟩) fun c' hc' ↦ ?_
        obtain ⟨before, q, r, hexec, hreads, hanswers, -⟩ := hc'
        exact ⟨before, q, r, hexec, hreads, hanswers, trivial⟩
      | true =>
        cases hs
        have hnext := Answering.sent hfits
        exact h.pass hif.1 (countP_holds_le (fun _ ↦ rfl) (by simp)) rfl
          (Or.inr ⟨hif.2, le_rfl⟩) hself (List.forall_mem_singleton.mpr fun _ ↦ hnext) hnext.kept
    · cases hs
  | proceed handler response =>
    simp only [Reactor.step] at hs
    split at hs
    · rename_i ha
      obtain ⟨s₁, hs, heq⟩ := Option.map_eq_some_iff.mp hs
      cases heq
      exact h.proceed ha hs
    · cases hs

/-! ## Runs -/

/-- **One reactor, any number of connections and threads**, and any order in which operations are
completed and handlers take their steps.  Each connection is the business of one activity at most,
so nothing reads its buffer while something else writes to it.  The queries that are executed are
the reads as they arrived, in their order; the answers that are sent are the responses to these, as
far as they fit into the buffer and in the same order; and there is one read at most that has not
been answered.  There are no more handlers than threads, and always one `async_accept`, or one
handler that is about to make it. -/
theorem answers_of_run {threadPoolSize : ℕ} {es : List Event} {os : List Unit}
    (hr : run Reactor.step { threadPoolSize } es = some (os, s)) :
    (∀ c, s.activities.countP (Activity.holds c) ≤ 1 ∧
        (s.connections c).executed.map Prod.fst <+: (s.connections c).reads ∧
        (s.connections c).answers <+: (s.connections c).executed.map answer ∧
        (s.connections c).reads.length ≤ (s.connections c).answers.length + 1) ∧
      s.activities.countP Activity.isHandler ≤ s.threadPoolSize ∧
      s.activities.countP Activity.accepts = 1 := by
  have h : s.Sound := run_invariant (P := fun _ _ ↦ True) (fun _ _ _ _ h _ hs ↦ h.step hs)
    (sound_start threadPoolSize) along_true hr
  refine ⟨fun c ↦ ⟨h.token c, ?_, ?_, ?_⟩, h.threads, h.acceptor⟩
  · exact (h.kept c).executed
  · exact (h.kept c).answers
  · exact (h.kept c).length_le

/-- A query and its answer, and another connection meanwhile. -/
def answered : List Event :=
  [.accepted true, .proceed .accepted [], .proceed (.start 0) [], .received 0 (some [66]),
    .proceed .doAccept [], .proceed .finished [], .accepted true, .proceed (.execute 0 1) [79, 75],
    .proceed .accepted [], .proceed (.copy 0 [79, 75]) [], .proceed (.write 0 2) [],
    .proceed .finished [], .sent 0 2 true]

theorem answers_of_run_two :
    ∃ os s, run Reactor.step { threadPoolSize := 2 } answered = some (os, s) ∧
      (∀ c, s.activities.countP (Activity.holds c) ≤ 1 ∧
        (s.connections c).executed.map Prod.fst <+: (s.connections c).reads ∧
        (s.connections c).answers <+: (s.connections c).executed.map answer ∧
        (s.connections c).reads.length ≤ (s.connections c).answers.length + 1) ∧
      (s.connections 0).answers = [[79, 75]] ∧ s.activities.countP Activity.isHandler ≤ 2 ∧
      s.activities.countP Activity.accepts = 1 := by
  have hrun : ∃ os s, run Reactor.step { threadPoolSize := 2 } answered = some (os, s) ∧
      s.threadPoolSize = 2 ∧ (s.connections 0).answers = [[79, 75]] := ⟨_, _, rfl, rfl, rfl⟩
  obtain ⟨os, s, hr, hthreads, hanswers⟩ := hrun
  obtain ⟨hconnections, hhandlers, haccepts⟩ := answers_of_run hr
  exact ⟨os, s, hr, hconnections, hanswers, hthreads ▸ hhandlers, haccepts⟩

end Reactor

end StingDB
