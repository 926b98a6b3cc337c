import NovusHeadless.Connection.ThreadSteps

/-!
# One outstanding read

`AsyncRead` is called by `Start` and from several places of `HandleRead`.

* `bufferOp` — the operation on the receive buffer that a statement executes;
* `Armed` — the invariant: while a completion handler runs, and before the first read, no read is
  outstanding; between two handlers an open connection has exactly one;
* `singleRead` — at most one read is outstanding, none while the buffer is moved, resized or cleared, and
  a connection that is not closed does not lose its read.
-/

namespace NovusHeadless

open Lib NovusConnection

/-- The operations that move, resize or clear the buffer. -/
inductive BufferOp where
  | cleanBuffer
  | recalculateSize
  | clean
  | readBytes
  deriving DecidableEq, Repr

namespace Threads

def ReadPc.bufferOp : ReadPc → Option BufferOp
  | .cleanBuffer => some .cleanBuffer
  | .recalculateSize => some .recalculateSize
  | .isOpen | .asyncReadSome => none

def StartPc.bufferOp : StartPc → Option BufferOp
  | .asyncRead pc => ReadPc.bufferOp pc
  | _ => none

def IoPc.bufferOp : IoPc → Option BufferOp
  | .asyncRead pc => ReadPc.bufferOp pc
  | .clean => some .clean
  | .readBytes _ => some .readBytes
  | _ => none

/-- The operation on the buffer in this step. -/
def bufferOp (t : Threads) : Action → Option BufferOp
  | .start => StartPc.bufferOp t.start
  | .complete _ => none
  | .io _ => IoPc.bufferOp t.io

/-- `Start` has issued its read. -/
def StartPc.issued : StartPc → Bool
  | .send | .username | .password | .passwordKey => true
  | .returned result => result
  | _ => false

/-- `Start` is behind a successful `connect`. -/
def StartPc.connected : StartPc → Bool
  | .connect | .returned false => false
  | _ => true

/-- Every hook of the step returns. -/
def HookReturns : Action → Prop
  | .io callHook => ∀ call, callHook call = true
  | _ => True

/-- The socket is connected, or it has been closed. -/
def Connected (c : NovusConnection) : Prop := c.isOpen = !c.isClosed

/-- The invariant. -/
structure Armed (t : Threads) : Prop where
  connected : StartPc.connected t.start = true → Connected t.connection
  /-- before the first read nothing is outstanding, and nothing can have closed the connection -/
  before : StartPc.issued t.start = false →
    t.io = .idle ∧ t.connection.reads = [] ∧ t.connection.writes = [] ∧
      t.connection.isClosed = false
  /-- a completion handler runs -/
  running : t.io ≠ .idle → t.connection.reads = []
  /-- no completion handler runs -/
  waiting : StartPc.issued t.start = true → t.io = .idle →
    t.connection.reads.length ≤ 1 ∧
      (t.connection.isClosed = true ∨ t.connection.reads.length = 1)

section

variable {env : Env} {login : Login} {t t' : Threads}

lemma armed_initial (proofM2 : Digest) : Armed (initial proofM2) where
  connected h := by simp [initial, StartPc.connected] at h
  before _ := ⟨rfl, rfl, rfl, rfl⟩
  running h := absurd rfl h
  waiting h := by simp [initial, StartPc.issued] at h

lemma Armed.issued_of_io (h : Armed t) (hio : t.io ≠ .idle) : StartPc.issued t.start = true := by
  cases hs : StartPc.issued t.start with
  | true => rfl
  | false => exact absurd (h.before hs).1 hio

lemma connected_of_issued {pc : StartPc} (h : StartPc.issued pc = true) :
    StartPc.connected pc = true := by
  cases pc with
  | returned result => cases result <;> simp_all [StartPc.issued, StartPc.connected]
  | connect => simp [StartPc.issued] at h
  | _ => rfl

lemma Armed.connected_of_issued (h : Armed t) (hs : StartPc.issued t.start = true) :
    Connected t.connection := h.connected (Threads.connected_of_issued hs)

/-- A completion handler runs: `Start` has issued its read, and that read is no longer outstanding. -/
lemma Armed.at_io (h : Armed t) {pc : IoPc} (hio : t.io = pc) (hpc : pc ≠ .idle) :
    StartPc.issued t.start = true ∧ Connected t.connection ∧ t.connection.reads = [] := by
  have hrun : t.io ≠ .idle := by
    rw [hio]
    exact hpc
  have hissued := h.issued_of_io hrun
  exact ⟨hissued, h.connected_of_issued hissued, h.running hrun⟩

lemma Armed.length_reads_le (h : Armed t) : t.connection.reads.length ≤ 1 := by
  by_cases hio : t.io = .idle
  · cases hs : StartPc.issued t.start with
    | true => exact (h.waiting hs hio).1
    | false => simp [(h.before hs).2.1]
  · simp [h.running hio]

lemma armed_of_running (hissued : StartPc.issued t.start = true) (hc : Connected t'.connection)
    (hstart : t'.start = t.start) (hreads : t'.connection.reads = []) (hio : t'.io ≠ .idle) :
    Armed t' where
  connected _ := hc
  before h := by
    rw [hstart, hissued] at h
    exact Bool.noConfusion h
  running _ := hreads
  waiting _ h := absurd h hio

lemma armed_of_idle (hissued : StartPc.issued t'.start = true) (hc : Connected t'.connection)
    (hio : t'.io = .idle) (hle : t'.connection.reads.length ≤ 1)
    (hreads : t'.connection.isClosed = true ∨ t'.connection.reads.length = 1) : Armed t' where
  connected _ := hc
  before h := by
    rw [hissued] at h
    exact Bool.noConfusion h
  running h := absurd hio h
  waiting _ _ := ⟨hle, hreads⟩

lemma idle_of_inner {returns isOpen : Bool} {pc : IoPc} (h : Inner returns isOpen pc .idle) :
    isOpen = false := by
  cases h with
  | exit h => cases h
  | notOpen h => exact h

lemma running_of_inner {returns isOpen : Bool} {pc pc' : IoPc} (h : Inner returns isOpen pc pc') :
    pc ≠ .idle := by
  intro hpc
  subst hpc
  cases h

/-- **A statement of a completion handler.** -/
lemma armed_io (h : Armed t) (hs : t.ioStep env = some t') : Armed t' := by
  cases ioStep_cases hs with
  | @inner c pc returns hcore _ hpc =>
    obtain ⟨hissued, hconn, hread⟩ := h.at_io rfl (running_of_inner hpc)
    have hsame := sameCore hcore
    have hc : Connected c := by
      unfold Connected
      rw [hsame.isOpen, hsame.isClosed]
      exact hconn
    have hreads : c.reads = [] := hsame.reads.trans hread
    by_cases hidle : pc = .idle
    · subst hidle
      refine armed_of_idle hissued hc rfl (by simp [hreads]) (.inl ?_)
      have hopen : t.connection.isOpen = false := idle_of_inner hpc
      rw [hconn] at hopen
      rw [hsame.isClosed]
      simpa using hopen
    · exact armed_of_running hissued hc rfl hreads hidle
  | @call command size hio =>
    obtain ⟨hissued, hconn, hread⟩ := h.at_io hio (by simp)
    cases command with
    | challenge => exact armed_of_running hissued hconn rfl hread (by simp [callHandler])
    | proof => exact armed_of_running hissued hconn rfl hread (by simp [callHandler])
  | key hio | proof hio =>
    obtain ⟨hissued, hconn, hread⟩ := h.at_io hio (by simp)
    exact armed_of_running hissued hconn rfl hread (by simp)
  | @send size packet hio =>
    obtain ⟨hissued, hconn, hread⟩ := h.at_io hio (by simp)
    obtain ⟨hopen, hclosed, hreads⟩ := send_socket t.connection packet
    refine armed_of_running hissued ?_ rfl (hreads.trans hread) (by simp)
    unfold Connected
    rw [hopen, hclosed]
    exact hconn
  | read hio =>
    obtain ⟨hissued, hconn, hread⟩ := h.at_io hio (by simp)
    exact armed_of_idle hissued hconn rfl (by simp [hread]) (.inr (by simp [hread]))
  | close hio =>
    obtain ⟨hissued, -, hread⟩ := h.at_io hio (by simp)
    have hle : t.connection.reads.length ≤ 1 := by simp [hread]
    exact armed_of_idle hissued rfl rfl hle (.inl rfl)

/-- **A completion.**  It is of an operation that is outstanding, so `Start` has issued its read. -/
lemma armed_complete {i : Completion} (h : Armed t) (hidle : t.io = .idle)
    (hs : t.complete i = some t') : Armed t' := by
  have hissued : (t.connection.reads ≠ [] ∨ t.connection.writes ≠ []) →
      StartPc.issued t.start = true := by
    intro hout
    cases hstart : StartPc.issued t.start with
    | true => rfl
    | false =>
      obtain ⟨-, hr, hw, -⟩ := h.before hstart
      rcases hout with hout | hout
      · exact absurd hr hout
      · exact absurd hw hout
  cases i with
  | read op chunk =>
    simp only [complete, Option.ite_none_right_eq_some, Option.some.injEq] at hs
    obtain ⟨⟨hop, -⟩, rfl⟩ := hs
    have hi := hissued (.inl (List.ne_nil_of_mem hop))
    refine armed_of_running hi (h.connected_of_issued hi) rfl ?_ fun h => IoPc.noConfusion h
    show t.connection.reads.erase op = []
    have hlen := List.length_erase_of_mem hop
    have hle := h.length_reads_le
    apply List.eq_nil_of_length_eq_zero
    omega
  | readError op =>
    simp only [complete, Option.ite_none_right_eq_some, Option.some.injEq] at hs
    obtain ⟨hop, rfl⟩ := hs
    have hi := hissued (.inl (List.ne_nil_of_mem hop))
    refine armed_of_idle hi rfl hidle ?_ (.inl rfl)
    exact (List.length_erase_le ..).trans h.length_reads_le
  | write data error =>
    simp only [complete, Option.ite_none_right_eq_some, Option.some.injEq] at hs
    obtain ⟨hop, rfl⟩ := hs
    have hi := hissued (.inr (List.ne_nil_of_mem hop))
    cases error with
    | false =>
      exact armed_of_idle hi (h.connected_of_issued hi) hidle h.length_reads_le
        (h.waiting hi hidle).2
    | true => exact armed_of_idle hi rfl hidle h.length_reads_le (.inl rfl)

lemma armed_of_socket (h : Armed t) (hs : StartPc.issued t'.start = StartPc.issued t.start)
    (hconn : StartPc.connected t'.start = true → Connected t'.connection) (hio : t'.io = t.io)
    (hc : t'.connection.isClosed = t.connection.isClosed)
    (hr : t'.connection.reads = t.connection.reads)
    (hw : StartPc.issued t'.start = false → t'.connection.writes = t.connection.writes) :
    Armed t' where
  connected := hconn
  before hi := by
    rw [hio, hr, hw hi, hc]
    exact h.before (hs ▸ hi)
  running := by
    rw [hio, hr]
    exact h.running
  waiting := by
    rw [hs, hio, hr, hc]
    exact h.waiting

/-- **A statement of `Start`.** -/
lemma armed_start (h : Armed t) (hs : t.startStep env login = some t') : Armed t' := by
  cases startStep_cases hs with
  | connect hstart =>
    obtain ⟨hio, hr, hw, hc⟩ := h.before (by rw [hstart]; rfl)
    refine ⟨?_, fun _ => ⟨hio, hr, hw, hc⟩, fun _ => hr, fun h => by simp [StartPc.issued] at h⟩
    intro _
    show true = !t.connection.isClosed
    rw [hc]
    rfl
  | failed hstart =>
    exact armed_of_socket h (by rw [hstart]; rfl) (fun h => by simp [StartPc.connected] at h) rfl rfl
      rfl fun _ => rfl
  | packet hstart =>
    exact armed_of_socket h (by rw [hstart]; rfl) (fun _ => h.connected (by rw [hstart]; rfl)) rfl rfl
      rfl fun _ => rfl
  | @inner c pc next hstart hcore =>
    have hsame := sameCore hcore
    refine armed_of_socket h (by rw [hstart]; rfl) ?_ rfl hsame.isClosed hsame.reads
      fun _ => hsame.writes
    intro _
    show c.isOpen = !c.isClosed
    rw [hsame.isOpen, hsame.isClosed]
    exact h.connected (by rw [hstart]; rfl)
  | notOpen hstart ho =>
    -- the socket is open here: nothing can have closed it yet
    obtain ⟨-, -, -, hc⟩ := h.before (by rw [hstart]; rfl)
    have hopen : t.connection.isOpen = !t.connection.isClosed := h.connected (by rw [hstart]; rfl)
    rw [ho, hc] at hopen
    exact Bool.noConfusion hopen
  | read hstart =>
    obtain ⟨hio, hr, -, -⟩ := h.before (by rw [hstart]; rfl)
    exact armed_of_idle rfl (h.connected (by rw [hstart]; rfl)) hio (by simp [hr])
      (.inr (by simp [hr]))
  | send hstart =>
    obtain ⟨hopen, hclosed, hreads⟩ := send_socket t.connection t.packet
    refine armed_of_socket h (by rw [hstart]; rfl) ?_ rfl hclosed hreads
      fun h => by simp [StartPc.issued] at h
    intro _
    show (t.connection.send t.packet).isOpen = !(t.connection.send t.packet).isClosed
    rw [hopen, hclosed]
    exact h.connected (by rw [hstart]; rfl)
  | username hstart | password hstart | passwordKey hstart =>
    exact armed_of_socket h (by rw [hstart]; rfl) (fun _ => h.connected (by rw [hstart]; rfl)) rfl rfl
      rfl fun _ => rfl

theorem armed_step {a : Action} (h : Armed t) (hs : t.step env login a = some t') : Armed t' := by
  cases a with
  | start => exact armed_start h hs
  | complete i => exact armed_complete h (step_complete hs).1 (step_complete hs).2
  | io callHook => exact armed_io h hs

/-! ### The buffer -/

lemma io_idle_of_reads (h : Armed t) (hr : t.connection.reads ≠ []) : t.io = .idle := by
  by_contra hio
  exact hr (h.running hio)

lemma issued_of_reads (h : Armed t) (hr : t.connection.reads ≠ []) :
    StartPc.issued t.start = true := by
  cases hs : StartPc.issued t.start with
  | true => rfl
  | false => exact absurd (h.before hs).2.1 hr

theorem bufferOp_of_reads (h : Armed t) (hr : t.connection.reads ≠ []) (a : Action) :
    t.bufferOp a = none := by
  have hidle := io_idle_of_reads h hr
  have hissued := issued_of_reads h hr
  cases a with
  | start =>
    unfold bufferOp
    cases hs : t.start with
    | asyncRead pc =>
      rw [hs] at hissued
      exact absurd hissued (by simp [StartPc.issued])
    | _ => rfl
  | complete i => rfl
  | io callHook =>
    unfold bufferOp
    rw [hidle]
    rfl

theorem byteBuffer_of_reads (h : Armed t) (hr : t.connection.reads ≠ []) {a : Action}
    (hs : t.step env login a = some t') (ha : ∀ i, a ≠ .complete i) :
    t'.connection.byteBuffer = t.connection.byteBuffer := by
  have hidle := io_idle_of_reads h hr
  have hissued := issued_of_reads h hr
  cases a with
  | start =>
    cases startStep_cases hs with
    | inner hstart =>
      rw [hstart] at hissued
      exact absurd hissued (by simp [StartPc.issued])
    | send => exact send_byteBuffer _ _
    | _ => rfl
  | complete i => exact absurd rfl (ha i)
  | io callHook =>
    simp only [step, ioStep, hidle] at hs
    exact absurd hs (by simp)

/-! ### Hooks that return -/

lemma left_of_inner {returns isOpen : Bool} {pc : IoPc} (h : Inner returns isOpen pc .left) :
    returns = false := by
  cases h with
  | exit h => cases h
  | headerLeft _ h => exact h
  | challengeLeft _ h => exact h

lemma io_ne_left {a : Action} (h : t.io ≠ .left) (hk : HookReturns a)
    (hs : t.step env login a = some t') : t'.io ≠ .left := by
  cases a with
  | start =>
    cases startStep_cases hs <;> exact h
  | complete i =>
    obtain ⟨-, -, -, -, -, hio⟩ := complete_cases (step_complete hs).2
    rcases hio with hio | hio
    · rw [hio]
      exact h
    · rw [hio]
      exact fun h => IoPc.noConfusion h
  | io callHook =>
    cases ioStep_cases hs with
    | inner _ hreturns hpc =>
      intro hleft
      simp only at hleft
      rw [hleft, hreturns hk] at hpc
      exact Bool.noConfusion (left_of_inner hpc)
    | @call command => cases command <;> exact fun h => IoPc.noConfusion h
    | _ => exact fun h => IoPc.noConfusion h

end

/-- The property of a step. -/
structure OneRead (t : Threads) (a : Action) (t' : Threads) : Prop where
  atMostOne : t'.connection.reads.length ≤ 1
  /-- while a read is outstanding, no operation on the buffer is executed -/
  noOperation : t.connection.reads ≠ [] → t.bufferOp a = none
  /-- and no statement changes the buffer -/
  unchanged : t.connection.reads ≠ [] → (∀ i, a ≠ .complete i) →
    t'.connection.byteBuffer = t.connection.byteBuffer
  present : t'.io ≠ .left
  /-- no completion handler is running -/
  waiting : StartPc.issued t'.start = true → t'.io = .idle →
    t'.connection.isClosed = true ∨ t'.connection.reads.length = 1

end Threads

open Threads in
/-- **A single outstanding read.**  In every run of a login whose hooks return, with completions of reads
and writes in any order and with any result: no more than one read is outstanding; while one is, no
statement executes an operation on the buffer or changes it; and whenever no completion handler runs
behind the first read, the connection is closed or exactly one read is outstanding. -/
theorem singleRead (env : Env) (login : Login) (proofM2 : Digest) {is : List Action}
    (hk : ∀ a ∈ is, HookReturns a) :
    Along (step env login) OneRead (initial proofM2) is := by
  have hstep : ∀ (t : Threads) (a : Action) (t' : Threads), Armed t ∧ t.io ≠ .left →
      step env login t a = some t' → HookReturns a →
      (Armed t' ∧ t'.io ≠ .left) ∧ OneRead t a t' := by
    intro t a t' hinv hs hk
    obtain ⟨h, hleft⟩ := hinv
    have h' := armed_step h hs
    have hleft' := io_ne_left hleft hk hs
    refine ⟨⟨h', hleft'⟩, h'.length_reads_le, ?_, ?_, hleft', ?_⟩
    · intro hr
      exact bufferOp_of_reads h hr a
    · intro hr
      exact byteBuffer_of_reads h hr hs
    · intro hissued hidle
      exact (h'.waiting hissued hidle).2
  have hcond : Along (step env login) (fun _ a _ => HookReturns a) (initial proofM2) is :=
    along_of_forall (fun a ha _ _ => hk a ha) _
  have hinit : Armed (initial proofM2) ∧ (initial proofM2).io ≠ .left :=
    ⟨armed_initial proofM2, fun h => IoPc.noConfusion h⟩
  exact along_of_inv_of hstep hinit hcond

open Threads in
/-- A read of two bytes, which are too few, up to the next read behind the handler. -/
theorem singleRead_sample :
    ((run (step sampleEnv ⟨[0x41], [0x42]⟩) (initial (Vector.replicate 20 0))
      [.start, .start, .start, .start, .start, .start, .complete (.read ⟨0, 4096⟩ [0, 0]), .start,
        .io fun _ => true, .io fun _ => true, .io fun _ => true, .io fun _ => true,
        .io fun _ => true, .io fun _ => true, .io fun _ => true]).map
          fun t => (t.io, t.connection.reads)) = some (.idle, [⟨2, 4094⟩]) ∧
    Along (step sampleEnv ⟨[0x41], [0x42]⟩) OneRead (initial (Vector.replicate 20 0))
      [.start, .start, .start, .start, .start, .start, .complete (.read ⟨0, 4096⟩ [0, 0]), .start,
        .io fun _ => true, .io fun _ => true, .io fun _ => true, .io fun _ => true,
        .io fun _ => true, .io fun _ => true, .io fun _ => true] := by
  refine ⟨by decide +kernel, ?_⟩
  refine singleRead sampleEnv ⟨[0x41], [0x42]⟩ (Vector.replicate 20 0) ?_
  intro a ha
  fin_cases ha <;> simp [HookReturns]

end NovusHeadless
