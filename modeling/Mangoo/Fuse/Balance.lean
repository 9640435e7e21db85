import Mangoo.Foundation.Runs
import Mangoo.Fuse.Operations

/-!
# Handles of the path operations

A path operation over inner calls with arbitrary outcomes, which appends the calls it makes
to a log.  Every exit of `mf_getattr`, `mf_utime` and `mf_truncate` closes the handle once
and carries the right code.  `mf_chmod` and `mf_chown` drop the code of a call that fails
and keep the handle of one that succeeds.
-/

namespace Mangoo.Fuse

open Mangoo.Foundation Mangoo.Dbfs

/-! ## Logged calls -/

/-- A call with the code it returned.  `opened` with code zero gives out the handle. -/
inductive CallEvent where
  | opened (error : Int) (handle : Nat)
  | attr (handle : Nat) (error : Int)
  | closed (handle : Nat) (error : Int)
  deriving DecidableEq

/-- The outcome of each call, zero for success.  The log grows with every call, so that
these functions give every sequence of outcomes. -/
structure Answers where
  openError : List CallEvent → Int
  attrError : List CallEvent → Int
  closeError : List CallEvent → Int
  word : List CallEvent → UInt32
  long : List CallEvent → Int64

namespace Answers

variable (answers : Answers)

def attrGet {α : Type} (value : List CallEvent → α) (handle : Nat) :
    StateM (List CallEvent) (Except Int α) := fun log =>
  (if answers.attrError log = 0 then .ok (value log) else .error (answers.attrError log),
    log ++ [.attr handle (answers.attrError log)])

def attrSet (handle : Nat) : StateM (List CallEvent) (Int × Nat) := fun log =>
  ((answers.attrError log, handle), log ++ [.attr handle (answers.attrError log)])

/-- A handle is the position of its opening in the log. -/
def calls : AttrCalls (StateM (List CallEvent)) Nat where
  mangooOpen _ _ := fun log =>
    (if answers.openError log = 0 then .ok log.length else .error (answers.openError log),
      log ++ [.opened (answers.openError log) log.length])
  mangooClose handle := fun log =>
    (answers.closeError log, log ++ [.closed handle (answers.closeError log)])
  mattrGettype := answers.attrGet answers.word
  mattrGetsize := answers.attrGet answers.long
  mattrSetsize handle _ := answers.attrSet handle
  mattrGetmtime := answers.attrGet answers.long
  mattrSetmtime handle _ := answers.attrSet handle
  mattrGetatime := answers.attrGet answers.long
  mattrSetatime handle _ := answers.attrSet handle
  mattrGetmode := answers.attrGet answers.word
  mattrChmod handle _ := answers.attrSet handle
  mattrChown handle _ _ := answers.attrSet handle
  mattrGetuid := answers.attrGet answers.word
  mattrGetgid := answers.attrGet answers.word

end Answers

inductive PathOp where
  | getattr (stbuf : Stat)
  | chmod (mode : UInt32)
  | chown (newuid newgid : UInt32)
  | utime (utb : Utimbuf)
  | truncate (offset : Int64)

def PathOp.exec {m : Type → Type} [Monad m] {H : Type} (calls : AttrCalls m H) (path : CStr) :
    PathOp → m Int
  | .getattr stbuf => do
      let (error, _) ← mfGetattr calls path stbuf
      return error
  | .chmod mode => mfChmod calls path mode
  | .chown newuid newgid => mfChown calls path newuid newgid
  | .utime utb => mfUtime calls path utb
  | .truncate offset => mfTruncate calls path offset

/-! ## What an operation owes -/

/-- The code that a failed opening or a failed call on a handle returned. -/
def CallEvent.failure? : CallEvent → Option Int
  | .opened error _ | .attr _ error => if error = 0 then none else some error
  | .closed _ _ => none

def firstFailure (events : List CallEvent) : Option Int :=
  events.findSome? CallEvent.failure?

def CallEvent.closes (handle : Nat) : CallEvent → Bool
  | .closed h _ => h == handle
  | _ => false

structure Handled (events : List CallEvent) (result : Int) : Prop where
  zero : result = 0 → firstFailure events = none
  reports : ∀ error, firstFailure events = some error → result = -error
  closed : ∀ handle, .opened 0 handle ∈ events →
    events.countP (CallEvent.closes handle) = 1

/-- The operation, started with this log, makes calls that it handles. -/
def PathOp.Handles (op : PathOp) (answers : Answers) (path : CStr) (log : List CallEvent) :
    Prop :=
  ∃ events result, (op.exec answers.calls path).run log = (result, log ++ events) ∧
    Handled events result

/-- The operations that leave without closing a handle that served them. -/
def PathOp.keepsHandle : PathOp → Bool
  | .chmod _ | .chown _ _ => true
  | _ => false

def IsOpen (log : List CallEvent) (handle : Nat) : Prop :=
  .opened 0 handle ∈ log ∧ log.countP (CallEvent.closes handle) = 0

structure PathCall where
  path : CStr
  op : PathOp

def PathCall.Step (answers : Answers) (log : List CallEvent) (call : PathCall)
    (log' : List CallEvent) : Prop :=
  ∃ result, (call.op.exec answers.calls call.path).run log = (result, log')

@[simp] theorem firstFailure_append (first second : List CallEvent) :
    firstFailure (first ++ second) = (firstFailure first).or (firstFailure second) :=
  List.findSome?_append

@[simp] theorem firstFailure_nil : firstFailure [] = none := rfl

@[simp] theorem firstFailure_cons (event : CallEvent) (events : List CallEvent) :
    firstFailure (event :: events) = event.failure?.or (firstFailure events) := by
  rw [firstFailure, List.findSome?_cons]
  cases event.failure? <;> rfl

theorem CallEvent.failure?_ne_zero {event : CallEvent} {error : Int}
    (h : event.failure? = some error) : error ≠ 0 := by
  cases event with
  | opened code handle =>
      obtain ⟨hcode, rfl⟩ : code ≠ 0 ∧ code = error := by simpa [CallEvent.failure?] using h
      exact hcode
  | attr handle code =>
      obtain ⟨hcode, rfl⟩ : code ≠ 0 ∧ code = error := by simpa [CallEvent.failure?] using h
      exact hcode
  | closed handle code => simp [CallEvent.failure?] at h

theorem Handled.of_reports {events : List CallEvent} {result : Int}
    (hreports : ∀ error, firstFailure events = some error → result = -error)
    (hclosed : ∀ handle, .opened 0 handle ∈ events →
      events.countP (CallEvent.closes handle) = 1) : Handled events result where
  zero hzero := by
    cases hfirst : firstFailure events with
    | none => rfl
    | some error =>
        obtain ⟨event, -, hevent⟩ := List.exists_of_findSome?_eq_some hfirst
        have hresult := hreports error hfirst
        have hne := CallEvent.failure?_ne_zero hevent
        omega
  reports := hreports
  closed := hclosed

/-! ## Calls in sequence -/

/-- The rest of an operation that was started with `log` and has made the calls `seen`. -/
def HandledFrom {α : Type} (log seen : List CallEvent) (code : α → Int)
    (rest : StateM (List CallEvent) α) : Prop :=
  ∃ events a, rest.run (log ++ seen) = (a, log ++ seen ++ events) ∧
    Handled (seen ++ events) (code a)

section Calls

variable {α γ : Type} {log seen : List CallEvent} {code : α → Int} {handle : Nat}

theorem HandledFrom.pure {a : α} (h : Handled seen (code a)) :
    HandledFrom log seen code (pure a) :=
  ⟨[], a, by rw [List.append_nil]; rfl, by rwa [List.append_nil]⟩

theorem HandledFrom.bind {call : StateM (List CallEvent) γ}
    {next : γ → StateM (List CallEvent) α} {b : γ} {event : CallEvent}
    (hcall : call.run (log ++ seen) = (b, log ++ seen ++ [event]))
    (hnext : HandledFrom log (seen ++ [event]) code (next b)) :
    HandledFrom log seen code (call >>= next) := by
  obtain ⟨events, a, hrun, hhandled⟩ := hnext
  refine ⟨event :: events, a, ?_, by simpa using hhandled⟩
  rw [StateT.run_bind, hcall]
  change (next b).run (log ++ seen ++ [event]) = _
  rw [List.append_assoc log seen, hrun]
  simp

/-- The handle is out and every call so far succeeded. -/
structure Serving (handle : Nat) (seen : List CallEvent) : Prop where
  failure : firstFailure seen = none
  opened : ∀ h, .opened 0 h ∈ seen → h = handle
  closed : seen.countP (CallEvent.closes handle) = 0

namespace Serving

theorem start (handle : Nat) : Serving handle [.opened 0 handle] where
  failure := by simp [CallEvent.failure?]
  opened h hmem := by simpa using hmem
  closed := by simp [CallEvent.closes]

theorem attr (h : Serving handle seen) : Serving handle (seen ++ [.attr handle 0]) where
  failure := by simp [h.failure, CallEvent.failure?]
  opened h' hmem := h.opened h' (by simpa using hmem)
  closed := by simp [h.closed, CallEvent.closes]

theorem close (h : Serving handle seen) (error result : Int) :
    Handled (seen ++ [.closed handle error]) result := by
  refine .of_reports ?_ ?_
  · intro code hcode
    simp [h.failure, CallEvent.failure?] at hcode
  · intro h' hmem
    have hhandle : h' = handle := h.opened h' (by simpa using hmem)
    subst hhandle
    simp [h.closed, CallEvent.closes]

theorem fail (h : Serving handle seen) {error : Int} (herror : error ≠ 0) (code : Int) :
    Handled (seen ++ [.attr handle error] ++ [.closed handle code]) (-error) := by
  refine .of_reports ?_ ?_
  · intro first hfirst
    have heq : error = first := by
      simpa [h.failure, CallEvent.failure?, herror] using hfirst
    rw [heq]
  · intro h' hmem
    have hhandle : h' = handle := h.opened h' (by simpa using hmem)
    subst hhandle
    simp [h.closed, CallEvent.closes]

end Serving

variable {answers : Answers}

theorem run_mangooClose :
    (answers.calls.mangooClose handle).run (log ++ seen) =
      (answers.closeError (log ++ seen),
        log ++ seen ++ [.closed handle (answers.closeError (log ++ seen))]) :=
  rfl

theorem run_attrSet :
    (answers.attrSet handle).run (log ++ seen) =
      ((answers.attrError (log ++ seen), handle),
        log ++ seen ++ [.attr handle (answers.attrError (log ++ seen))]) :=
  rfl

theorem Serving.getOrErrout2 {value : List CallEvent → α} {stbuf : Stat}
    {next : α → StateM (List CallEvent) (Int × Stat)} (h : Serving handle seen)
    (hnext : ∀ a seen', Serving handle seen' → HandledFrom log seen' Prod.fst (next a)) :
    HandledFrom log seen Prod.fst
      (getOrErrout2 answers.calls handle (answers.attrGet value) stbuf next) := by
  have hget : (answers.attrGet value handle).run (log ++ seen) =
      (if answers.attrError (log ++ seen) = 0 then .ok (value (log ++ seen))
          else .error (answers.attrError (log ++ seen)),
        log ++ seen ++ [.attr handle (answers.attrError (log ++ seen))]) := rfl
  refine .bind hget ?_
  by_cases hzero : answers.attrError (log ++ seen) = 0
  · rw [if_pos hzero, hzero]
    exact hnext _ _ h.attr
  · rw [if_neg hzero]
    exact .bind run_mangooClose (.pure (h.fail hzero _))

theorem Serving.getattrSwitch (h : Serving handle seen) (stbuf : Stat) (type : UInt32) :
    HandledFrom log seen Prod.fst (getattrSwitch answers.calls handle stbuf type) := by
  have hclose : ∀ stbuf,
      HandledFrom log seen Prod.fst (getattrSwitch.closeGetattr answers.calls handle stbuf) := by
    intro stbuf
    refine .bind run_mangooClose ?_
    split_ifs
    · exact .pure (h.close _ _)
    · exact .pure (h.close _ _)
  unfold Fuse.getattrSwitch
  split
  · exact hclose _
  · exact hclose _
  · exact .bind run_mangooClose (.pure (h.close _ _))

theorem HandledFrom.bind_open {path : CStr} {next : Except Int Nat → StateM (List CallEvent) α}
    (hserved : answers.openError log = 0 →
      HandledFrom log [.opened 0 log.length] code (next (.ok log.length)))
    (hfailed : ∀ error, error ≠ 0 → ∃ a, next (.error error) = Pure.pure a ∧ code a = -error) :
    HandledFrom log [] code (answers.calls.mangooOpen path .attr >>= next) := by
  have hopen : (answers.calls.mangooOpen path .attr).run (log ++ []) =
      (if answers.openError log = 0 then .ok log.length
          else .error (answers.openError log),
        log ++ [] ++ [.opened (answers.openError log) log.length]) := by
    rw [List.append_nil]
    rfl
  refine .bind hopen ?_
  by_cases hzero : answers.openError log = 0
  · rw [if_pos hzero, hzero]
    exact hserved hzero
  · obtain ⟨a, hnext, hcode⟩ := hfailed _ hzero
    rw [if_neg hzero, hnext]
    refine .pure (.of_reports ?_ ?_)
    · intro error herror
      have heq : answers.openError log = error := by
        simpa [CallEvent.failure?, hzero] using herror
      rw [hcode, heq]
    · intro handle hmem
      obtain ⟨hopened, -⟩ : 0 = answers.openError log ∧ handle = log.length := by
        simpa using hmem
      exact absurd hopened.symm hzero

theorem Serving.attrSet {next : Int × Nat → StateM (List CallEvent) α}
    (h : Serving handle seen)
    (hserved : ∀ seen', Serving handle seen' →
      HandledFrom log seen' code (next (0, handle)))
    (hfailed : ∀ error, error ≠ 0 → ∃ a, code a = -error ∧
      next (error, handle) = answers.calls.mangooClose handle >>= fun _ => Pure.pure a) :
    HandledFrom log seen code (answers.attrSet handle >>= next) := by
  refine .bind run_attrSet ?_
  by_cases hzero : answers.attrError (log ++ seen) = 0
  · rw [hzero]
    exact hserved _ h.attr
  · obtain ⟨a, hcode, hnext⟩ := hfailed _ hzero
    rw [hnext]
    refine .bind run_mangooClose (.pure ?_)
    rw [hcode]
    exact h.fail hzero _

theorem HandledFrom.fst {rest : StateM (List CallEvent) (Int × Stat)}
    (h : HandledFrom log seen Prod.fst rest) :
    HandledFrom log seen id (rest >>= fun result => Pure.pure result.1) := by
  obtain ⟨events, a, hrun, hhandled⟩ := h
  refine ⟨events, a.1, ?_, hhandled⟩
  rw [StateT.run_bind, hrun]
  rfl

end Calls

/-! ## The operations -/

theorem handledFrom_mfGetattr (answers : Answers) (path : CStr) (stbuf : Stat)
    (log : List CallEvent) :
    HandledFrom log [] Prod.fst (mfGetattr answers.calls path stbuf) := by
  refine .bind_open (fun _ => ?_) (fun error _ => ⟨_, rfl, rfl⟩)
  refine (Serving.start log.length).getOrErrout2 fun uid seen hserving => ?_
  refine hserving.getOrErrout2 fun gid seen hserving => ?_
  refine hserving.getOrErrout2 fun mtime seen hserving => ?_
  refine hserving.getOrErrout2 fun atime seen hserving => ?_
  refine hserving.getOrErrout2 fun size seen hserving => ?_
  refine hserving.getOrErrout2 fun mode seen hserving => ?_
  refine hserving.getOrErrout2 fun type seen hserving => ?_
  exact hserving.getattrSwitch _ type

theorem handledFrom_mfUtime (answers : Answers) (path : CStr) (utb : Utimbuf)
    (log : List CallEvent) :
    HandledFrom log [] id (mfUtime answers.calls path utb) := by
  refine .bind_open (fun _ => ?_) (fun error _ => ⟨_, rfl, rfl⟩)
  refine (Serving.start log.length).attrSet (fun seen hserving => ?_) fun error herror => ?_
  · refine hserving.attrSet (fun seen hserving => ?_) fun error herror => ?_
    · refine .bind run_mangooClose ?_
      split_ifs
      · exact .pure (hserving.close _ _)
      · exact .pure (hserving.close _ _)
    · exact ⟨-error, rfl, if_pos herror⟩
  · exact ⟨-error, rfl, if_pos herror⟩

theorem handledFrom_mfTruncate (answers : Answers) (path : CStr) (offset : Int64)
    (log : List CallEvent) :
    HandledFrom log [] id (mfTruncate answers.calls path offset) := by
  refine .bind_open (fun _ => ?_) (fun error _ => ⟨_, rfl, rfl⟩)
  refine (Serving.start log.length).attrSet (fun seen hserving => ?_) fun error _ => ?_
  · exact .bind run_mangooClose (.pure (hserving.close _ _))
  · exact ⟨-error, rfl, rfl⟩

theorem HandledFrom.handles {op : PathOp} {answers : Answers} {path : CStr}
    {log : List CallEvent} (h : HandledFrom log [] id (op.exec answers.calls path)) :
    op.Handles answers path log := by
  obtain ⟨events, result, hrun, hhandled⟩ := h
  rw [List.append_nil] at hrun
  exact ⟨events, result, hrun, hhandled⟩

/-- In the log `mf_chown` and `mf_chmod` look the same. -/
theorem exec_of_keepsHandle {op : PathOp} (hop : op.keepsHandle = true) (answers : Answers)
    (path : CStr) : op.exec answers.calls path = mfChmod answers.calls path 0 := by
  cases op with
  | chmod mode => rfl
  | chown newuid newgid => rfl
  | getattr stbuf => simp [PathOp.keepsHandle] at hop
  | utime utb => simp [PathOp.keepsHandle] at hop
  | truncate offset => simp [PathOp.keepsHandle] at hop

theorem run_mfChmod_opened {answers : Answers} {log : List CallEvent}
    (hopen : answers.openError log = 0) (path : CStr) :
    ∃ error last, (mfChmod answers.calls path 0).run log =
        (0, log ++ [.opened 0 log.length] ++ [.attr log.length error] ++ last) ∧
      (error = 0 → last = []) := by
  have hrun : (answers.calls.mangooOpen path .attr).run log =
      (.ok log.length, log ++ [.opened 0 log.length]) := by
    change (if answers.openError log = 0 then _ else _, _) = _
    rw [if_pos hopen, hopen]
  rw [mfChmod, StateT.run_bind, hrun]
  change ∃ error last, (answers.attrSet log.length >>= _).run (log ++ [.opened 0 log.length]) =
    _ ∧ _
  rw [StateT.run_bind, run_attrSet]
  by_cases hzero : answers.attrError (log ++ [.opened 0 log.length]) = 0
  · refine ⟨0, [], ?_, fun _ => rfl⟩
    rw [hzero, List.append_nil]
    rfl
  · refine ⟨_, ?_, ?_, fun hcode => absurd hcode hzero⟩
    rotate_left
    · change StateT.run (if answers.attrError _ ≠ 0 then _ else _) _ = _
      rw [if_pos hzero]
      rfl

theorem handles_iff (answers : Answers) (path : CStr) (log : List CallEvent) (op : PathOp) :
    op.Handles answers path log ↔ (op.keepsHandle = true → answers.openError log ≠ 0) := by
  constructor
  · rintro ⟨events, result, hrun, hhandled⟩ hop hopen
    obtain ⟨error, last, hrun', hlast⟩ := run_mfChmod_opened hopen path
    rw [exec_of_keepsHandle hop] at hrun
    obtain ⟨rfl, hevents⟩ := Prod.mk.inj (hrun.symm.trans hrun')
    rw [List.append_assoc, List.append_assoc] at hevents
    obtain rfl := List.append_cancel_left hevents
    have hfailure := hhandled.zero rfl
    by_cases hzero : error = 0
    · have hclosed := hhandled.closed log.length (by simp)
      rw [hlast hzero] at hclosed
      simp [CallEvent.closes] at hclosed
    · simp [CallEvent.failure?, hzero] at hfailure
  · intro hcond
    apply HandledFrom.handles
    cases hop : op.keepsHandle with
    | true =>
        rw [exec_of_keepsHandle hop]
        exact .bind_open (fun hopen => absurd hopen (hcond hop)) fun error _ => ⟨_, rfl, rfl⟩
    | false =>
        cases op with
        | getattr stbuf => exact (handledFrom_mfGetattr answers path stbuf log).fst
        | utime utb => exact handledFrom_mfUtime answers path utb log
        | truncate offset => exact handledFrom_mfTruncate answers path offset log
        | chmod mode => simp [PathOp.keepsHandle] at hop
        | chown newuid newgid => simp [PathOp.keepsHandle] at hop

/-! ## Runs -/

variable {answers : Answers} {log log' : List CallEvent}

theorem isOpen_of_step {call : PathCall} (hstep : call.Step answers log log')
    (hcall : call.op.keepsHandle = true → answers.openError log ≠ 0) {handle : Nat}
    (hopen : IsOpen log' handle) : IsOpen log handle := by
  obtain ⟨events, result, hrun, hhandled⟩ := (handles_iff answers call.path log call.op).mpr hcall
  obtain ⟨result', hrun'⟩ := hstep
  obtain ⟨-, rfl⟩ := Prod.mk.inj (hrun.symm.trans hrun')
  obtain ⟨hmem, hclosed⟩ := hopen
  rw [List.countP_append, Nat.add_eq_zero_iff] at hclosed
  obtain hbefore | hduring := List.mem_append.mp hmem
  · exact ⟨hbefore, hclosed.1⟩
  · have honce := hhandled.closed handle hduring
    omega

/-- A path operation reports the first failure and closes its handle once exactly if it is
none of `mf_chmod` and `mf_chown` or got no handle, and in a run of such operations no
handle is left open. -/
theorem pathOps_handle_iff (answers : Answers) :
    (∀ path op log, PathOp.Handles op answers path log ↔
      (op.keepsHandle = true → answers.openError log ≠ 0)) ∧
    ∀ start calls log,
      Run (fun log (call : PathCall) log' => call.Step answers log log' ∧
        (call.op.keepsHandle = true → answers.openError log ≠ 0)) start calls log →
      ∀ handle, IsOpen log handle → IsOpen start handle := by
  constructor
  · intro path op log
    exact handles_iff answers path log op
  · intro start calls log hrun handle
    apply hrun.invariant (I := fun log => IsOpen log handle → IsOpen start handle)
    · exact id
    · rintro log call log' ih ⟨hstep, hcall⟩ hopen
      exact ih (isOpen_of_step hstep hcall hopen)

def openingOnce : Answers where
  openError log := if log = [] then 0 else enoent
  attrError _ := 0
  closeError _ := 0
  word _ := 0
  long _ := 0

/-- What a `truncate` that closes its handle and a `chmod` that gets none leave. -/
def closedLog : List CallEvent :=
  [.opened 0 0, .attr 0 0, .closed 0 0, .opened enoent 3]

theorem pathOps_handle_iff_run : ∀ handle, ¬ IsOpen closedLog handle := by
  intro handle hopen
  obtain ⟨-, hruns⟩ := pathOps_handle_iff openingOnce
  have hrun : Run (fun log (call : PathCall) log' => call.Step openingOnce log log' ∧
      (call.op.keepsHandle = true → openingOnce.openError log ≠ 0)) []
      [⟨pathA, .truncate 5⟩, ⟨pathB, .chmod 0o600⟩] closedLog :=
    .cons ⟨⟨_, rfl⟩, fun hkeeps => by cases hkeeps⟩ (.single ⟨⟨_, rfl⟩, fun _ => by decide⟩)
  exact absurd (hruns _ _ _ hrun handle hopen).1 List.not_mem_nil

/-- Openings and closings succeed, every call on a handle fails with `EACCES`. -/
def refusing : Answers where
  openError _ := 0
  attrError _ := 13
  closeError _ := 0
  word _ := 0
  long _ := 0

/-- The `chmod` returns zero although `mattr_chmod` failed. -/
theorem chmod_swallows_error :
    ¬ ∀ answers path op log, PathOp.Handles op answers path log := by
  intro h
  exact (handles_iff refusing pathA [] (.chmod 0o600)).mp (h _ _ _ _) rfl rfl

end Mangoo.Fuse
