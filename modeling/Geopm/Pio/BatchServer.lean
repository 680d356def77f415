import Geopm.Exception
import Geopm.Lib.Lts

/-!
# The event loop of a batch server

A batch server answers the requests of its client, which come and go through two fifos, until the
client lets it quit or the service terminates it with a signal.

* `System` : the server in its event loop, the client that waits for answers, and the fifos;
* `System.next` : one step of the server or of the client, or the signal is delivered;
* `System.Stuck`, `System.LeftWaiting` : the server has been terminated and reads a message that
  nobody has sent, and the server has exited without an answer;
* `System.stops_and_answers` : such states are reached just when the signal comes at a wrong time;
* `System.exits` : a server that has been terminated at any other time exits.
-/

namespace Geopm.Pio

open List

/-- The messages of `BatchStatus`, and any other character. -/
inductive Message where
  | read
  | write
  | continue
  | quit
  | terminate
  | unknown
deriving DecidableEq, Repr

/-- The `errno` of a system call that has failed. -/
inductive Errno where
  | eintr
  | other
deriving DecidableEq, Repr

/-- Where the server is in `run_batch`.  A system call is entered and later returns. -/
inductive Pc where
  | flagTest
  | readCall
  | reading
  | received (received : Except Errno Message)
  | processing (inMessage : Message)
  | writeCall
  | writing
  | sent (sent : Except Errno Unit)
  | caught (ex : Exception)
  | quitCall
  | quitting
  | exited

/-- The members of `BatchServerImp` that the event loop uses, its local variable, and the number of
signals. -/
structure EventLoop where
  pc : Pc := .flagTest
  outMessage : Message := .continue
  sigtermCount : ℕ := 0
  isClientAttached : Bool := false
  isShmemLinked : Bool := true
  isClientWaiting : Bool := false

/-- The server, the client, and what is in the fifos. -/
structure System where
  server : EventLoop := {}
  isWaiting : Bool := false
  toServer : List Message := []
  toClient : List Message := []

/-! ### The server -/

/-- The `catch` of `read_message` and of `write_message`. -/
def isTerminated (err : Errno) (sigtermCount : ℕ) : Bool := err = .eintr ∧ sigtermCount ≠ 0

/-- `read_message`, when `receive_message` has returned or raised. -/
def readMessage (received : Except Errno Message) (sigtermCount : ℕ) : Except Exception Message :=
  match received with
  | .ok inMessage => .ok inMessage
  | .error err =>
    if isTerminated err sigtermCount then .ok .terminate
    else .error ⟨"BatchServer::read_message The client is unresponsive", [], .runtime⟩

namespace EventLoop

/-- The first message has come: the shared memory is unlinked. -/
def attach (e : EventLoop) : EventLoop :=
  if e.isClientAttached then e else { e with isShmemLinked := false, isClientAttached := true }

/-- The `switch` of `event_loop`. -/
def dispatch (e : EventLoop) : Message → EventLoop
  | .read => { e with isClientWaiting := true, pc := .processing .read }
  | .write => { e with isClientWaiting := true, pc := .processing .write }
  | .quit => { e with isClientWaiting := true, outMessage := .quit, pc := .writeCall }
  | .terminate => { e with outMessage := .terminate, pc := .flagTest }
  | .continue | .unknown =>
    { e with
      pc := .caught
        ⟨"BatchServerImp::run_batch(): Received unknown response from client", [], .runtime⟩ }

/-- `write_message`, when `send_message` has returned or raised. -/
def writeMessage (e : EventLoop) (sent : Except Errno Unit) : EventLoop :=
  match sent with
  | .ok () => { e with isClientWaiting := false, pc := .flagTest }
  | .error err =>
    if isTerminated err e.sigtermCount then { e with pc := .flagTest }
    else
      { e with
        pc := .caught ⟨"BatchServer::write_message The client is unresponsive", [], .runtime⟩ }

/-- The signal is delivered: it is counted, and a system call in progress fails.  In `quitting` the
exception leaves the handler of `run_batch`. -/
def actionSigterm (e : EventLoop) : EventLoop :=
  let e := { e with sigtermCount := e.sigtermCount + 1 }
  match e.pc with
  | .reading => { e with pc := .received (.error .eintr) }
  | .writing => { e with pc := .sent (.error .eintr) }
  | .quitting => { e with pc := .exited }
  | _ => e

end EventLoop

namespace System

/-- One step of `run_batch`; it blocks in `read` when the fifo is empty. -/
def serverStep (s : System) : Option System :=
  let e := s.server
  match e.pc with
  | .flagTest =>
    if e.outMessage = .continue ∧ e.sigtermCount = 0 then
      some { s with server := { e with pc := .readCall } }
    else some { s with server := { e with pc := .exited } }
  | .readCall => some { s with server := { e with pc := .reading } }
  | .reading =>
    match s.toServer with
    | [] => none
    | m :: ms => some { s with server := { e with pc := .received (.ok m) }, toServer := ms }
  | .received received =>
    match readMessage received e.sigtermCount with
    | .ok inMessage => some { s with server := e.attach.dispatch inMessage }
    | .error ex => some { s with server := { e with pc := .caught ex } }
  | .processing _ => some { s with server := { e with pc := .writeCall } }
  | .writeCall => some { s with server := { e with pc := .writing } }
  | .writing =>
    some { s with
      server := { e with pc := .sent (.ok ()) }
      toClient := s.toClient ++ [e.outMessage] }
  | .sent sent => some { s with server := e.writeMessage sent }
  | .caught _ =>
    if e.isClientWaiting then some { s with server := { e with pc := .quitCall } }
    else some { s with server := { e with pc := .exited } }
  | .quitCall => some { s with server := { e with pc := .quitting } }
  | .quitting =>
    some { s with
      server := { e with pc := .exited, isClientWaiting := false }
      toClient := s.toClient ++ [.quit] }
  | .exited => none

/-! ### The system -/

/-- What happens.  A request may fail while it is processed. -/
inductive Label where
  | request (m : Message)
  | answered
  | server
  | raised (ex : Exception)
  | sigterm

/-- The requests of `BatchClientImp`. -/
def requests : List Message := [.read, .write, .quit]

/-- One step. -/
def next (s : System) : Label → Option System
  | .request m =>
    if s.isWaiting = false ∧ m ∈ requests then
      some { s with isWaiting := true, toServer := s.toServer ++ [m] }
    else none
  | .answered =>
    match s.isWaiting, s.toClient with
    | true, _ :: ms => some { s with isWaiting := false, toClient := ms }
    | _, _ => none
  | .server => s.serverStep
  | .raised ex =>
    match s.server.pc with
    | .processing _ => some { s with server := { s.server with pc := .caught ex } }
    | _ => none
  | .sigterm =>
    match s.server.pc with
    | .exited => none
    | _ => some { s with server := s.server.actionSigterm }

/-- The server has been terminated and reads a message that nobody has sent. -/
def Stuck (s : System) : Prop :=
  s.server.pc = .reading ∧ s.toServer = [] ∧ 0 < s.server.sigtermCount

/-- The server has exited, has read the request that the client waits for and not answered it. -/
def LeftWaiting (s : System) : Prop :=
  s.server.pc = .exited ∧ s.isWaiting = true ∧ s.toServer = [] ∧ s.toClient = []

/-- The signal does not come between the test and a call that then blocks, or while an answer is
written. -/
def Timely (s : System) (l : Label) : Prop :=
  l = .sigterm → ¬ (s.server.pc = .readCall ∧ s.toServer = []) ∧ s.server.pc ≠ .writing ∧
    s.server.pc ≠ .quitting

/-! ### The invariant -/

/-- The server has a request that it has not answered. -/
def serving : Pc → Bool
  | .received (.ok _) | .processing _ | .writeCall | .writing | .caught _ | .quitCall | .quitting =>
    true
  | _ => false

/-- Where the request of the client is: nowhere, in the fifo, with the server, or answered. -/
inductive Phase (s : System) : Prop
  | idle : s.isWaiting = false → s.toServer = [] → s.toClient = [] →
      serving s.server.pc = false → Phase s
  | requested (m : Message) : s.isWaiting = true → m ∈ requests → s.toServer = [m] →
      s.toClient = [] → serving s.server.pc = false → Phase s
  | served : s.isWaiting = true → s.toServer = [] → s.toClient = [] →
      serving s.server.pc = true → Phase s
  | answered (m : Message) : s.isWaiting = true → s.toServer = [] → s.toClient = [m] →
      serving s.server.pc = false → Phase s

/-- What the server knows where it is. -/
def Knows (s : System) : Prop :=
  match s.server.pc with
  | .flagTest | .exited => True
  | .readCall | .reading => s.server.sigtermCount = 0 ∨ s.toServer ≠ []
  | .received (.ok m) => m ∈ requests
  | .received (.error err) => err = .eintr ∧ s.server.sigtermCount ≠ 0
  | .sent sent => sent = .ok ()
  | _ => s.server.isClientWaiting = true

/-- The invariant of the runs whose signals are timely. -/
structure Inv (s : System) : Prop where
  phase : s.Phase
  knows : s.Knows

theorem inv_start : Inv {} where
  phase := .idle rfl rfl rfl rfl
  knows := trivial

variable {s s' : System} {e : EventLoop}

/-- A step of the server that neither reads nor writes a message. -/
theorem Phase.keep (h : s.Phase) (hserving : serving e.pc = serving s.server.pc) :
    Phase { s with server := e } := by
  cases h with
  | idle h₁ h₂ h₃ h₄ => exact .idle h₁ h₂ h₃ (hserving.trans h₄)
  | requested m h₁ hm h₂ h₃ h₄ => exact .requested m h₁ hm h₂ h₃ (hserving.trans h₄)
  | served h₁ h₂ h₃ h₄ => exact .served h₁ h₂ h₃ (hserving.trans h₄)
  | answered m h₁ h₂ h₃ h₄ => exact .answered m h₁ h₂ h₃ (hserving.trans h₄)

variable {m : Message}

theorem Phase.read {ms : List Message} (h : s.Phase)
    (hm : s.toServer = m :: ms) (hserving : serving e.pc = true) :
    m ∈ requests ∧ Phase { s with server := e, toServer := ms } := by
  cases h with
  | requested m' h₁ hrequest h₂ h₃ h₄ =>
    obtain ⟨rfl, rfl⟩ := List.cons.inj (h₂.symm.trans hm)
    exact ⟨hrequest, .served h₁ rfl h₃ hserving⟩
  | idle _ h₂ => cases h₂.symm.trans hm
  | served _ h₂ => cases h₂.symm.trans hm
  | answered _ _ h₂ => cases h₂.symm.trans hm

theorem Phase.write (h : s.Phase)
    (hserving : serving s.server.pc = true) (hserving' : serving e.pc = false) :
    Phase { s with server := e, toClient := s.toClient ++ [m] } := by
  cases h with
  | served h₁ h₂ h₃ h₄ => exact .answered m h₁ h₂ (by rw [h₃]; rfl) hserving'
  | idle _ _ _ h₄ => cases h₄.symm.trans hserving
  | requested _ _ _ _ _ h₄ => cases h₄.symm.trans hserving
  | answered _ _ _ _ h₄ => cases h₄.symm.trans hserving

theorem serving_dispatch (hm : m ∈ requests) :
    serving (e.dispatch m).pc = true := by
  simp only [requests, mem_cons, not_mem_nil, or_false] at hm
  obtain rfl | rfl | rfl := hm <;> rfl

theorem knows_dispatch (hm : m ∈ requests) :
    Knows { s with server := e.dispatch m } := by
  simp only [requests, mem_cons, not_mem_nil, or_false] at hm
  obtain rfl | rfl | rfl := hm <;> exact rfl

theorem Inv.server (h : s.Inv) (hs : s.serverStep = some s') : s'.Inv := by
  obtain ⟨hphase, hknows⟩ := h
  unfold serverStep at hs
  unfold Knows at hknows
  dsimp only at hs
  cases hpc : s.server.pc with
  | flagTest =>
    rw [hpc] at hs
    dsimp only at hs
    split_ifs at hs with hloop
    · cases hs
      exact ⟨hphase.keep (hpc ▸ rfl), Or.inl hloop.2⟩
    · cases hs
      exact ⟨hphase.keep (hpc ▸ rfl), trivial⟩
  | readCall =>
    rw [hpc] at hs hknows
    cases hs
    exact ⟨hphase.keep (hpc ▸ rfl), hknows⟩
  | reading =>
    rw [hpc] at hs
    dsimp only at hs
    split at hs
    · cases hs
    · rename_i m ms hm
      cases hs
      obtain ⟨hrequest, hread⟩ := hphase.read (e := { s.server with pc := .received (.ok m) }) hm rfl
      exact ⟨hread, hrequest⟩
  | received received =>
    rw [hpc] at hs hknows
    dsimp only at hs
    cases received with
    | ok m =>
      cases hs
      exact ⟨hphase.keep ((serving_dispatch hknows).trans (hpc ▸ rfl)), knows_dispatch hknows⟩
    | error err =>
      -- the call was interrupted by the signal: the loop ends
      have hread : readMessage (.error err) s.server.sigtermCount = .ok .terminate :=
        if_pos (decide_eq_true hknows)
      rw [hread] at hs
      cases hs
      exact ⟨hphase.keep (hpc ▸ rfl), trivial⟩
  | processing m =>
    rw [hpc] at hs hknows
    cases hs
    exact ⟨hphase.keep (hpc ▸ rfl), hknows⟩
  | writeCall =>
    rw [hpc] at hs hknows
    cases hs
    exact ⟨hphase.keep (hpc ▸ rfl), hknows⟩
  | writing =>
    rw [hpc] at hs
    cases hs
    exact ⟨hphase.write (hpc ▸ rfl) rfl, rfl⟩
  | sent sent =>
    rw [hpc] at hs hknows
    obtain rfl : sent = .ok () := hknows
    cases hs
    exact ⟨hphase.keep (hpc ▸ rfl), trivial⟩
  | caught ex =>
    rw [hpc] at hs hknows
    have hwaiting : s.server.isClientWaiting = true := hknows
    dsimp only at hs
    rw [if_pos hwaiting] at hs
    cases hs
    exact ⟨hphase.keep (hpc ▸ rfl), hwaiting⟩
  | quitCall =>
    rw [hpc] at hs hknows
    cases hs
    exact ⟨hphase.keep (hpc ▸ rfl), hknows⟩
  | quitting =>
    rw [hpc] at hs
    cases hs
    exact ⟨hphase.write (hpc ▸ rfl) rfl, trivial⟩
  | exited =>
    rw [hpc] at hs
    cases hs

theorem Inv.request (h : s.Inv) (hwaiting : s.isWaiting = false) (hm : m ∈ requests) :
    Inv { s with isWaiting := true, toServer := s.toServer ++ [m] } := by
  obtain ⟨hphase, hknows⟩ := h
  refine ⟨?_, ?_⟩
  · cases hphase with
    | idle _ h₂ h₃ h₄ => exact .requested m rfl hm (by rw [h₂]; rfl) h₃ h₄
    | requested _ h₁ => cases h₁.symm.trans hwaiting
    | served h₁ => cases h₁.symm.trans hwaiting
    | answered _ h₁ => cases h₁.symm.trans hwaiting
  · unfold Knows at hknows ⊢
    dsimp only
    split at hknows
    · trivial
    · trivial
    · exact Or.inr (append_ne_nil_of_right_ne_nil _ (cons_ne_nil m []))
    · exact Or.inr (append_ne_nil_of_right_ne_nil _ (cons_ne_nil m []))
    all_goals exact hknows

theorem Inv.answered (h : s.Inv) {ms : List Message} (hm : s.toClient = m :: ms) :
    Inv { s with isWaiting := false, toClient := ms } := by
  refine ⟨?_, h.knows⟩
  cases h.phase with
  | answered m' h₁ h₂ h₃ h₄ =>
    obtain ⟨-, rfl⟩ := List.cons.inj (h₃.symm.trans hm)
    exact .idle rfl h₂ rfl h₄
  | idle _ _ h₃ => cases h₃.symm.trans hm
  | requested _ _ _ _ h₃ => cases h₃.symm.trans hm
  | served _ _ h₃ => cases h₃.symm.trans hm

theorem Inv.raised (h : s.Inv) {ex : Exception} (hpc : s.server.pc = .processing m) :
    Inv { s with server := { s.server with pc := .caught ex } } := by
  have hknows := h.knows
  unfold Knows at hknows
  rw [hpc] at hknows
  exact ⟨h.phase.keep (hpc ▸ rfl), hknows⟩

theorem Inv.sigterm (h : s.Inv) (htimely : s.Timely .sigterm) :
    Inv { s with server := s.server.actionSigterm } := by
  obtain ⟨hphase, hknows⟩ := h
  obtain ⟨hread, hwriting, hquitting⟩ := htimely rfl
  obtain ⟨⟨pc, outMessage, sigtermCount, isClientAttached, isShmemLinked, isClientWaiting⟩,
    isWaiting, toServer, toClient⟩ := s
  cases pc with
  | readCall => exact ⟨hphase.keep rfl, Or.inr fun hnil => hread ⟨rfl, hnil⟩⟩
  | reading => exact ⟨hphase.keep rfl, rfl, Nat.succ_ne_zero _⟩
  | writing => exact absurd rfl hwriting
  | quitting => exact absurd rfl hquitting
  | received received =>
    refine ⟨hphase.keep rfl, ?_⟩
    cases received with
    | ok m => exact hknows
    | error err => exact ⟨hknows.1, Nat.succ_ne_zero _⟩
  | _ => exact ⟨hphase.keep rfl, hknows⟩

theorem Inv.next (h : s.Inv) {l : Label} (htimely : s.Timely l) (hs : s.next l = some s') :
    s'.Inv := by
  unfold System.next at hs
  cases l with
  | request m =>
    dsimp only at hs
    split_ifs at hs with hrequest
    cases hs
    exact h.request hrequest.1 hrequest.2
  | answered =>
    dsimp only at hs
    split at hs
    · rename_i m ms _ hm
      cases hs
      exact h.answered hm
    · cases hs
  | server => exact h.server hs
  | raised ex =>
    dsimp only at hs
    split at hs
    · rename_i m hpc
      cases hs
      exact h.raised hpc
    · cases hs
  | sigterm =>
    dsimp only at hs
    split at hs
    · cases hs
    · cases hs
      exact h.sigterm htimely

theorem inv_of_reachable (hs : (Lts.ofNext System.next).ReachableIf Timely {} s) : s.Inv :=
  hs.invariant inv_start fun _ _ _ hinv htimely hl => hinv.next htimely hl

/-! ### What the signal leads to -/

theorem Inv.not_stuck (h : s.Inv) : ¬ s.Stuck := by
  rintro ⟨hpc, hempty, hcount⟩
  have hknows := h.knows
  unfold Knows at hknows
  rw [hpc] at hknows
  obtain hzero | hne := hknows
  · exact Nat.ne_of_gt hcount hzero
  · exact hne hempty

theorem Inv.not_leftWaiting (h : s.Inv) : ¬ s.LeftWaiting := by
  rintro ⟨hpc, hwaiting, hempty, hempty'⟩
  cases h.phase with
  | idle h₁ => cases h₁.symm.trans hwaiting
  | requested _ _ _ h₂ => cases h₂.symm.trans hempty
  | served _ _ _ h₄ => rw [hpc] at h₄; cases h₄
  | answered _ _ _ h₃ => cases h₃.symm.trans hempty'

theorem stuck_of_readCall (hpc : s.server.pc = .readCall) (hempty : s.toServer = []) :
    ∃ t, Lts.run System.next s [.sigterm, .server] = some t ∧ t.Stuck := by
  obtain ⟨⟨pc, outMessage, sigtermCount, isClientAttached, isShmemLinked, isClientWaiting⟩,
    isWaiting, toServer, toClient⟩ := s
  obtain rfl : pc = .readCall := hpc
  exact ⟨_, rfl, rfl, hempty, Nat.succ_pos _⟩

theorem writeMessage_interrupted (hcount : e.sigtermCount ≠ 0) :
    e.writeMessage (.error .eintr) = { e with pc := .flagTest } := by
  have hterminated : isTerminated .eintr e.sigtermCount = true := decide_eq_true ⟨rfl, hcount⟩
  unfold EventLoop.writeMessage
  dsimp only
  rw [if_pos hterminated]

theorem leftWaiting_of_writing (hpc : s.server.pc = .writing) (hwaiting : s.isWaiting = true)
    (hempty : s.toServer = []) (hempty' : s.toClient = []) :
    ∃ t, Lts.run System.next s [.sigterm, .server, .server] = some t ∧ t.LeftWaiting := by
  obtain ⟨⟨pc, outMessage, sigtermCount, isClientAttached, isShmemLinked, isClientWaiting⟩,
    isWaiting, toServer, toClient⟩ := s
  obtain rfl : pc = .writing := hpc
  refine ⟨⟨⟨.exited, outMessage, sigtermCount + 1, isClientAttached, isShmemLinked,
    isClientWaiting⟩, isWaiting, toServer, toClient⟩, ?_, rfl, hwaiting, hempty, hempty'⟩
  simp [Lts.run, System.next, serverStep, EventLoop.actionSigterm, writeMessage_interrupted]

theorem leftWaiting_of_quitting (hpc : s.server.pc = .quitting) (hwaiting : s.isWaiting = true)
    (hempty : s.toServer = []) (hempty' : s.toClient = []) :
    ∃ t, Lts.run System.next s [.sigterm] = some t ∧ t.LeftWaiting := by
  obtain ⟨⟨pc, outMessage, sigtermCount, isClientAttached, isShmemLinked, isClientWaiting⟩,
    isWaiting, toServer, toClient⟩ := s
  obtain rfl : pc = .quitting := hpc
  exact ⟨_, rfl, rfl, hwaiting, hempty, hempty'⟩

theorem Phase.of_serving (h : s.Phase) (hserving : serving s.server.pc = true) :
    s.isWaiting = true ∧ s.toServer = [] ∧ s.toClient = [] := by
  cases h with
  | served h₁ h₂ h₃ => exact ⟨h₁, h₂, h₃⟩
  | idle _ _ _ h₄ => cases h₄.symm.trans hserving
  | requested _ _ _ _ _ h₄ => cases h₄.symm.trans hserving
  | answered _ _ _ _ h₄ => cases h₄.symm.trans hserving

theorem Inv.untimely (h : s.Inv) {l : Label} (hl : ¬ s.Timely l) :
    ∃ t, (Lts.ofNext System.next).Reachable s t ∧ (t.Stuck ∨ t.LeftWaiting) := by
  unfold Timely at hl
  rw [Classical.not_imp, not_and_or, not_not, not_and_or, not_not, not_not] at hl
  obtain ⟨-, ⟨hpc, hempty⟩ | hpc | hpc⟩ := hl
  · obtain ⟨t, ht, hstuck⟩ := stuck_of_readCall hpc hempty
    exact ⟨t, Lts.reachable_of_run ht, Or.inl hstuck⟩
  · obtain ⟨hwaiting, hempty, hempty'⟩ := h.phase.of_serving (hpc ▸ rfl)
    obtain ⟨t, ht, hleft⟩ := leftWaiting_of_writing hpc hwaiting hempty hempty'
    exact ⟨t, Lts.reachable_of_run ht, Or.inr hleft⟩
  · obtain ⟨hwaiting, hempty, hempty'⟩ := h.phase.of_serving (hpc ▸ rfl)
    obtain ⟨t, ht, hleft⟩ := leftWaiting_of_quitting hpc hwaiting hempty hempty'
    exact ⟨t, Lts.reachable_of_run ht, Or.inr hleft⟩

/-- In the runs whose signals are timely the server neither blocks after it has been terminated nor
exits without an answer; every other signal lets it do so. -/
theorem stops_and_answers (hs : (Lts.ofNext System.next).ReachableIf Timely {} s) :
    ¬ s.Stuck ∧ ¬ s.LeftWaiting ∧ ∀ l, ¬ s.Timely l →
      ∃ t, (Lts.ofNext System.next).Reachable s t ∧ (t.Stuck ∨ t.LeftWaiting) :=
  have hinv := inv_of_reachable hs
  ⟨hinv.not_stuck, hinv.not_leftWaiting, fun _ => hinv.untimely⟩

/-- The signal comes while the server reads, and is timely. -/
theorem stops_and_answers_reading :
    ¬ ({ server := { pc := .received (.error .eintr), sigtermCount := 1 } } : System).Stuck := by
  have hread : (Lts.ofNext System.next).ReachableIf Timely {} { server := { pc := .reading } } := by
    have hrun : Lts.run System.next {} [.server, .server] =
        some { server := { pc := .reading } } := rfl
    refine Lts.reachableIf_of_run hrun ?_
    rintro s l hl rfl
    simp at hl
  exact (stops_and_answers (hread.tail (l := .sigterm)
    (fun _ => ⟨fun h => Pc.noConfusion h.1, Pc.noConfusion, Pc.noConfusion⟩) rfl)).1

/-- The signal comes between the test of the flag and the call of `read`, and while an answer is
written. -/
theorem stuck_and_leftWaiting :
    (∃ s, (Lts.ofNext System.next).Reachable {} s ∧ s.Stuck) ∧
      ∃ s, (Lts.ofNext System.next).Reachable {} s ∧ s.LeftWaiting := by
  have hstuck : Lts.run System.next {} [.server, .sigterm, .server] =
      some { server := { pc := .reading, sigtermCount := 1 } } := rfl
  have hleft : Lts.run System.next {} [.request .read, .server, .server, .server, .server, .server,
      .server, .sigterm, .server, .server] =
      some { server := ⟨.exited, .continue, 1, true, false, true⟩, isWaiting := true } := rfl
  exact ⟨⟨_, Lts.reachable_of_run hstuck, rfl, rfl, Nat.one_pos⟩,
    ⟨_, Lts.reachable_of_run hleft, rfl, rfl, rfl, rfl⟩⟩

/-! ### The server exits -/

/-- The steps that a terminated server has left, at most. -/
def stepsLeft : Pc → ℕ
  | .exited => 0
  | .flagTest | .quitting => 1
  | .quitCall | .sent _ => 2
  | .caught _ | .writing => 3
  | .writeCall => 4
  | .processing _ => 5
  | .received _ => 6
  | .reading => 7
  | .readCall => 8

theorem stepsLeft_dispatch (e : EventLoop) (m : Message) : stepsLeft (e.dispatch m).pc < 6 := by
  cases m <;> exact Nat.lt_of_sub_eq_succ rfl

theorem sigtermCount_dispatch (e : EventLoop) (m : Message) :
    (e.attach.dispatch m).sigtermCount = e.sigtermCount := by
  have hattach : e.attach.sigtermCount = e.sigtermCount := by
    unfold EventLoop.attach
    split_ifs <;> rfl
  cases m <;> exact hattach

/-- A server that has been terminated does its next step. -/
theorem Inv.progress (h : s.Inv) (hcount : s.server.sigtermCount ≠ 0)
    (hpc : s.server.pc ≠ .exited) : ∃ t, s.serverStep = some t ∧ t.server.sigtermCount ≠ 0 ∧
      stepsLeft t.server.pc < stepsLeft s.server.pc := by
  have hknows := h.knows
  obtain ⟨⟨pc, outMessage, sigtermCount, isClientAttached, isShmemLinked, isClientWaiting⟩,
    isWaiting, toServer, toClient⟩ := s
  cases pc with
  | flagTest => exact ⟨_, if_neg fun hloop => hcount hloop.2, hcount, Nat.one_pos⟩
  | reading =>
    obtain hzero | hne := hknows
    · exact absurd hzero hcount
    · obtain ⟨m, ms, rfl⟩ := exists_cons_of_ne_nil hne
      exact ⟨_, rfl, hcount, Nat.lt_succ_self 6⟩
  | received received =>
    have hread : ∃ m, readMessage received sigtermCount = .ok m := by
      cases received with
      | ok m => exact ⟨m, rfl⟩
      | error err =>
        obtain ⟨rfl, -⟩ : err = .eintr ∧ sigtermCount ≠ 0 := hknows
        exact ⟨.terminate, if_pos (decide_eq_true ⟨rfl, hcount⟩)⟩
    obtain ⟨m, hm⟩ := hread
    let e : EventLoop := ⟨.received received, outMessage, sigtermCount, isClientAttached,
      isShmemLinked, isClientWaiting⟩
    refine ⟨⟨e.attach.dispatch m, isWaiting, toServer, toClient⟩, ?_,
      (sigtermCount_dispatch e m).trans_ne hcount, stepsLeft_dispatch e.attach m⟩
    unfold serverStep
    dsimp only
    rw [hm]
  | sent sent =>
    obtain rfl : sent = .ok () := hknows
    exact ⟨_, rfl, hcount, Nat.lt_succ_self 1⟩
  | caught ex =>
    obtain rfl : isClientWaiting = true := hknows
    exact ⟨_, rfl, hcount, Nat.lt_succ_self 2⟩
  | exited => exact absurd rfl hpc
  | processing m => exact ⟨_, rfl, hcount, Nat.lt_succ_self 4⟩
  | readCall => exact ⟨_, rfl, hcount, Nat.lt_succ_self 7⟩
  | writeCall => exact ⟨_, rfl, hcount, Nat.lt_succ_self 3⟩
  | writing => exact ⟨_, rfl, hcount, Nat.lt_succ_self 2⟩
  | quitCall => exact ⟨_, rfl, hcount, Nat.lt_succ_self 1⟩
  | quitting => exact ⟨_, rfl, hcount, Nat.lt_succ_self 0⟩

/-- A server that has been terminated at a timely moment exits by its own steps, and leaves no client
without an answer. -/
theorem exits (hs : (Lts.ofNext System.next).ReachableIf Timely {} s)
    (hcount : s.server.sigtermCount ≠ 0) : ∃ n ≤ stepsLeft s.server.pc, ∃ t,
      Lts.run System.next s (List.replicate n .server) = some t ∧ t.server.pc = .exited ∧
        ¬ t.LeftWaiting := by
  have hinv := inv_of_reachable hs
  clear hs
  induction hn : stepsLeft s.server.pc using Nat.strongRecOn generalizing s with
  | _ n ih =>
    by_cases hpc : s.server.pc = .exited
    · exact ⟨0, Nat.zero_le n, s, rfl, hpc, hinv.not_leftWaiting⟩
    · obtain ⟨t, ht, hcount', hlt⟩ := hinv.progress hcount hpc
      obtain ⟨k, hk, u, hu, hexited⟩ := ih _ (hn ▸ hlt) hcount' (hinv.server ht) rfl
      refine ⟨k + 1, hk.trans_lt (hn ▸ hlt), u, ?_, hexited⟩
      change s.serverStep.bind _ = _
      rw [ht]
      exact hu

/-- The signal comes before the event loop starts. -/
theorem exits_terminated : ∃ n ≤ 1, ∃ t : System,
    Lts.run System.next { server := { sigtermCount := 1 } } (List.replicate n .server) = some t ∧
      t.server.pc = .exited ∧ ¬ t.LeftWaiting :=
  exits (.head (l := .sigterm) (fun _ => by simp) rfl (.refl _)) Nat.one_ne_zero

end System

end Geopm.Pio
