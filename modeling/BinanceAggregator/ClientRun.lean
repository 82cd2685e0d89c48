import BinanceAggregator.NetworkLocks

/-!
One run of the client, with `stop` called from another thread at any time.

The steps are those of the network stage, seen from the client alone: whoever calls `stop` may call
it again and again, and when a call on the network fails, the error handler, if one is set, is
called before the run is over. What the stage does to a client between its construction and the end
of its run is such a run.
-/

namespace BinanceAggregator

/-! ### Errors -/

/-- A `boost::system::error_code`, as far as codes are told apart. -/
inductive ErrorCode
  | success
  | timedOut
  | eof
  | closed
  | other (value : ℕ)
  deriving DecidableEq

/-- `agg::net::ConnectionErrorKind`. -/
inductive ConnectionErrorKind
  | dnsFailure
  | tcpConnectFailure
  | tlsHandshakeFailure
  | webSocketHandshakeFailure
  | readFailure
  | timeout
  | serverDisconnect
  | unknown
  deriving DecidableEq

def classifyError (stage : ConnectionStage) : ErrorCode → ConnectionErrorKind
  | .success => .unknown
  | .timedOut => .timeout
  | ec => match stage with
    | .resolve => .dnsFailure
    | .tcpConnect => .tcpConnectFailure
    | .tlsHandshake => .tlsHandshakeFailure
    | .webSocketHandshake => .webSocketHandshakeFailure
    | .read => if ec = .eof ∨ ec = .closed then .serverDisconnect else .readFailure

/-- What the error handler is called with. -/
structure Report where
  stage : ConnectionStage
  kind : ConnectionErrorKind
  ec : ErrorCode
  deriving DecidableEq

namespace ClientRun

open Runs Mutex
open Network (Client ClientPc Party both)

/-! ### The machine -/

/-- `BinanceWebSocketClient::run`: under way, at the call of the handler, and over. -/
inductive RunPc
  | inside (pc : ClientPc)
  | reporting (stage : ConnectionStage) (ec : ErrorCode)
  | returned

/-- `BinanceWebSocketClient::stop`. -/
inductive StopPc
  | idle
  | storing
  | locking
  | closing
  deriving DecidableEq

structure St where
  pc : RunPc
  stopper : StopPc
  client : Client

/-- `run` has been called on a client that was just constructed. -/
def start : St := ⟨.inside .starting, .idle, .fresh⟩

inductive Act
  | clientStart
  | succeed
  | fail (stage : ConnectionStage) (ec : ErrorCode)
  | clientTest
  | lockStream
  | emplace
  | read (message : Str)
  | push (message : Str) (ok : Bool)
  | report (r : Report)
  | stopCall
  | storeStop
  | streamLock
  | close
  deriving DecidableEq

/-- Whether the call at a point can fail with a code. Only the host name is set by a call that
takes its code from elsewhere, where there may be none. -/
def failsWith : ClientPc → ErrorCode → Bool
  | .namingHost, _ => true
  | _, ec => ec ≠ .success

def report (stage : ConnectionStage) (ec : ErrorCode) : Report := ⟨stage, classifyError stage ec, ec⟩

/-- One step, with or without a handler; `none` where the thread is elsewhere or has to wait. -/
def step (handled : Bool) (s : St) : Act → Option St
  | .clientStart => match s.pc with
    | .inside .starting => some { s with
        pc := .inside .resolving, client := { s.client with stopRequested := false } }
    | _ => none
  | .succeed => match s.pc with
    | .inside pc => match pc.next with
      | some next => if s.client.allows pc then
          some { s with pc := .inside next, client := s.client.after pc }
        else none
      | none => none
    | _ => none
  | .fail stage ec => match s.pc with
    | .inside pc => if pc.stage = some stage ∧ failsWith pc ec then
        some { s with pc := if handled then .reporting stage ec else .returned }
      else none
    | _ => none
  | .clientTest => match s.pc with
    | .inside .testing => some { s with
        pc := if s.client.stopRequested then .returned else .inside .lockingStream }
    | _ => none
  | .lockStream => match s.pc with
    | .inside .lockingStream => if s.client.streamMutex = none then
        some { s with
          pc := .inside .emplacing, client := { s.client with streamMutex := some .network } }
      else none
    | _ => none
  | .emplace => match s.pc with
    | .inside .emplacing => some { s with
        pc := .inside .namingHost
        client := { s.client with stream := .closed, streamMutex := none } }
    | _ => none
  | .read message => match s.pc with
    | .inside .reading => if s.client.allows .reading then
        some { s with pc := .inside (.pushing message) }
      else none
    | _ => none
  | .push message _ => match s.pc with
    | .inside (.pushing m) => if m = message then some { s with pc := .inside .reading } else none
    | _ => none
  | .report r => match s.pc with
    | .reporting stage ec => if r = report stage ec then some { s with pc := .returned } else none
    | _ => none
  | .stopCall => match s.stopper with
    | .idle => some { s with stopper := .storing }
    | _ => none
  | .storeStop => match s.stopper with
    | .storing => some { s with
        stopper := .locking, client := { s.client with stopRequested := true } }
    | _ => none
  | .streamLock => match s.stopper with
    | .locking => if s.client.streamMutex = none then
        some { s with
          stopper := .closing, client := { s.client with streamMutex := some .stopper } }
      else none
    | _ => none
  | .close => match s.stopper with
    | .closing => some { s with
        stopper := .idle, client := { s.client.close with streamMutex := none } }
    | _ => none

/-- What can happen, with the condition under which it does. -/
inductive Step (handled : Bool) (s : St) : Act → St → Prop
  | clientStart (h : s.pc = .inside .starting) :
      Step handled s .clientStart { s with
        pc := .inside .resolving, client := { s.client with stopRequested := false } }
  | succeed {pc next : ClientPc} (h : s.pc = .inside pc) (hn : pc.next = some next)
      (ha : s.client.allows pc = true) :
      Step handled s .succeed { s with pc := .inside next, client := s.client.after pc }
  | fail {pc : ClientPc} {stage : ConnectionStage} {ec : ErrorCode} (h : s.pc = .inside pc)
      (hp : pc.stage = some stage) (hf : failsWith pc ec = true) :
      Step handled s (.fail stage ec)
        { s with pc := if handled then .reporting stage ec else .returned }
  | clientStopped (h : s.pc = .inside .testing) (hs : s.client.stopRequested = true) :
      Step handled s .clientTest { s with pc := .returned }
  | clientGoesOn (h : s.pc = .inside .testing) (hs : s.client.stopRequested = false) :
      Step handled s .clientTest { s with pc := .inside .lockingStream }
  | lockStream (h : s.pc = .inside .lockingStream) (hm : s.client.streamMutex = none) :
      Step handled s .lockStream { s with
        pc := .inside .emplacing, client := { s.client with streamMutex := some .network } }
  | emplace (h : s.pc = .inside .emplacing) :
      Step handled s .emplace { s with
        pc := .inside .namingHost
        client := { s.client with stream := .closed, streamMutex := none } }
  | read {m : Str} (h : s.pc = .inside .reading) (ha : s.client.allows .reading = true) :
      Step handled s (.read m) { s with pc := .inside (.pushing m) }
  | push {m : Str} {ok : Bool} (h : s.pc = .inside (.pushing m)) :
      Step handled s (.push m ok) { s with pc := .inside .reading }
  | report {stage : ConnectionStage} {ec : ErrorCode} (h : s.pc = .reporting stage ec) :
      Step handled s (.report (report stage ec)) { s with pc := .returned }
  | stopCall (h : s.stopper = .idle) : Step handled s .stopCall { s with stopper := .storing }
  | storeStop (h : s.stopper = .storing) :
      Step handled s .storeStop { s with
        stopper := .locking, client := { s.client with stopRequested := true } }
  | streamLock (h : s.stopper = .locking) (hm : s.client.streamMutex = none) :
      Step handled s .streamLock { s with
        stopper := .closing, client := { s.client with streamMutex := some .stopper } }
  | close (h : s.stopper = .closing) :
      Step handled s .close { s with
        stopper := .idle, client := { s.client.close with streamMutex := none } }

variable {handled : Bool} {s s' : St} {a : Act} {tr : List Act}

lemma step_of (h : Step handled s a s') : step handled s a = some s' := by
  cases h with
  | _ => simp_all [step]

lemma step_cases (h : step handled s a = some s') : Step handled s a s' := by
  cases a with
  | clientStart =>
      simp only [step] at h
      split at h <;> cases h
      exact .clientStart ‹_›
  | succeed =>
      simp only [step] at h
      split at h
      · split at h
        · split_ifs at h with ha
          cases h
          exact .succeed ‹_› ‹_› ha
        · cases h
      · cases h
  | fail stage ec =>
      simp only [step] at h
      split at h
      · split at h
        · rename_i hp
          cases h
          exact .fail ‹_› hp.1 hp.2
        · cases h
      · cases h
  | clientTest =>
      simp only [step] at h
      split at h <;> cases h
      split_ifs with hs
      · exact .clientStopped ‹_› hs
      · exact .clientGoesOn ‹_› (Bool.not_eq_true _ ▸ hs)
  | lockStream =>
      simp only [step] at h
      split at h
      · split_ifs at h with hm
        cases h
        exact .lockStream ‹_› hm
      · cases h
  | emplace =>
      simp only [step] at h
      split at h <;> cases h
      exact .emplace ‹_›
  | read m =>
      simp only [step] at h
      split at h
      · split_ifs at h with ha
        cases h
        exact .read ‹_› ha
      · cases h
  | push m ok =>
      simp only [step] at h
      split at h
      · split_ifs at h with hm
        cases h
        subst hm
        exact .push ‹_›
      · cases h
  | report r =>
      simp only [step] at h
      split at h
      · split_ifs at h with hr
        cases h
        subst hr
        exact .report ‹_›
      · cases h
  | stopCall =>
      simp only [step] at h
      split at h <;> cases h
      exact .stopCall ‹_›
  | storeStop =>
      simp only [step] at h
      split at h <;> cases h
      exact .storeStop ‹_›
  | streamLock =>
      simp only [step] at h
      split at h
      · split_ifs at h with hm
        cases h
        exact .streamLock ‹_› hm
      · cases h
  | close =>
      simp only [step] at h
      split at h <;> cases h
      exact .close ‹_›

end ClientRun

end BinanceAggregator
