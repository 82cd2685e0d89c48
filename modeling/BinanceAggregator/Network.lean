import BinanceAggregator.Backoff
import BinanceAggregator.Bytes

/-!
The network stage: the thread that connects, reads and reconnects, and the thread that stops it.

The two share the stop flag, the pointer to the client under its mutex, the client's own flag and
stream, and the flag of the reconnect policy. A step is what a thread does between two points at
which the other could see it. What a network call returns is left open, except that a stream that
is not open lets no call on it succeed. The timer of the wait between two attempts may fire at any
time, and the delay it was set to is part of the history.
-/

namespace BinanceAggregator.Network

/-- The two threads. -/
inductive Party
  | network
  | stopper
  deriving DecidableEq

/-- `ws_`: connecting opens it, also after it was closed. -/
inductive Stream
  | absent
  | closed
  | opened
  deriving DecidableEq

/-- A `BinanceWebSocketClient`. -/
structure Client where
  stopRequested : Bool
  stream : Stream
  streamMutex : Option Party

/-- A `ReconnectPolicy`. -/
structure Policy where
  attempt : UInt32
  stopRequested : Bool
  mutex : Option Party

/-- `BinanceWebSocketClient::run`. -/
inductive ClientPc
  | starting
  | resolving
  | testing
  | lockingStream
  | emplacing
  | namingHost
  | connecting
  | tlsHandshaking
  | webSocketHandshaking
  | reading
  | pushing (message : Str)

/-- `NetworkStage::run`, with `reset` and `wait_for_next_attempt` of the policy. From the end of
the client's run on, `had` is `had_successful_read`. -/
inductive NetPc
  | testing
  | lockingCreate
  | creating
  | running (pc : ClientPc)
  | lockingReset (had : Bool)
  | resetting (had : Bool)
  | destroying (had : Bool)
  | checking (had : Bool)
  | lockingPolicy
  | clearing
  | delaying
  | acquiring (timedOut : Bool)
  | waiting (timedOut : Bool)
  | asleep
  | exited

/-- `NetworkStage::stop`, with `stop` of the policy and of the client. -/
inductive StopPc
  | idle
  | storing
  | lockingPolicy
  | settingPolicy
  | notifying
  | lockingClient
  | looking
  | lockingStream
  | closing
  | unlocking
  | joining
  | returned
  deriving DecidableEq

structure St where
  pc : NetPc
  stopper : StopPc
  stopRequested : Bool
  client : Option Client
  clientMutex : Option Party
  policy : Policy

/-- The stage when `start` has returned. -/
def start : St where
  pc := .testing
  stopper := .idle
  stopRequested := false
  client := none
  clientMutex := none
  policy := ⟨0, false, none⟩

inductive Act
  | testStop
  | lockCreate
  | create
  | clientStart
  | succeed
  | fail (stage : ConnectionStage)
  | clientTest
  | lockStream
  | emplace
  | read (message : Str)
  | push (message : Str) (ok : Bool)
  | lockReset
  | lockDestroy
  | destroy
  | checkStop
  | lockClear
  | clear
  | delay (delayMs : UInt64)
  | lockWait
  | testWait
  | wake (timedOut : Bool)
  | stopCall
  | storeStop
  | policyLock
  | policySet
  | policyNotify
  | clientLock
  | clientLook
  | streamLock
  | close
  | unlockClient
  | join
  deriving DecidableEq

/-- The stage that is reported when the network call at a point fails. -/
def ClientPc.stage : ClientPc → Option ConnectionStage
  | .resolving => some .resolve
  | .namingHost => some .tlsHandshake
  | .connecting => some .tcpConnect
  | .tlsHandshaking => some .tlsHandshake
  | .webSocketHandshaking => some .webSocketHandshake
  | .reading => some .read
  | _ => none

/-- Where the client goes on when the network call at a point succeeds. -/
def ClientPc.next : ClientPc → Option ClientPc
  | .resolving => some .testing
  | .namingHost => some .connecting
  | .connecting => some .tlsHandshaking
  | .tlsHandshaking => some .webSocketHandshaking
  | .webSocketHandshaking => some .reading
  | _ => none

namespace Client

/-- A client that has been constructed. -/
def fresh : Client := ⟨false, .absent, none⟩

/-- Whether the call at a point can succeed: it needs an open stream if it is one on a stream. -/
def allows (c : Client) : ClientPc → Bool
  | .tlsHandshaking | .webSocketHandshaking | .reading => c.stream = .opened
  | _ => true

/-- The client after the call at a point has succeeded. -/
def after (c : Client) : ClientPc → Client
  | .connecting => { c with stream := .opened }
  | _ => c

/-- `cancel` and `close`, if there is a stream. -/
def close (c : Client) : Client :=
  { c with stream := if c.stream = .absent then .absent else .closed }

end Client

/-- One step; `none` where the thread is elsewhere or has to wait. -/
def step (R : ReconnectConfig) (s : St) : Act → Option St
  | .testStop => match s.pc with
    | .testing => some { s with pc := if s.stopRequested then .exited else .lockingCreate }
    | _ => none
  | .lockCreate => match s.pc, s.clientMutex with
    | .lockingCreate, none => some { s with pc := .creating, clientMutex := some .network }
    | _, _ => none
  | .create => match s.pc with
    | .creating => some { s with
        pc := .running .starting, client := some .fresh, clientMutex := none }
    | _ => none
  | .clientStart => match s.pc, s.client with
    | .running .starting, some c => some { s with
        pc := .running .resolving, client := some { c with stopRequested := false } }
    | _, _ => none
  | .succeed => match s.pc, s.client with
    | .running pc, some c => match pc.next with
      | some next => if c.allows pc then
          some { s with pc := .running next, client := some (c.after pc) }
        else none
      | none => none
    | _, _ => none
  | .fail stage => match s.pc with
    | .running pc => if pc.stage = some stage then
        some { s with pc := .lockingReset (stage = .read) }
      else none
    | _ => none
  | .clientTest => match s.pc, s.client with
    | .running .testing, some c => some { s with
        pc := if c.stopRequested then .lockingReset false else .running .lockingStream }
    | _, _ => none
  | .lockStream => match s.pc, s.client with
    | .running .lockingStream, some c => if c.streamMutex = none then
        some { s with
          pc := .running .emplacing, client := some { c with streamMutex := some .network } }
      else none
    | _, _ => none
  | .emplace => match s.pc, s.client with
    | .running .emplacing, some c => some { s with
        pc := .running .namingHost
        client := some { c with stream := .closed, streamMutex := none } }
    | _, _ => none
  | .read message => match s.pc, s.client with
    | .running .reading, some c => if c.allows .reading then
        some { s with pc := .running (.pushing message) }
      else none
    | _, _ => none
  | .push message _ => match s.pc with
    | .running (.pushing m) => if m = message then
        some { s with pc := .running .reading }
      else none
    | _ => none
  | .lockReset => match s.pc, s.clientMutex with
    | .lockingReset had, none => some { s with
        pc := .resetting had, clientMutex := some .network }
    | _, _ => none
  | .lockDestroy => match s.pc, s.client with
    | .resetting had, some c => if c.streamMutex = none then
        some { s with
          pc := .destroying had
          client := some { c with stopRequested := true, streamMutex := some .network } }
      else none
    | _, _ => none
  | .destroy => match s.pc with
    | .destroying had => some { s with pc := .checking had, client := none, clientMutex := none }
    | _ => none
  | .checkStop => match s.pc with
    | .checking had => some { s with
        pc := if s.stopRequested then .exited else if had then .lockingPolicy else .delaying }
    | _ => none
  | .lockClear => match s.pc, s.policy.mutex with
    | .lockingPolicy, none => some { s with
        pc := .clearing, policy := { s.policy with mutex := some .network } }
    | _, _ => none
  | .clear => match s.pc with
    | .clearing => some { s with pc := .delaying, policy := ⟨0, false, none⟩ }
    | _ => none
  | .delay delayMs => match s.pc with
    | .delaying => if delayMs = Backoff.baseDelayForAttempt R s.policy.attempt then
        some { s with pc := .acquiring false }
      else none
    | _ => none
  | .lockWait => match s.pc, s.policy.mutex with
    | .acquiring timedOut, none => some { s with
        pc := .waiting timedOut, policy := { s.policy with mutex := some .network } }
    | _, _ => none
  | .testWait => match s.pc with
    | .waiting timedOut => some { s with
        pc := if s.policy.stopRequested then .exited else if timedOut then .testing else .asleep
        policy := { s.policy with
          mutex := none
          attempt := if !s.policy.stopRequested && timedOut then s.policy.attempt + 1
            else s.policy.attempt } }
    | _ => none
  | .wake timedOut => match s.pc with
    | .asleep => some { s with pc := .acquiring timedOut }
    | _ => none
  | .stopCall => match s.stopper with
    | .idle => some { s with stopper := .storing }
    | .returned => some { s with stopper := .storing }
    | _ => none
  | .storeStop => match s.stopper with
    | .storing => some { s with stopper := .lockingPolicy, stopRequested := true }
    | _ => none
  | .policyLock => match s.stopper, s.policy.mutex with
    | .lockingPolicy, none => some { s with
        stopper := .settingPolicy, policy := { s.policy with mutex := some .stopper } }
    | _, _ => none
  | .policySet => match s.stopper with
    | .settingPolicy => some { s with
        stopper := .notifying, policy := { s.policy with stopRequested := true, mutex := none } }
    | _ => none
  | .policyNotify => match s.stopper with
    | .notifying => some { s with
        stopper := .lockingClient
        pc := match s.pc with
          | .asleep => .acquiring false
          | pc => pc }
    | _ => none
  | .clientLock => match s.stopper, s.clientMutex with
    | .lockingClient, none => some { s with
        stopper := .looking, clientMutex := some .stopper }
    | _, _ => none
  | .clientLook => match s.stopper, s.client with
    | .looking, some c => some { s with
        stopper := .lockingStream, client := some { c with stopRequested := true } }
    | .looking, none => some { s with stopper := .unlocking }
    | _, _ => none
  | .streamLock => match s.stopper, s.client with
    | .lockingStream, some c => if c.streamMutex = none then
        some { s with
          stopper := .closing, client := some { c with streamMutex := some .stopper } }
      else none
    | _, _ => none
  | .close => match s.stopper, s.client with
    | .closing, some c => some { s with
        stopper := .unlocking, client := some { c.close with streamMutex := none } }
    | _, _ => none
  | .unlockClient => match s.stopper with
    | .unlocking => some { s with stopper := .joining, clientMutex := none }
    | _ => none
  | .join => match s.stopper, s.pc with
    | .joining, .exited => some { s with stopper := .returned }
    | _, _ => none

/-! ### What the history of a run says -/

/-- The delays waited for, in order. -/
def delays (tr : List Act) : List UInt64 := tr.filterMap fun a => match a with
  | .delay delayMs => some delayMs
  | _ => none

/-- What an action adds to the number of messages read in the present attempt and to how the
attempts before it ended. -/
def record (past : ℕ × List Outcome) : Act → ℕ × List Outcome
  | .clientStart => (0, past.2)
  | .read _ => (past.1 + 1, past.2)
  | .fail .read => (past.1, past.2 ++ [.read past.1])
  | .fail stage => (past.1, past.2 ++ [.failed stage])
  | _ => past

def attempts (tr : List Act) : ℕ × List Outcome := tr.foldl record (0, [])

/-- How the attempts ended, in order. -/
def outcomes (tr : List Act) : List Outcome := (attempts tr).2

end BinanceAggregator.Network
