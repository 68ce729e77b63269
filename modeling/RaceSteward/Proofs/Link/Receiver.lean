import RaceSteward.Proofs.Frame.Conveys
import RaceSteward.Proofs.Link.Steady

/-!
# What the reader makes of a stream

A log keeps what can be seen of the reader along a run: the bytes that the server has sent, the
messages put into the inbound mailbox and how full each left it, what callers have taken, and the
failures given to the fatal handler.

`Faithful` ties the log to the connection as long as nothing but the reader ends it: each move keeps
it (`Faithful.step`), so a run does (`Faithful.run`).
-/

namespace RaceSteward

/-! ## Pushing into a mailbox with room -/

section Mailbox

variable {α : Type} {q q' : Mailbox α} {a : α}

theorem Mailbox.size_concat (q : Mailbox α) (a : α) :
    ({ q with pending := q.pending ++ [a] } : Mailbox α).size = q.size + 1 := by
  simp only [Mailbox.size, List.length_append, List.length_singleton]

theorem Mailbox.push_of_room (hroom : q.size < q.limits.nuke) :
    q.push a = (q.limits.check (q.size + 1), { q with pending := q.pending ++ [a] }) :=
  Mailbox.extend_of_room hroom [a]

theorem Mailbox.push_stores {pending : Nat} (hroom : q.size < q.limits.nuke)
    (h : q.push a = (.ok pending, q')) :
    q' = { q with pending := q.pending ++ [a] } ∧ q.size + 1 < q.limits.nuke := by
  rw [Mailbox.push_of_room hroom, Watermarks.check] at h
  split at h
  · cases h
  · cases h
    exact ⟨rfl, by omega⟩

/-- The message that makes a mailbox full is stored all the same. -/
theorem Mailbox.push_overflows {overflow : Overflow} (hroom : q.size < q.limits.nuke)
    (h : q.push a = (.error overflow, q')) :
    q' = { q with pending := q.pending ++ [a] } ∧ q.size + 1 = q.limits.nuke ∧
      overflow.pending = q.limits.nuke := by
  rw [Mailbox.push_of_room hroom, Watermarks.check] at h
  split at h
  · rename_i hfull
    cases h
    have hsize : q.size + 1 = q.limits.nuke := by omega
    exact ⟨rfl, hsize, hsize⟩
  · cases h

end Mailbox

namespace Link.Connection

open RaceSteward.Frame

/-- The connection once a message has gone from the front of the stream into the mailbox. -/
def store (c : Connection) (m : Message) (rest : Bytes) : Connection :=
  { c with arrived := rest, inbound := { c.inbound with pending := c.inbound.pending ++ [m] } }

/-! ## Logs -/

/-- A message put into the inbound mailbox, and how many were queued after it. -/
structure Push where
  message : Message
  queued : Nat

/-- What can be seen of the reader along a run. -/
structure Log where
  /-- The bytes that the server has sent. -/
  sent : Bytes
  pushes : List Push
  /-- What callers have taken. -/
  received : List Message
  /-- How many messages had been pushed each time that callers took. -/
  drains : List Nat
  /-- The failures that the reader gave to the fatal handler. -/
  reports : List Error
  /-- The failures of the network while reading. -/
  outages : List IoFailure

namespace Log

def empty : Log := ⟨[], [], [], [], [], []⟩

/-- The messages put into the inbound mailbox, in order. -/
def messages (log : Log) : List Message :=
  log.pushes.map (·.message)

/-- No push found or made the mailbox full. -/
def Fits (settings : Settings) (log : Log) : Prop :=
  ∀ push ∈ log.pushes, push.queued < settings.nuke

/-- One more push. -/
def push (log : Log) (m : Message) (queued : Nat) : Log :=
  { log with pushes := log.pushes ++ [⟨m, queued⟩] }

/-- A failure of the reader; only one that ends the process goes to the fatal handler. -/
def fail (log : Log) (e : Error) : Log :=
  { log with reports := log.reports ++ if e.isFatal then [e] else [] }

theorem reports_fail {log : Log} (h : log.reports = []) (e : Error) :
    (log.fail e).reports = if e.isFatal then [e] else [] := by
  rw [fail, h, List.nil_append]

/-- What the reader adds on the way from `c` to `d`. -/
def read (log : Log) (c d : Connection) : Log :=
  { log with
    pushes := log.pushes ++ (d.inbound.pending.drop c.inbound.size).map (⟨·, d.inbound.size⟩)
    reports := log.reports ++ d.fatal.drop c.fatal.length }

/-- The log after an event that leads from `c` to `d`. -/
def extend (log : Log) (c : Connection) (e : Event) (d : Connection) : Log :=
  match e with
  | .arrive bytes => { log with sent := log.sent ++ bytes }
  | .recv => { log with
      received := log.received ++ c.recv.1, drains := log.drains ++ [log.pushes.length] }
  | .receive => log.read c d
  | .readFails cause => { log.read c d with outages := log.outages ++ [cause] }
  | _ => log

/-- The log after events. -/
def follow (log : Log) (c : Connection) : List Event → Log
  | [] => log
  | e :: es =>
    match c.step? e with
    | none => log
    | some d => (log.extend c e d).follow d es

variable {settings : Settings} {log : Log} {c d : Connection}

theorem messages_push (log : Log) (m : Message) (queued : Nat) :
    (log.push m queued).messages = log.messages ++ [m] := by
  rw [messages, push, List.map_append]
  rfl

theorem Fits.push {m : Message} {queued : Nat} (h : log.Fits settings)
    (hqueued : queued < settings.nuke) : (log.push m queued).Fits settings := by
  intro push hpush
  rcases List.mem_append.mp hpush with hpush | hpush
  · exact h push hpush
  · rw [List.mem_singleton] at hpush
    rw [hpush]
    exact hqueued

theorem read_eq {more : List Message} {reports : List Error}
    (hpending : d.inbound.pending = c.inbound.pending ++ more)
    (hfatal : d.fatal = c.fatal ++ reports) :
    log.read c d = { log with
      pushes := log.pushes ++ more.map (⟨·, d.inbound.size⟩)
      reports := log.reports ++ reports } := by
  have hmore : (c.inbound.pending ++ more).drop c.inbound.size = more := List.drop_left
  rw [read, hpending, hfatal, hmore, List.drop_left]

theorem read_store (log : Log) (c : Connection) (m : Message) (rest : Bytes) :
    log.read c (c.store m rest) = log.push m (c.inbound.size + 1) := by
  have hpending : (c.store m rest).inbound.pending = c.inbound.pending ++ [m] := rfl
  have hfatal : (c.store m rest).fatal = c.fatal ++ [] := (List.append_nil _).symm
  have hsize : (c.store m rest).inbound.size = c.inbound.size + 1 := Mailbox.size_concat ..
  rw [read_eq hpending hfatal, hsize, List.append_nil]
  rfl

theorem read_fail (log : Log) (c : Connection) (arrived : Bytes) (e : Error) :
    log.read c ({ c with arrived := arrived }.failReading e) = log.fail e := by
  have hpending : ({ c with arrived := arrived }.failReading e).inbound.pending =
      c.inbound.pending ++ [] := by
    rw [inbound_failReading, List.append_nil]
  rw [read_eq hpending (fatal_failReading _ e), List.map_nil, List.append_nil]
  rfl

theorem read_store_fail (log : Log) (c : Connection) (m : Message) (rest : Bytes) (e : Error) :
    log.read c ((c.store m rest).failReading e) = (log.push m (c.inbound.size + 1)).fail e := by
  have hpending : ((c.store m rest).failReading e).inbound.pending = c.inbound.pending ++ [m] := by
    rw [inbound_failReading]
    rfl
  have hsize : (c.store m rest).inbound.size = c.inbound.size + 1 := Mailbox.size_concat ..
  rw [read_eq hpending (fatal_failReading (c.store m rest) e), inbound_failReading, hsize]
  rfl

theorem follow_cons {e : Event} (h : c.step? e = some d) (es : List Event) :
    log.follow c (e :: es) = (log.extend c e d).follow d es := by
  rw [follow, h]

end Log

/-- The log of a run of a new connection. -/
def history (settings : Settings) (es : List Event) : Log :=
  Log.empty.follow (new settings) es

/-! ## How full the mailbox was -/

/-- How many messages had been pushed when callers last took before the push with this index. -/
def lastDrain (drains : List Nat) (index : Nat) : Nat :=
  (drains.filter (· ≤ index)).getLastD 0

theorem lastDrain_concat_of_lt {drains : List Nat} {index n : Nat} (h : index < n) :
    lastDrain (drains ++ [n]) index = lastDrain drains index := by
  have hskip : [n].filter (· ≤ index) = [] := by
    rw [List.filter_eq_nil_iff]
    intro d hd
    rw [List.mem_singleton] at hd
    rw [decide_eq_true_eq]
    omega
  rw [lastDrain, List.filter_append, hskip, List.append_nil]
  rfl

theorem lastDrain_of_forall_le {drains : List Nat} {index : Nat} (h : ∀ n ∈ drains, n ≤ index) :
    lastDrain drains index = drains.getLastD 0 := by
  rw [lastDrain, List.filter_eq_self.mpr]
  intro n hn
  exact decide_eq_true (h n hn)

/-- What is queued has been pushed since callers last took, now and after each push. -/
structure Counted (pushes : List Push) (drains : List Nat) (queued : Nat) : Prop where
  drains_le : ∀ n ∈ drains, n ≤ pushes.length
  queued_eq : queued + drains.getLastD 0 = pushes.length
  push_eq : ∀ index push, pushes[index]? = some push →
    push.queued + lastDrain drains index = index + 1

section Counted

variable {pushes pushes' : List Push} {drains : List Nat} {queued queued' : Nat}

theorem counted_nil : Counted [] [] 0 :=
  ⟨fun _ h => (List.not_mem_nil h).elim, rfl, fun _ _ h => by cases h⟩

theorem Counted.push (h : Counted pushes drains queued) (m : Message) :
    Counted (pushes ++ [⟨m, queued + 1⟩]) drains (queued + 1) := by
  have hqueued := h.queued_eq
  have hlength : (pushes ++ [(⟨m, queued + 1⟩ : Push)]).length = pushes.length + 1 := by
    rw [List.length_append, List.length_singleton]
  refine ⟨fun n hn => ?_, by omega, fun index push hpush => ?_⟩
  · have hle := h.drains_le n hn
    omega
  · rw [List.getElem?_append] at hpush
    split at hpush
    · exact h.push_eq index push hpush
    · -- the new push comes after every drain
      have hlast : index = pushes.length := by
        have hbound := (List.getElem?_eq_some_iff.mp hpush).1
        rw [List.length_singleton] at hbound
        omega
      subst hlast
      rw [Nat.sub_self, List.getElem?_cons_zero, Option.some.injEq] at hpush
      subst hpush
      rw [lastDrain_of_forall_le h.drains_le]
      show queued + 1 + drains.getLastD 0 = pushes.length + 1
      omega

theorem Counted.drain (h : Counted pushes drains queued) :
    Counted pushes (drains ++ [pushes.length]) 0 := by
  refine ⟨fun n hn => ?_, ?_, fun index push hpush => ?_⟩
  · rcases List.mem_append.mp hn with hn | hn
    · exact h.drains_le n hn
    · rw [List.mem_singleton] at hn
      exact Nat.le_of_eq hn
  · rw [List.getLastD_concat, Nat.zero_add]
  · have hindex := (List.getElem?_eq_some_iff.mp hpush).1
    rw [lastDrain_concat_of_lt hindex]
    exact h.push_eq index push hpush

/-- Where callers took at the same points, the mailbox was equally full after the same push. -/
theorem Counted.queued_unique {index : Nat} {push push' : Push} (h : Counted pushes drains queued)
    (h' : Counted pushes' drains queued') (hpush : pushes[index]? = some push)
    (hpush' : pushes'[index]? = some push') : push'.queued = push.queued := by
  have hcount := h.push_eq index push hpush
  have hcount' := h'.push_eq index push' hpush'
  omega

end Counted

/-! ## How reading ends -/

/-- Why the reader has ended, and what it gave to the fatal handler. -/
inductive Ending (settings : Settings) (log : Log) (hungUp : Bool) : Prop where
  /-- The last message made the mailbox full. -/
  | overflow {front : List Push} {last : Push} {rest : Bytes}
    (hpushes : log.pushes = front ++ [last]) (hfront : ∀ push ∈ front, push.queued < settings.nuke)
    (hlast : last.queued = settings.nuke)
    (hconveys : Conveys settings.maxFrame log.sent log.messages rest)
    (hreports : log.reports = [.capacityExceeded settings.nuke])
  | tooLarge {length : UInt32} {unread : Bytes} (hfits : log.Fits settings)
    (hlongest : Longest settings.maxFrame log.sent log.messages (Word.toBytes length ++ unread))
    (hlimit : settings.maxFrame ≤ length) (hreports : log.reports = [])
  | malformed {payload rest : Bytes} {e : DecodeError} (hfits : log.Fits settings)
    (hlongest : Longest settings.maxFrame log.sent log.messages (encode payload ++ rest))
    (hlength : payload.length < settings.maxFrame.toNat)
    (hdecode : Message.decode payload = .error e) (hreports : log.reports = [])
  | endOfStream {rest : Bytes} (hfits : log.Fits settings) (hhungUp : hungUp = true)
    (hlongest : Longest settings.maxFrame log.sent log.messages rest)
    (hrest : Incomplete settings.maxFrame rest)
    (hreports : log.reports = [.receiveFailed .unexpectedEof])
  | outage {cause : IoFailure} {rest : Bytes} (hfits : log.Fits settings)
    (hconveys : Conveys settings.maxFrame log.sent log.messages rest)
    (houtages : log.outages = [cause]) (hreports : log.reports = [.receiveFailed cause])

variable {settings : Settings} {log log' : Log} {c d : Connection} {hungUp hungUp' : Bool}

theorem Ending.later {more : Bytes} (h : Ending settings log hungUp)
    (hpushes : log'.pushes = log.pushes) (hreports : log'.reports = log.reports)
    (houtages : log'.outages = log.outages) (hsent : log'.sent = log.sent ++ more)
    (hmore : hungUp = true → more = []) (hhungUp : hungUp = true → hungUp' = true) :
    Ending settings log' hungUp' := by
  have hfits' : log.Fits settings → log'.Fits settings := by
    intro hfits push hpush
    rw [hpushes] at hpush
    exact hfits push hpush
  have hconveys' : ∀ {rest : Bytes}, Conveys settings.maxFrame log.sent log.messages rest →
      Conveys settings.maxFrame log'.sent log'.messages (rest ++ more) := by
    intro rest hconveys
    rw [hsent, Log.messages, hpushes]
    exact hconveys.append more
  cases h with
  | overflow hfront hpush hlast hconveys hreport =>
    exact .overflow (hpushes.trans hfront) hpush hlast (hconveys' hconveys) (hreports.trans hreport)
  | @tooLarge length unread hfits hlongest hlimit hreport =>
    have hlater := hconveys' hlongest.conveys
    rw [List.append_assoc] at hlater
    have hlongest' := longest_of_stuck hlater (stuck_of_tooLarge hlimit (unread ++ more))
    exact .tooLarge (hfits' hfits) hlongest' hlimit (hreports.trans hreport)
  | @malformed payload rest e hfits hlongest hlength hdecode hreport =>
    have hlater := hconveys' hlongest.conveys
    rw [List.append_assoc] at hlater
    have hlongest' := longest_of_stuck hlater (stuck_of_malformed hlength hdecode (rest ++ more))
    exact .malformed (hfits' hfits) hlongest' hlength hdecode (hreports.trans hreport)
  | endOfStream hfits hhung hlongest hrest hreport =>
    have hlater := hconveys' hlongest.conveys
    rw [hmore hhung, List.append_nil] at hlater
    have hlongest' := longest_of_stuck hlater (stuck_of_incomplete hrest)
    exact .endOfStream (hfits' hfits) (hhungUp hhung) hlongest' hrest (hreports.trans hreport)
  | outage hfits hconveys houtage hreport =>
    exact .outage (hfits' hfits) (hconveys' hconveys) (houtages.trans houtage)
      (hreports.trans hreport)

/-! ## What a run keeps -/

/-- Before the reader has ended: all it has read was pushed, and there is room for more. -/
structure Underway (settings : Settings) (log : Log) (arrived : Bytes) (queued : Nat) : Prop where
  conveys : Conveys settings.maxFrame log.sent log.messages arrived
  fits : log.Fits settings
  room : queued < settings.nuke
  reports : log.reports = []
  outages : log.outages = []

/-- The log tells what the connection has made of the stream. -/
structure Faithful (settings : Settings) (log : Log) (c : Connection) : Prop where
  settings_eq : c.settings = settings
  limits_eq : c.inbound.limits = settings.watermarks
  delivered : log.received ++ c.inbound.pending = log.messages
  counted : Counted log.pushes log.drains c.inbound.size
  bounded : c.inbound.size ≤ settings.nuke
  unconnected : c.readerHalf ≠ .offered → log.pushes = [] ∧ log.reports = []
  underway : c.reader ≠ .done → Underway settings log c.arrived c.inbound.size
  ended : c.reader = .done → c.readerHalf = .offered → Ending settings log c.hungUp

theorem faithful_new (hnuke : 1 ≤ settings.nuke) : Faithful settings Log.empty (new settings) where
  settings_eq := rfl
  limits_eq := rfl
  delivered := rfl
  counted := counted_nil
  bounded := Nat.zero_le settings.nuke
  unconnected _ := ⟨rfl, rfl⟩
  underway _ := ⟨conveys_nil _ _, fun _ h => (List.not_mem_nil h).elim, hnuke, rfl, rfl⟩
  ended h := by cases h

/-! ## One move of the reader -/

theorem Faithful.arrived_eq {payload rest : Bytes} (h : Faithful settings log c)
    (hfront : next c.settings.maxFrame c.arrived = .whole payload rest) :
    c.arrived = encode payload ++ rest ∧ payload.length < settings.maxFrame.toNat := by
  rw [h.settings_eq] at hfront
  exact next_eq_whole_iff.mp hfront

theorem Faithful.store {payload rest : Bytes} {m : Message} (h : Faithful settings log c)
    (hopen : c.reader ≠ .done) (hfront : next c.settings.maxFrame c.arrived = .whole payload rest)
    (hdecode : Message.decode payload = .ok m) (queued : Nat) :
    log.received ++ (c.store m rest).inbound.pending = (log.push m queued).messages ∧
      Conveys settings.maxFrame log.sent (log.push m queued).messages rest := by
  obtain ⟨harrived, hlength⟩ := h.arrived_eq hfront
  have hconveys := (h.underway hopen).conveys
  rw [harrived] at hconveys
  rw [Log.messages_push]
  constructor
  · rw [← h.delivered, List.append_assoc]
    rfl
  · exact hconveys.concat hlength hdecode

theorem Faithful.nuke_eq (h : Faithful settings log c) : c.inbound.limits.nuke = settings.nuke := by
  rw [h.limits_eq]
  rfl

theorem Faithful.room (h : Faithful settings log c) (hopen : c.reader ≠ .done) :
    c.inbound.size < c.inbound.limits.nuke := by
  rw [h.nuke_eq]
  exact (h.underway hopen).room

theorem Faithful.receive {payload rest : Bytes} {m : Message} (h : Faithful settings log c)
    (hhalf : c.readerHalf = .offered) (hopen : c.reader ≠ .done)
    (hfront : next c.settings.maxFrame c.arrived = .whole payload rest)
    (hdecode : Message.decode payload = .ok m) (hbelow : c.inbound.size + 1 < settings.nuke) :
    Faithful settings (log.read c (c.store m rest)) (c.store m rest) := by
  have hunder := h.underway hopen
  have hsize : (c.store m rest).inbound.size = c.inbound.size + 1 := Mailbox.size_concat ..
  obtain ⟨hdelivered, hconveys⟩ := h.store hopen hfront hdecode (c.inbound.size + 1)
  rw [Log.read_store]
  exact {
    settings_eq := h.settings_eq
    limits_eq := h.limits_eq
    delivered := hdelivered
    counted := by
      rw [hsize]
      exact h.counted.push m
    bounded := by omega
    unconnected := fun hnever => absurd hhalf hnever
    underway := fun _ =>
      ⟨hconveys, hunder.fits.push hbelow, by omega, hunder.reports, hunder.outages⟩
    ended := fun hdone => absurd hdone hopen }

theorem Faithful.failReading (h : Faithful settings log c) (hhalf : c.readerHalf = .offered)
    (hending : Ending settings log' c.hungUp) (hreceived : log'.received = log.received)
    (hpushes : log'.pushes = log.pushes) (hdrains : log'.drains = log.drains) (arrived : Bytes)
    (e : Error) :
    Faithful settings log' ({ c with arrived := arrived }.failReading e) := by
  rw [failReading_eq]
  exact {
    settings_eq := h.settings_eq
    limits_eq := h.limits_eq
    delivered := by
      rw [hreceived, Log.messages, hpushes]
      exact h.delivered
    counted := by
      rw [hpushes, hdrains]
      exact h.counted
    bounded := h.bounded
    unconnected := fun hnever => absurd hhalf hnever
    underway := fun hopen => absurd rfl hopen
    ended := fun _ _ => hending }

theorem Faithful.fail {e : Error} (h : Faithful settings log c) (hhalf : c.readerHalf = .offered)
    (hending : Ending settings (log.fail e) c.hungUp) (arrived : Bytes) :
    Faithful settings (log.read c ({ c with arrived := arrived }.failReading e))
      ({ c with arrived := arrived }.failReading e) := by
  rw [Log.read_fail]
  exact h.failReading hhalf hending rfl rfl rfl arrived e

theorem Faithful.overflow {payload rest : Bytes} {m : Message} (h : Faithful settings log c)
    (hhalf : c.readerHalf = .offered) (hopen : c.reader ≠ .done)
    (hfront : next c.settings.maxFrame c.arrived = .whole payload rest)
    (hdecode : Message.decode payload = .ok m) (hfull : c.inbound.size + 1 = settings.nuke) :
    Faithful settings ((log.push m settings.nuke).fail (.capacityExceeded settings.nuke))
      ((c.store m rest).failReading (.capacityExceeded settings.nuke)) := by
  have hunder := h.underway hopen
  have hsize : (c.store m rest).inbound.size = c.inbound.size + 1 := Mailbox.size_concat ..
  obtain ⟨hdelivered, hconveys⟩ := h.store hopen hfront hdecode settings.nuke
  rw [failReading_eq]
  exact {
    settings_eq := h.settings_eq
    limits_eq := h.limits_eq
    delivered := hdelivered
    counted := by
      have hcounted := h.counted.push m
      rw [← hsize] at hcounted
      rw [← hfull, ← hsize]
      exact hcounted
    bounded := by show (c.store m rest).inbound.size ≤ settings.nuke; omega
    unconnected := fun hnever => absurd hhalf hnever
    underway := fun hnever => absurd rfl hnever
    ended := fun _ _ =>
      .overflow rfl hunder.fits rfl hconveys (Log.reports_fail hunder.reports _) }

theorem Faithful.step {e : Event} (hsteady : Steady c) (h : Faithful settings log c)
    (hstep : Step c e d) : Faithful settings (log.extend c e d) d := by
  cases hstep with
  | start hidle =>
    obtain ⟨-, hreader⟩ := hsteady.idle hidle
    exact { h with
      underway := fun _ => h.underway (by rw [hreader]; decide)
      ended := fun hdone => by cases hdone }
  | recv =>
    have hlater : log.sent = log.sent ++ [] := (List.append_nil _).symm
    exact {
      settings_eq := h.settings_eq
      limits_eq := h.limits_eq
      delivered := (List.append_nil _).trans h.delivered
      counted := h.counted.drain
      bounded := Nat.zero_le settings.nuke
      unconnected := h.unconnected
      underway := fun hopen =>
        { h.underway hopen with room := Nat.zero_lt_of_lt (h.underway hopen).room }
      ended := fun hdone hoffered =>
        (h.ended hdone hoffered).later rfl rfl rfl hlater (fun _ => rfl) id }
  | dialAbandoned hdialler | dialFails hdialler | greetOverflow hdialler | handOverNone hdialler =>
    have hhalf := hsteady.pending (by rw [hdialler]; decide)
    exact { h with
      unconnected := fun _ => h.unconnected (by rw [hhalf]; decide)
      ended := fun _ hoffered => by cases hoffered }
  | handOver hdialler hwriter hreader =>
    exact { h with
      unconnected := fun hnever => absurd rfl hnever
      ended := fun hdone => absurd hdone hreader }
  | handOverWriter hdialler hwriter hreader =>
    exact absurd hreader (hsteady.not_done (by rw [hdialler]; decide))
  | readerBegins hreader =>
    exact { h with
      underway := fun _ => h.underway (by rw [hreader]; decide)
      ended := fun hdone => by cases hdone }
  | readerLeaves hreader hwhy =>
    have hhalf := hsteady.withdrawn_of_leaves hreader hwhy
    exact { h with
      underway := fun hopen => absurd rfl hopen
      ended := fun _ hoffered => by
        change c.readerHalf = .offered at hoffered
        rw [hhalf] at hoffered
        cases hoffered }
  | readerStops hreader hstopping =>
    rw [hsteady.clear_of_reading hreader] at hstopping
    cases hstopping
  | receive hreader hfront hdecode hpush =>
    have hopen : c.reader ≠ .done := by rw [hreader]; decide
    obtain ⟨rfl, hbelow⟩ := Mailbox.push_stores (h.room hopen) hpush
    rw [h.nuke_eq] at hbelow
    exact h.receive (hsteady.reading hreader) hopen hfront hdecode hbelow
  | @receiveOverflow payload rest m overflow inbound hreader hfront hdecode hpush =>
    have hopen : c.reader ≠ .done := by rw [hreader]; decide
    obtain ⟨rfl, hfull, hpending⟩ := Mailbox.push_overflows (h.room hopen) hpush
    rw [h.nuke_eq] at hfull hpending
    have hlog := Log.read_store_fail log c m rest (.capacityExceeded settings.nuke)
    rw [hfull] at hlog
    have hover := h.overflow (hsteady.reading hreader) hopen hfront hdecode hfull
    rw [← hlog] at hover
    rw [hpending]
    exact hover
  -- what ends the reader stands behind the longest run of frames that the stream conveys
  | @receiveMalformed payload rest e hreader hfront hdecode =>
    have hunder := h.underway (by rw [hreader]; decide)
    obtain ⟨harrived, hlength⟩ := h.arrived_eq hfront
    have hconveys := hunder.conveys
    rw [harrived] at hconveys
    have hlongest := longest_of_stuck hconveys (stuck_of_malformed hlength hdecode rest)
    have hending : Ending settings (log.fail (.malformed e)) c.hungUp :=
      .malformed hunder.fits hlongest hlength hdecode (Log.reports_fail hunder.reports _)
    exact h.fail (hsteady.reading hreader) hending rest
  | @receiveTooLarge length unread hreader hfront =>
    have hunder := h.underway (by rw [hreader]; decide)
    rw [h.settings_eq] at hfront ⊢
    obtain ⟨harrived, hlimit⟩ := next_eq_tooLarge_iff.mp hfront
    have hconveys := hunder.conveys
    rw [harrived] at hconveys
    have hlongest := longest_of_stuck hconveys (stuck_of_tooLarge hlimit unread)
    have hending : Ending settings (log.fail (.frameTooLarge length settings.maxFrame)) c.hungUp :=
      .tooLarge hunder.fits hlongest hlimit (Log.reports_fail hunder.reports _)
    exact h.fail (hsteady.reading hreader) hending c.arrived
  | receiveEnd hreader hfront hhungUp =>
    have hunder := h.underway (by rw [hreader]; decide)
    rw [h.settings_eq] at hfront
    have hrest := next_eq_incomplete_iff.mp hfront
    have hlongest := longest_of_stuck hunder.conveys (stuck_of_incomplete hrest)
    have hending : Ending settings (log.fail (.receiveFailed .unexpectedEof)) c.hungUp :=
      .endOfStream hunder.fits hhungUp hlongest hrest (Log.reports_fail hunder.reports _)
    exact h.fail (hsteady.reading hreader) hending c.arrived
  | @readFails cause hreader =>
    have hunder := h.underway (by rw [hreader]; decide)
    have hlog := Log.read_fail log c c.arrived (.receiveFailed cause)
    have houtages : log.outages ++ [cause] = [cause] := by rw [hunder.outages]; rfl
    have hending : Ending settings
        { log.fail (.receiveFailed cause) with outages := log.outages ++ [cause] } c.hungUp :=
      .outage hunder.fits hunder.conveys houtages (Log.reports_fail hunder.reports _)
    have hfail := h.failReading (hsteady.reading hreader) hending rfl rfl rfl c.arrived
      (.receiveFailed cause)
    rw [← hlog] at hfail
    exact hfail
  | @arrive bytes hhungUp =>
    exact { h with
      underway := fun hopen =>
        { h.underway hopen with conveys := (h.underway hopen).conveys.append bytes }
      ended := fun hdone hoffered =>
        (h.ended hdone hoffered).later rfl rfl rfl rfl
          (fun hhung => by rw [hhungUp] at hhung; cases hhung) id }
  | hangUp =>
    have hlater : log.sent = log.sent ++ [] := (List.append_nil _).symm
    exact { h with
      ended := fun hdone hoffered =>
        (h.ended hdone hoffered).later rfl rfl rfl hlater (fun _ => rfl) (fun _ => rfl) }
  | _ => exact { h with }

theorem Faithful.run {es : List Event} (hsteady : Steady c) (h : Faithful settings log c)
    (hrun : c.run? es = some d) (hfree : Undisturbed c es) :
    Faithful settings (log.follow c es) d := by
  induction es generalizing c log with
  | nil =>
    cases hrun
    exact h
  | cons e es ih =>
    obtain ⟨next, hnext, hrest⟩ := Option.bind_eq_some_iff.mp hrun
    have hstep := step_of_step? hnext
    rw [Log.follow_cons hnext]
    exact ih (hsteady.step hstep hfree.1) (h.step hsteady hstep) hrest (hfree.2 next hnext)

end Link.Connection

end RaceSteward
