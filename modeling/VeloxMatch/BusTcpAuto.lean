import VeloxMatch.BusTcp

namespace VeloxMatch

structure OmBusTcpAutoClientConfig where
  recvBufSize : Nat
  flags : OmBusFlags
  maxRetries : Nat
  retryBaseMs : Nat
  retryMaxMs : Nat
  deriving DecidableEq, Repr

structure OmBusTcpAutoClient where
  inner : Option OmBusTcpClient
  cfg : OmBusTcpAutoClientConfig
  lastWalSeq : UInt64
  retryCount : Nat
  currentBackoffMs : Nat
  nextRetryMs : Nat
  disconnected : Bool
  deriving DecidableEq, Repr

/-- `om_bus_tcp_auto_client_create` once the first connection is made. -/
def omBusTcpAutoClientCreate (cfg : OmBusTcpAutoClientConfig) : OmBusTcpAutoClient where
  inner := some (omBusTcpClientConnect cfg.recvBufSize cfg.flags)
  cfg :=
    { cfg with
      retryBaseMs := if cfg.retryBaseMs = 0 then 100 else cfg.retryBaseMs
      retryMaxMs := if cfg.retryMaxMs = 0 then 5000 else cfg.retryMaxMs }
  lastWalSeq := 0
  retryCount := 0
  currentBackoffMs := 0
  nextRetryMs := 0
  disconnected := false

/-- What a poll meets: the clock when it starts and when it sets the next attempt, whether an
attempt to connect succeeds, and what `recv` returns. -/
structure AutoEvent where
  now : Nat
  later : Nat
  connected : Bool
  recv : RecvResult
  deriving DecidableEq, Repr

namespace OmBusTcpAutoClient

variable (client : OmBusTcpAutoClient)

def connectFailed (later : Nat) : OmBusTcpAutoClient :=
  let doubled := client.currentBackoffMs * 2 % 2 ^ 32
  let backoff := if client.cfg.retryMaxMs < doubled then client.cfg.retryMaxMs else doubled
  { client with
    retryCount := (client.retryCount + 1) % 2 ^ 32
    currentBackoffMs := backoff
    nextRetryMs := (later + backoff) % 2 ^ 64 }

def reconnected : OmBusTcpAutoClient :=
  { client with
    inner := some (omBusTcpClientConnect client.cfg.recvBufSize client.cfg.flags)
    disconnected := false
    retryCount := 0
    currentBackoffMs := client.cfg.retryBaseMs }

def lost (later : Nat) : OmBusTcpAutoClient :=
  { client with
    inner := none
    disconnected := true
    currentBackoffMs := client.cfg.retryBaseMs
    nextRetryMs := (later + client.cfg.retryBaseMs) % 2 ^ 64 }

def pollInner (event : AutoEvent) : OmBusTcpPollResult × Option OmBusRecord × OmBusTcpAutoClient :=
  match client.inner with
  | none => (.init, none, client)
  | some inner =>
    match inner.poll event.recv with
    | (.record .delivered, some rec, inner) =>
      (.record .delivered, some rec, { client with inner := some inner, lastWalSeq := rec.walSeq })
    | (.disconnected, _, _) => (.empty, none, client.lost event.later)
    | (result, rec, inner) => (result, rec, { client with inner := some inner })

/-- The part of a poll before it: the client to go on with, or what the poll returns. -/
def prepare (event : AutoEvent) :
    Except (OmBusTcpPollResult × OmBusTcpAutoClient) OmBusTcpAutoClient :=
  if client.disconnected then
    if event.now < client.nextRetryMs then .error (.empty, client)
    else if 0 < client.cfg.maxRetries ∧ client.cfg.maxRetries ≤ client.retryCount then
      .error (.disconnected, client)
    else if event.connected then .ok client.reconnected
    else .error (.empty, client.connectFailed event.later)
  else .ok client

def poll (event : AutoEvent) : OmBusTcpPollResult × Option OmBusRecord × OmBusTcpAutoClient :=
  match client.prepare event with
  | .error (result, client) => (result, none, client)
  | .ok client => client.pollInner event

def walSeq : UInt64 :=
  match client.inner with
  | some inner => inner.lastWalSeq
  | none => client.lastWalSeq

end OmBusTcpAutoClient

/-- A record that a poll delivered, over which connection, and what the poll returned. -/
structure AutoReport where
  connection : Nat
  result : OmBusPollResult
  record : OmBusRecord
  deriving DecidableEq, Repr

structure AutoState where
  client : OmBusTcpAutoClient
  connection : Nat
  reports : List AutoReport
  deriving DecidableEq, Repr

namespace AutoState

def start (cfg : OmBusTcpAutoClientConfig) : AutoState := ⟨omBusTcpAutoClientCreate cfg, 0, []⟩

/-- A poll over a connection; `recv` returns no more than the poll asks for. -/
def pollOver (s : AutoState) (connection : Nat) (client : OmBusTcpAutoClient)
    (event : AutoEvent) : Option AutoState :=
  if event.recv.bytes.length ≤ (client.inner.map OmBusTcpClient.room).getD 0 then
    let out := s.client.poll event
    some
      { client := out.2.2
        connection := connection
        reports :=
          match out with
          | (.record result, some rec, _) => s.reports ++ [⟨connection, result, rec⟩]
          | _ => s.reports }
  else none

def step (s : AutoState) (event : AutoEvent) : Option AutoState :=
  match s.client.prepare event with
  | .error _ => some { s with client := (s.client.poll event).2.2 }
  | .ok client =>
    s.pollOver (if s.client.disconnected then s.connection + 1 else s.connection) client event

end AutoState

open AutoState OmBusTcpAutoClient List

section Poll

variable (client : OmBusTcpClient)

theorem receive_eq (recv : RecvResult) :
    ∃ w, (client.receive recv).1 = { client with recv := w } := by
  obtain ⟨w, hw⟩ : ∃ w, client.makeRoom = { client with recv := w } := by
    unfold OmBusTcpClient.makeRoom
    split <;> exact ⟨_, rfl⟩
  simp only [OmBusTcpClient.receive, hw]
  split
  · cases recv <;> exact ⟨_, rfl⟩
  · exact ⟨_, rfl⟩

theorem poll_cases (recv : RecvResult) :
    (∃ w result, client.poll recv = (result, none, { client with recv := w }) ∧
      ∀ g, result ≠ .record g) ∨
    ∃ w rec, client.poll recv =
      (.record (omBusGapResult client.flags client.expectedWalSeq rec.walSeq), some rec,
        { client with
          recv := w
          expectedWalSeq := rec.walSeq + 1
          lastWalSeq := rec.walSeq }) := by
  obtain ⟨w, hw⟩ := receive_eq client recv
  rw [OmBusTcpClient.poll, hw]
  generalize (client.receive recv).2 = closed
  have hincomplete : ∀ g, (if closed then OmBusTcpPollResult.disconnected else .empty) ≠
      .record g := by
    cases closed <;> simp
  simp only [OmBusTcpClient.parse]
  split
  · exact .inl ⟨_, _, rfl, hincomplete⟩
  split
  · exact .inl ⟨_, _, rfl, by simp⟩
  split
  · exact .inl ⟨_, _, rfl, hincomplete⟩
  split
  · exact .inl ⟨_, _, rfl, by simp⟩
  · exact .inr ⟨_, ⟨_, _, _⟩, rfl⟩

end Poll

def lastSeq (reports : List AutoReport) : UInt64 :=
  (reports.getLast?.map (·.record.walSeq)).getD 0

def GapsReported (reports : List AutoReport) : Prop :=
  ∀ i r r', reports[i]? = some r → reports[i + 1]? = some r' → r.connection = r'.connection →
    r.record.walSeq.toNat + 1 < r'.record.walSeq.toNat → r'.result = .gapDetected

theorem GapsReported.append {reports : List AutoReport} {new : AutoReport}
    (h : GapsReported reports)
    (hnew : ∀ r ∈ reports.getLast?, r.connection = new.connection →
      r.record.walSeq.toNat + 1 < new.record.walSeq.toNat → new.result = .gapDetected) :
    GapsReported (reports ++ [new]) := by
  intro i r r' hr hr' hconn hskip
  rcases Nat.lt_or_ge (i + 1) reports.length with hlt | hge
  · rw [getElem?_append_left hlt] at hr'
    rw [getElem?_append_left (by omega)] at hr
    exact h i r r' hr hr' hconn hskip
  · have hlen := (List.getElem?_eq_some_iff.mp hr').1
    rw [length_append, length_singleton] at hlen
    rw [getElem?_append_left (by omega)] at hr
    rw [getElem?_append_right hge, show i + 1 - reports.length = 0 by omega] at hr'
    cases hr'
    have hlast : reports.getLast? = some r := by
      rw [getLast?_eq_getElem?, show reports.length - 1 = i by omega, hr]
    exact hnew r hlast hconn hskip

structure AutoInv (s : AutoState) : Prop where
  inner : s.client.disconnected = s.client.inner.isNone
  connection : ∀ r ∈ s.reports, r.connection ≤ s.connection
  tracked : ∀ inner ∈ s.client.inner, ∀ r ∈ s.reports.getLast?, r.connection = s.connection →
    inner.expectedWalSeq = r.record.walSeq + 1 ∧ inner.lastWalSeq = r.record.walSeq
  kept : ∀ r ∈ s.reports.getLast?, r.result = .delivered → s.client.lastWalSeq = r.record.walSeq
  unused : s.reports = [] →
    s.client.lastWalSeq = 0 ∧ ∀ inner ∈ s.client.inner, inner.lastWalSeq = 0
  gaps : GapsReported s.reports

theorem AutoInv.start (cfg : OmBusTcpAutoClientConfig) : AutoInv (.start cfg) where
  inner := rfl
  connection := nofun
  tracked := nofun
  kept := nofun
  unused _ := ⟨rfl, fun inner hinner => by cases hinner; rfl⟩
  gaps := nofun

section Step

variable {s s' : AutoState} {client client' : OmBusTcpAutoClient} {event : AutoEvent}
  {inner : OmBusTcpClient} {w : ByteWindow}

theorem AutoInv.of_same (h : AutoInv s)
    (hinner : client.inner = s.client.inner) (hdis : client.disconnected = s.client.disconnected)
    (hlast : client.lastWalSeq = s.client.lastWalSeq) : AutoInv { s with client := client } where
  inner := by simpa only [hinner, hdis] using h.inner
  connection := h.connection
  tracked := by simpa only [hinner] using h.tracked
  kept := by simpa only [hlast] using h.kept
  unused := by simpa only [hlast, hinner] using h.unused
  gaps := h.gaps

theorem AutoInv.reconnected (h : AutoInv s) :
    AutoInv ⟨s.client.reconnected, s.connection + 1, s.reports⟩ where
  inner := rfl
  connection r hr := Nat.le_succ_of_le (h.connection r hr)
  tracked inner _ r hr hconn := by
    have hle := h.connection r (mem_of_getLast? hr)
    have hconn : r.connection = s.connection + 1 := hconn
    omega
  kept := h.kept
  unused hnil := ⟨(h.unused hnil).1, fun inner hinner => by cases hinner; rfl⟩
  gaps := h.gaps

theorem AutoInv.quiet (h : AutoInv s) (hinner : s.client.inner = some inner) :
    AutoInv { s with client := { s.client with inner := some { inner with recv := w } } } where
  inner := by
    have hopen := h.inner
    rw [hinner] at hopen
    exact hopen
  connection := h.connection
  tracked inner' hinner' r hr hconn := by
    cases hinner'
    exact h.tracked inner hinner r hr hconn
  kept := h.kept
  unused hnil := ⟨(h.unused hnil).1, fun inner' hinner' => by
    cases hinner'
    exact (h.unused hnil).2 inner hinner⟩
  gaps := h.gaps

theorem AutoInv.lost (h : AutoInv s) (later : Nat) :
    AutoInv { s with client := s.client.lost later } where
  inner := rfl
  connection := h.connection
  tracked := nofun
  kept := h.kept
  unused hnil := ⟨(h.unused hnil).1, nofun⟩
  gaps := h.gaps

theorem AutoInv.deliver (h : AutoInv s)
    (hinner : s.client.inner = some inner) (rec : OmBusRecord) (last : UInt64)
    (hlast : omBusGapResult inner.flags inner.expectedWalSeq rec.walSeq = .delivered →
      last = rec.walSeq) :
    AutoInv
      { client :=
          { s.client with
            inner := some
              { inner with
                recv := w
                expectedWalSeq := rec.walSeq + 1
                lastWalSeq := rec.walSeq }
            lastWalSeq := last }
        connection := s.connection
        reports := s.reports ++ [⟨s.connection,
          omBusGapResult inner.flags inner.expectedWalSeq rec.walSeq, rec⟩] } where
  inner := by
    have hopen := h.inner
    rw [hinner] at hopen
    exact hopen
  connection r hr := by
    rcases mem_append.mp hr with hr | hr
    · exact h.connection r hr
    · cases mem_singleton.mp hr
      exact Nat.le_refl _
  tracked inner' hinner' r hr _ := by
    cases hinner'
    rw [getLast?_concat] at hr
    cases hr
    exact ⟨rfl, rfl⟩
  kept r hr hres := by
    rw [getLast?_concat] at hr
    cases hr
    exact hlast hres
  unused hnil := by simp at hnil
  gaps := by
    refine h.gaps.append fun r hr hconn hskip => ?_
    rw [(h.tracked inner hinner r hr hconn).1]
    exact omBusGapResult_of_skip _ hskip

def AutoState.after (s : AutoState)
    (out : OmBusTcpPollResult × Option OmBusRecord × OmBusTcpAutoClient) : AutoState where
  client := out.2.2
  connection := s.connection
  reports :=
    match out with
    | (.record result, some rec, _) => s.reports ++ [⟨s.connection, result, rec⟩]
    | _ => s.reports

theorem AutoInv.pollInner (h : AutoInv s) (event : AutoEvent) :
    AutoInv (s.after (s.client.pollInner event)) := by
  unfold OmBusTcpAutoClient.pollInner
  split
  · exact h
  next inner hinner =>
  rcases poll_cases inner event.recv with ⟨w, result, heq, hnone⟩ | ⟨w, rec, heq⟩
  · rw [heq]
    cases result with
    | record g => exact absurd rfl (hnone g)
    | disconnected => exact h.lost event.later
    | empty | init | slowWarning | protocol => exact h.quiet hinner
  · rw [heq]
    have hdeliver := fun last => h.deliver (w := w) hinner rec last
    generalize omBusGapResult inner.flags inner.expectedWalSeq rec.walSeq = g at hdeliver ⊢
    cases g with
    | delivered => exact hdeliver _ fun _ => rfl
    | empty | gapDetected | reorderDetected | recordTooLarge | crcMismatch | lapped =>
      exact hdeliver _ nofun

theorem prepare_error
    {result : OmBusTcpPollResult} (h : client.prepare event = .error (result, client')) :
    client'.inner = client.inner ∧ client'.disconnected = client.disconnected ∧
      client'.lastWalSeq = client.lastWalSeq := by
  unfold prepare at h
  repeat' split at h
  all_goals cases h
  all_goals exact ⟨rfl, rfl, rfl⟩

theorem prepare_ok (h : client.prepare event = .ok client') :
    client' = if client.disconnected then client.reconnected else client := by
  unfold prepare at h
  repeat' split at h
  all_goals cases h
  all_goals simp [*]

theorem AutoInv.step (h : AutoInv s) (hs : s.step event = some s') : AutoInv s' := by
  unfold AutoState.step at hs
  split at hs
  · next out hprep =>
    cases hs
    obtain ⟨hinner, hdis, hlast⟩ := prepare_error hprep
    simp only [poll, hprep]
    exact h.of_same hinner hdis hlast
  · next client hprep =>
    simp only [pollOver, poll, hprep] at hs
    split at hs
    · cases hs
      have hclient := prepare_ok hprep
      split
      · next hdis =>
        rw [if_pos hdis] at hclient
        rw [hclient]
        exact h.reconnected.pollInner event
      · next hdis =>
        rw [if_neg hdis] at hclient
        rw [hclient]
        exact h.pollInner event
    · cases hs

end Step

/-- A client that reconnects reports gaps within each connection. It knows the number of the last
record while the connection that brought it lasts, and once it is lost if there was no gap. -/
theorem auto_client_tracks {cfg : OmBusTcpAutoClientConfig} {s : AutoState}
    (hrun : Runs step anyAction (.start cfg) s) :
    GapsReported s.reports ∧
      ((∀ r ∈ s.reports.getLast?,
          if s.client.disconnected then r.result = .delivered else r.connection = s.connection) →
        s.client.walSeq = lastSeq s.reports) := by
  have h : AutoInv s := hrun.invariant (AutoInv.start cfg) fun _ _ _ hinv _ hs => hinv.step hs
  refine ⟨h.gaps, fun hlast => ?_⟩
  unfold walSeq lastSeq
  cases hr : s.reports.getLast? with
  | none =>
    obtain ⟨hzero, hinner⟩ := h.unused (getLast?_eq_none_iff.mp hr)
    split
    · next inner hsome => exact hinner inner hsome
    · exact hzero
  | some r =>
    have hcond := hlast r hr
    rw [h.inner] at hcond
    split
    · next inner hsome =>
      rw [hsome] at hcond
      exact (h.tracked inner hsome r hr hcond).2
    · next hnone =>
      rw [hnone] at hcond
      exact h.kept r hr hcond

def smallAutoConfig : OmBusTcpAutoClientConfig := ⟨64, ⟨false, false, false⟩, 0, 0, 0⟩

def numbered (walSeq : UInt64) : OmBusRecord := ⟨walSeq, 1, [9]⟩

def autoPoll (now : Nat) (connected : Bool) (recv : RecvResult) : AutoEvent :=
  ⟨now, now, connected, recv⟩

def gapEvents : List AutoEvent :=
  [autoPoll 0 false (.data (frameBytes (numbered 1))),
    autoPoll 1 false (.data (frameBytes (numbered 5)))]

/-- The record 1, the end of the connection, a failed attempt, and a new connection over which
`recv` returns the given result. -/
def reconnectEvents (recv : RecvResult) : List AutoEvent :=
  [autoPoll 0 false (.data (frameBytes (numbered 1))), autoPoll 10 false .closed,
    autoPoll 50 true .again, autoPoll 110 false .again, autoPoll 400 true recv]

/-- A gap between two records of the second connection. -/
theorem auto_client_tracks_gap :
    ∃ s, Runs step anyAction (.start smallAutoConfig) s ∧
      s.reports = [⟨0, .delivered, numbered 1⟩, ⟨1, .delivered, numbered 5⟩,
        ⟨1, .gapDetected, numbered 9⟩] ∧
      GapsReported s.reports ∧ s.client.walSeq = lastSeq s.reports := by
  obtain ⟨s, hrun, hreports, hcond⟩ := exists_runs step anyAction
    (.start smallAutoConfig) (reconnectEvents (.data (frameBytes (numbered 5))) ++
      [autoPoll 401 false (.data (frameBytes (numbered 9)))])
    (fun s => s.reports = [⟨0, .delivered, numbered 1⟩, ⟨1, .delivered, numbered 5⟩,
        ⟨1, .gapDetected, numbered 9⟩] ∧
      ∀ r ∈ s.reports.getLast?,
        if s.client.disconnected then r.result = .delivered else r.connection = s.connection)
    (by decide +kernel) (by decide +kernel)
  obtain ⟨hgaps, hseq⟩ := auto_client_tracks hrun
  exact ⟨s, hrun, hreports, hgaps, hseq hcond⟩

/-- A gap across a reconnect is not reported; after the reconnect the number is 0; and after a gap
and the end of the connection it is that of the record before the gap. -/
theorem auto_client_forgets :
    (∃ s, Runs step anyAction (.start smallAutoConfig) s ∧
      s.reports = [⟨0, .delivered, numbered 1⟩, ⟨1, .delivered, numbered 5⟩]) ∧
    (∃ s, Runs step anyAction (.start smallAutoConfig) s ∧
      s.reports = [⟨0, .delivered, numbered 1⟩] ∧ s.client.walSeq = 0) ∧
    ∃ s, Runs step anyAction (.start smallAutoConfig) s ∧
      s.reports = [⟨0, .delivered, numbered 1⟩, ⟨0, .gapDetected, numbered 5⟩] ∧
      s.client.walSeq = 1 := by
  refine ⟨?_, ?_, ?_⟩
  · exact exists_runs step anyAction (.start smallAutoConfig)
      (reconnectEvents (.data (frameBytes (numbered 5))))
      (fun s => s.reports = [⟨0, .delivered, numbered 1⟩, ⟨1, .delivered, numbered 5⟩])
      (by decide +kernel) (by decide +kernel)
  · exact exists_runs step anyAction (.start smallAutoConfig) (reconnectEvents .again)
      (fun s => s.reports = [⟨0, .delivered, numbered 1⟩] ∧ s.client.walSeq = 0)
      (by decide +kernel) (by decide +kernel)
  · exact exists_runs step anyAction (.start smallAutoConfig)
      (gapEvents ++ [autoPoll 2 false .closed])
      (fun s => s.reports = [⟨0, .delivered, numbered 1⟩, ⟨0, .gapDetected, numbered 5⟩] ∧
        s.client.walSeq = 1)
      (by decide +kernel) (by decide +kernel)

end VeloxMatch
