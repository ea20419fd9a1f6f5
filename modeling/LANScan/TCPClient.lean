import LANScan.Descriptors
import LANScan.Icmp
import LANScan.PortScanner
import LANScan.ReactiveCocoa.CompoundDisposable

/-!
# The sockets of a port scan

Each port of a scan gets a `TCPClient`, whose socket is closed by the disposable that the
subscription block returns.  The block has sent its completion by then, so its subscription
has been disposed of before it is handed that disposable, which makes the client close its
socket at once.  Here the descriptors of the process are followed through a whole scan, in
which nothing else opens or closes one.

## Main definitions

* `Attempt` — what the system answers to an attempt to connect.
* `ytcpsocketConnect`, `TCPClient` — an attempt, down to its system calls.
* `subscribeToPort`, `scanPorts` — the subscriptions of a scan.
* `connected` — the results of a scan as the port scanner sees them.

## Main results

* `subscribeToPort_spec` — one port at a time.
* `port_scan_descriptors` — **the descriptors that a scan leaves open, and the ports that it
  finds**: descriptor `0` is taken for a failure, and stays open.
* `port_scan_in_bounds_iff` — **when a scan stays within the bounds of its `fd_set`.**
-/

namespace LANScan

open Reactive ReactiveCocoa

/-! ### System calls -/

/-- What the system answers to an attempt to connect. -/
structure Attempt where
  /-- The host is found. -/
  gethostbyname : Bool
  /-- A socket is granted, if a descriptor is free. -/
  socket : Bool
  select : Int
  /-- The option `SO_ERROR` of the socket. -/
  soError : Int
  deriving DecidableEq, Repr

/-- The attempt leads to a connection. -/
def Attempt.accepts (a : Attempt) : Bool :=
  a.gethostbyname && a.socket && decide (0 < a.select) && decide (a.soError = 0)

/-- `socket(2)`. -/
def socket (t : Descriptors) (a : Attempt) : Descriptors × Int :=
  match a.socket, t.allocate with
  | true, some (fd, t) => (t, fd)
  | _, _ => (t, -1)

/-- `close(2)`. -/
def close (t : Descriptors) (fd : Int) : Descriptors := t.release fd.toNat

/-- `FD_SETSIZE`. -/
def fdSetSize : ℕ := 1024

/-- `FD_SET`, which is an access to the bit of the descriptor. -/
def fdSet (fd : Int) : Except Fault Unit :=
  if 0 ≤ fd ∧ fd < fdSetSize then .ok () else .error .outOfBounds

/-- Opens a socket, connects it and waits; the result is the descriptor, or a negative number for
an error. -/
def ytcpsocketConnect (t : Descriptors) (a : Attempt) : Except Fault (Descriptors × Int) :=
  if a.gethostbyname = false then .ok (t, -1)
  else do
    let (t, sockfd) := socket t a
    fdSet sockfd
    if a.select < 0 then return (close t sockfd, -2)
    else if a.select = 0 then return (close t sockfd, -3)
    else if a.soError ≠ 0 then return (close t sockfd, -4)
    else return (t, sockfd)

/-! ### The client -/

/-- A client, with the descriptor of its connection. -/
structure TCPClient where
  fd : Option Int
  deriving DecidableEq, Repr

namespace TCPClient

/-- The switch in `connect(timeout:)`. -/
def socketError (rs : Int) : SocketError :=
  if rs = -1 then .queryFailed
  else if rs = -2 then .connectionClosed
  else if rs = -3 then .connectionTimeout
  else .unknownError

/-- Connects; only a descriptor above `0` is a success. -/
def connect (client : TCPClient) (t : Descriptors) (a : Attempt) :
    Except Fault (Descriptors × TCPClient × ConnectResult) := do
  let (t, rs) ← ytcpsocketConnect t a
  if rs > 0 then return (t, { client with fd := some rs }, .success)
  else return (t, client, .failure (socketError rs))

/-- Closes the connection if there is one. -/
def close (client : TCPClient) (t : Descriptors) : Descriptors × TCPClient :=
  match client.fd with
  | none => (t, client)
  | some fd => (LANScan.close t fd, { client with fd := none })

end TCPClient

/-! ### The subscriptions -/

/-- The subscription to the signal of a port, with the result of its client.  The
completion disposes of the subscription, and of what its subscriber has put there, while
its block runs; the disposable that the block returns is added to it afterwards. -/
def subscribeToPort (t : Descriptors) (a : Attempt) :
    Except Fault (Descriptors × ConnectResult) := do
  let (t, client, result) ← (TCPClient.mk none).connect t a
  let (disposable, _) := (RACCompoundDisposable.initWithDisposables [0]).dispose
  let (_, shouldDispose) := disposable.addDisposable 1
  return (if shouldDispose then (client.close t).1 else t, result)

/-- The subscriptions to the given ports, one after the other. -/
def scanPorts (attempt : ℕ → Attempt) :
    List ℕ → Descriptors → Except Fault (Descriptors × List (ℕ × ConnectResult))
  | [], t => .ok (t, [])
  | port :: ports, t => do
    let (t, result) ← subscribeToPort t (attempt port)
    let (t, results) ← scanPorts attempt ports t
    return (t, (port, result) :: results)

/-- What an attempt to connect to a port ends with, according to the results. -/
def connected (results : List (ℕ × ConnectResult)) : Connect := fun _ port =>
  (results.lookup port).getD (.failure .unknownError)

/-! ### One port -/

variable {t t' : Descriptors} {a : Attempt} {attempt : ℕ → Attempt} {ports : List ℕ}
  {results : List (ℕ × ConnectResult)}

/-- The descriptor that a socket would get has a bit in an `fd_set`. -/
def HasRoom (t : Descriptors) : Prop := t.lowest < t.limit ∧ t.lowest < fdSetSize

/-- A socket gets the lowest descriptor that is free, if there is one for it. -/
theorem socket_cases (t : Descriptors) (a : Attempt) :
    (socket t a = (t, -1) ∧ ¬(a.socket = true ∧ t.lowest < t.limit)) ∨
      (socket t a = (t.take t.lowest, (t.lowest : Int)) ∧ a.socket = true ∧
        t.lowest < t.limit) := by
  unfold socket
  split
  next fd t₁ hsocket hallocate =>
    obtain ⟨rfl, hlt, rfl⟩ := Descriptors.allocate_eq_some_iff.mp hallocate
    exact Or.inr ⟨rfl, hsocket, hlt⟩
  next hnone =>
    refine Or.inl ⟨rfl, ?_⟩
    rintro ⟨hsocket, hlt⟩
    exact hnone _ _ hsocket (Descriptors.allocate_eq_some_iff.mpr ⟨rfl, hlt, rfl⟩)

/-- **An attempt to connect** keeps a descriptor just if it leads to a connection. -/
theorem ytcpsocketConnect_cases {rs : Int} (h : ytcpsocketConnect t a = .ok (t', rs)) :
    (a.accepts = false ∧ t' = t ∧ rs < 0) ∨
      (a.accepts = true ∧ rs = t.lowest ∧ t' = t.take t.lowest) := by
  unfold ytcpsocketConnect at h
  split at h
  next hhost =>
    obtain ⟨rfl, rfl⟩ := Prod.mk.inj (Except.ok.inj h)
    exact Or.inl ⟨by simp [Attempt.accepts, hhost], rfl, by decide⟩
  next hhost =>
    have hhost : a.gethostbyname = true := by simpa using hhost
    rcases socket_cases t a with ⟨hsocket, -⟩ | ⟨hsocket, hgranted, -⟩
    · rw [hsocket] at h
      cases h
    · rw [hsocket] at h
      obtain ⟨_, -, h⟩ := bind_eq_ok.mp h
      have hclosed : close (t.take t.lowest) t.lowest = t := t.release_take
      split_ifs at h with hneg hzero herror
      · obtain ⟨rfl, rfl⟩ := Prod.mk.inj (Except.ok.inj h)
        exact Or.inl ⟨by simp [Attempt.accepts]; omega, hclosed, by decide⟩
      · obtain ⟨rfl, rfl⟩ := Prod.mk.inj (Except.ok.inj h)
        exact Or.inl ⟨by simp [Attempt.accepts, hzero], hclosed, by decide⟩
      · obtain ⟨rfl, rfl⟩ := Prod.mk.inj (Except.ok.inj h)
        exact Or.inl ⟨by simp [Attempt.accepts, herror], hclosed, by decide⟩
      · obtain ⟨rfl, rfl⟩ := Prod.mk.inj (Except.ok.inj h)
        refine Or.inr ⟨?_, rfl, rfl⟩
        simp only [Attempt.accepts, hhost, hgranted, Bool.true_and, Bool.and_eq_true,
          decide_eq_true_iff]
        omega

/-- An attempt to connect stays within bounds just if no host is found or the socket has a
descriptor that fits. -/
theorem exists_ytcpsocketConnect_iff :
    (∃ r, ytcpsocketConnect t a = .ok r) ↔
      (a.gethostbyname = true → a.socket = true ∧ HasRoom t) := by
  unfold ytcpsocketConnect
  split
  next hhost => simp [hhost]
  next hhost =>
    have hhost : a.gethostbyname = true := by simpa using hhost
    rcases socket_cases t a with ⟨hsocket, hnone⟩ | ⟨hsocket, hgranted, hlt⟩
    · rw [hsocket]
      constructor
      · rintro ⟨r, h⟩
        cases h
      · exact fun hroom => absurd ⟨(hroom hhost).1, (hroom hhost).2.1⟩ hnone
    · rw [hsocket]
      constructor
      · rintro ⟨r, h⟩ -
        obtain ⟨_, hset, -⟩ := bind_eq_ok.mp h
        refine ⟨hgranted, hlt, ?_⟩
        unfold fdSet at hset
        split at hset
        next hin => exact Int.ofNat_lt.mp hin.2
        next => cases hset
      · intro hroom
        have hset : fdSet t.lowest = .ok () :=
          if_pos ⟨Int.natCast_nonneg _, Int.ofNat_lt.mpr (hroom hhost).2.2⟩
        dsimp only
        rw [hset, ok_bind]
        split_ifs
        · exact ⟨_, rfl⟩
        · exact ⟨_, rfl⟩
        · exact ⟨_, rfl⟩
        · exact ⟨_, rfl⟩

/-- **One port**: the descriptors are as before, and the result is right, except that a
connection with the descriptor `0` fails and keeps it. -/
theorem subscribeToPort_spec {result : ConnectResult}
    (h : subscribeToPort t a = .ok (t', result)) :
    (a.accepts = false ∧ t' = t ∧ result ≠ .success) ∨
      (a.accepts = true ∧ 0 ∈ t.inUse ∧ t' = t ∧ result = .success) ∨
      (a.accepts = true ∧ 0 ∉ t.inUse ∧ t' = t.take 0 ∧ result = .failure .unknownError) := by
  obtain ⟨⟨t₁, client, result₁⟩, hconnect, hend⟩ := bind_eq_ok.mp h
  obtain ⟨rfl, rfl⟩ := Prod.mk.inj (Except.ok.inj hend)
  obtain ⟨⟨t₂, rs⟩, hattempt, hrs⟩ := bind_eq_ok.mp hconnect
  clear h hend hconnect
  -- the block of the disposable runs when it is added
  show (_ ∧ (client.close t₁).1 = t ∧ _) ∨ (_ ∧ _ ∧ (client.close t₁).1 = t ∧ _) ∨
    (_ ∧ _ ∧ (client.close t₁).1 = t.take 0 ∧ _)
  dsimp only at hrs
  rcases ytcpsocketConnect_cases hattempt with ⟨haccepts, rfl, hneg⟩ | ⟨haccepts, rfl, rfl⟩
  · rw [if_neg (by omega)] at hrs
    obtain ⟨rfl, hclient⟩ := Prod.mk.inj (Except.ok.inj hrs)
    obtain ⟨rfl, rfl⟩ := Prod.mk.inj hclient
    exact Or.inl ⟨haccepts, rfl, fun h => by cases h⟩
  · by_cases hzero : t.lowest = 0
    · rw [hzero, if_neg (by omega)] at hrs
      obtain ⟨rfl, hclient⟩ := Prod.mk.inj (Except.ok.inj hrs)
      obtain ⟨rfl, rfl⟩ := Prod.mk.inj hclient
      exact Or.inr (Or.inr ⟨haccepts, Descriptors.lowest_eq_zero_iff.mp hzero, rfl, rfl⟩)
    · rw [if_pos (by omega)] at hrs
      obtain ⟨rfl, hclient⟩ := Prod.mk.inj (Except.ok.inj hrs)
      obtain ⟨rfl, rfl⟩ := Prod.mk.inj hclient
      refine Or.inr (Or.inl ⟨haccepts, ?_, t.release_take, rfl⟩)
      by_contra hfree
      exact hzero (Descriptors.lowest_eq_zero_iff.mpr hfree)

theorem exists_subscribeToPort_iff :
    (∃ r, subscribeToPort t a = .ok r) ↔
      (a.gethostbyname = true → a.socket = true ∧ HasRoom t) := by
  rw [← exists_ytcpsocketConnect_iff]
  constructor
  · rintro ⟨r, h⟩
    obtain ⟨r₁, h, -⟩ := bind_eq_ok.mp h
    obtain ⟨r₂, h, -⟩ := bind_eq_ok.mp h
    exact ⟨r₂, h⟩
  · rintro ⟨⟨t₁, rs⟩, h⟩
    unfold subscribeToPort TCPClient.connect
    rw [h, ok_bind]
    dsimp only
    split
    · exact ⟨_, rfl⟩
    · exact ⟨_, rfl⟩

/-! ### A scan -/

/-- The ports that accept a connection. -/
def accepted (attempt : ℕ → Attempt) (ports : List ℕ) : List ℕ :=
  ports.filter fun port => (attempt port).accepts

/-- The descriptors after a scan that some ports have accepted. -/
def afterScan (t : Descriptors) (accepted : List ℕ) : Descriptors :=
  if 0 ∈ t.inUse ∨ accepted = [] then t else t.take 0

theorem afterScan_of_mem (h : 0 ∈ t.inUse) (l : List ℕ) : afterScan t l = t :=
  if_pos (Or.inl h)

theorem accepted_cons (attempt : ℕ → Attempt) (port : ℕ) (ports : List ℕ) :
    accepted attempt (port :: ports) = accepted attempt [port] ++ accepted attempt ports := by
  rw [accepted, accepted, accepted, ← List.filter_append]
  rfl

theorem mem_take_zero (t : Descriptors) : 0 ∈ (t.take 0).inUse := Finset.mem_insert_self 0 t.inUse

/-- Scans one after the other are one scan. -/
theorem afterScan_append (t : Descriptors) (l₁ l₂ : List ℕ) :
    afterScan (afterScan t l₁) l₂ = afterScan t (l₁ ++ l₂) := by
  by_cases hzero : 0 ∈ t.inUse
  · rw [afterScan_of_mem hzero, afterScan_of_mem hzero, afterScan_of_mem hzero]
  · cases l₁ with
    | nil => rw [show afterScan t [] = t from if_pos (Or.inr rfl), List.nil_append]
    | cons port l₁ =>
      have htaken : ∀ l, afterScan t (port :: l) = t.take 0 := fun l =>
        if_neg (by simp [hzero])
      rw [htaken, List.cons_append, htaken, afterScan_of_mem (mem_take_zero t)]

theorem subscribeToPort_afterScan {port : ℕ} {result : ConnectResult}
    (h : subscribeToPort t (attempt port) = .ok (t', result)) :
    t' = afterScan t (accepted attempt [port]) := by
  rcases subscribeToPort_spec h with ⟨haccepts, rfl, -⟩ | ⟨-, hzero, rfl, -⟩ |
    ⟨haccepts, hzero, rfl, -⟩
  · simp [afterScan, accepted, haccepts]
  · rw [afterScan_of_mem hzero]
  · simp [afterScan, accepted, haccepts, hzero]

/-- **What a scan leaves**: as many descriptors as before, unless the descriptor `0` was
free and some port has accepted. -/
theorem scanPorts_afterScan : ∀ {ports : List ℕ} {t t' : Descriptors}
    {results : List (ℕ × ConnectResult)}, scanPorts attempt ports t = .ok (t', results) →
    t' = afterScan t (accepted attempt ports) ∧ results.map Prod.fst = ports
  | [], t, t', results, h => by
    obtain ⟨rfl, rfl⟩ := Prod.mk.inj (Except.ok.inj h)
    exact ⟨(if_pos (Or.inr rfl)).symm, rfl⟩
  | port :: ports, t, t', results, h => by
    obtain ⟨⟨t₁, result⟩, hport, h⟩ := bind_eq_ok.mp h
    obtain ⟨⟨t₂, results'⟩, hports, h⟩ := bind_eq_ok.mp h
    obtain ⟨rfl, rfl⟩ := Prod.mk.inj (Except.ok.inj h)
    obtain ⟨rfl, hfst⟩ := scanPorts_afterScan hports
    refine ⟨?_, by rw [List.map_cons, hfst]⟩
    rw [subscribeToPort_afterScan hport, afterScan_append, ← accepted_cons]

/-- **What a scan finds**: the ports that accept a connection, without the first one if the
descriptor `0` was free. -/
theorem scanPorts_found : ∀ {ports : List ℕ} {t t' : Descriptors}
    {results : List (ℕ × ConnectResult)}, scanPorts attempt ports t = .ok (t', results) →
    (results.filter fun r => r.2 = .success).map Prod.fst =
      if 0 ∈ t.inUse then accepted attempt ports else (accepted attempt ports).tail
  | [], t, t', results, h => by
    obtain ⟨rfl, rfl⟩ := Prod.mk.inj (Except.ok.inj h)
    split <;> rfl
  | port :: ports, t, t', results, h => by
    obtain ⟨⟨t₁, result⟩, hport, h⟩ := bind_eq_ok.mp h
    obtain ⟨⟨t₂, results'⟩, hports, h⟩ := bind_eq_ok.mp h
    obtain ⟨rfl, rfl⟩ := Prod.mk.inj (Except.ok.inj h)
    have hfound := scanPorts_found hports
    rcases subscribeToPort_spec hport with ⟨haccepts, rfl, hresult⟩ |
      ⟨haccepts, hzero, rfl, rfl⟩ | ⟨haccepts, hzero, rfl, rfl⟩
    · rw [List.filter_cons_of_neg (by simpa using hresult), hfound, accepted, accepted,
        List.filter_cons_of_neg (by simp [haccepts])]
    · rw [if_pos hzero] at hfound ⊢
      rw [List.filter_cons_of_pos (by simp), List.map_cons, hfound, accepted, accepted,
        List.filter_cons_of_pos (by exact haccepts)]
    · rw [if_pos (mem_take_zero t)] at hfound
      rw [if_neg hzero, List.filter_cons_of_neg (by simp), hfound, accepted, accepted,
        List.filter_cons_of_pos (by exact haccepts), List.tail_cons]

/-- The port scanner sees the results. -/
theorem filter_connected (ip : String) : ∀ {results : List (ℕ × ConnectResult)},
    (results.map Prod.fst).Nodup →
    (results.map Prod.fst).filter (fun port => connected results ip port = .success) =
      (results.filter fun r => r.2 = .success).map Prod.fst
  | [], _ => rfl
  | (port, result) :: results, hnodup => by
    obtain ⟨hport, hnodup⟩ := List.nodup_cons.mp hnodup
    have hfirst : connected ((port, result) :: results) ip port = result := by
      simp [connected]
    have hrest : (results.map Prod.fst).filter
        (fun p => connected ((port, result) :: results) ip p = .success) =
        (results.map Prod.fst).filter fun p => connected results ip p = .success := by
      refine List.filter_congr fun p hp => ?_
      have hne : p ≠ port := fun heq => hport (heq ▸ hp)
      rw [connected, connected, List.lookup_cons, beq_false_of_ne hne]
    rw [List.map_cons, List.filter_cons, List.filter_cons, hfirst, hrest,
      filter_connected ip hnodup]
    split <;> rfl

/-- When a scan of any ports stays within bounds. -/
theorem exists_scanPorts_iff (attempt : ℕ → Attempt) : ∀ (ports : List ℕ) (t : Descriptors),
    (∃ r, scanPorts attempt ports t = .ok r) ↔
      ∀ before port after, ports = before ++ port :: after →
        (attempt port).gethostbyname = true → (attempt port).socket = true ∧
          HasRoom (afterScan t (accepted attempt before))
  | [], t => by
    refine ⟨fun _ before port after h => ?_, fun _ => ⟨_, rfl⟩⟩
    cases before <;> cases h
  | port :: ports, t => by
    constructor
    · rintro ⟨r, h⟩ before p after heq hhost
      obtain ⟨⟨t₁, result⟩, hport, h⟩ := bind_eq_ok.mp h
      obtain ⟨r', hports, -⟩ := bind_eq_ok.mp h
      cases before with
      | nil =>
        obtain ⟨rfl, rfl⟩ := List.cons.inj heq
        rw [show afterScan t (accepted attempt []) = t from if_pos (Or.inr rfl)]
        exact exists_subscribeToPort_iff.mp ⟨_, hport⟩ hhost
      | cons q before =>
        obtain ⟨rfl, hrest⟩ := List.cons.inj heq
        have hroom := (exists_scanPorts_iff attempt ports t₁).mp ⟨r', hports⟩ before p after
          hrest hhost
        rw [subscribeToPort_afterScan hport, afterScan_append, ← accepted_cons] at hroom
        exact hroom
    · intro hall
      have hfirst := hall [] port ports rfl
      rw [show afterScan t (accepted attempt []) = t from if_pos (Or.inr rfl)] at hfirst
      obtain ⟨⟨t₁, result⟩, hport⟩ := exists_subscribeToPort_iff.mpr hfirst
      obtain ⟨⟨t₂, results⟩, hports⟩ := (exists_scanPorts_iff attempt ports t₁).mpr
        fun before p after heq hhost => by
          have hroom := hall (port :: before) p after (by rw [heq]; rfl) hhost
          rw [subscribeToPort_afterScan hport, afterScan_append, ← accepted_cons]
          exact hroom
      exact ⟨_, by rw [scanPorts, hport, ok_bind]; dsimp only; rw [hports, ok_bind]; rfl⟩

/-- **Descriptors and ports of a scan**: whatever the system answers and whichever
descriptors are in use, a scan leaves the descriptors as it found them and sends the ports
that accept a connection; but if the descriptor `0` is free, it stays open after the first
port that accepts, and that port is not among those that are sent. -/
theorem port_scan_descriptors (w : World)
    (h : scanPorts attempt (List.range' 1 100) t = .ok (t', results)) {host : Host} {ip : String}
    (hip : host.ipAddress = some ip) :
    let ports := accepted attempt (List.range' 1 100)
    t' = (if 0 ∈ t.inUse ∨ ports = [] then t else t.take 0) ∧
      (scanPortsOn (connected results) host).outcome w.answer =
        some (.settled (some (.obj (.strings
          ((if 0 ∈ t.inUse then ports else ports.tail).map toString)))) true) := by
  obtain ⟨hafter, hfst⟩ := scanPorts_afterScan h
  refine ⟨hafter, ?_⟩
  have hnodup : (results.map Prod.fst).Nodup := by
    rw [hfst]
    exact List.nodup_range'
  rw [outcome_scanPortsOn w _ hip, openPorts, ← scanPorts_found h, ← filter_connected ip hnodup,
    hfst]

/-- The system of a process without standard input, and a host with two open ports. -/
def twoPorts (port : ℕ) : Attempt := ⟨true, true, 1, if port = 22 ∨ port = 80 then 0 else 61⟩

/-- Port 22 is not found, and its socket stays open. -/
theorem port_scan_descriptors_twoPorts :
    ∃ t' results, scanPorts twoPorts (List.range' 1 100) ⟨{1, 2}, 256⟩ = .ok (t', results) ∧
      t' = ⟨{0, 1, 2}, 256⟩ ∧
      (scanPortsOn (connected results) ⟨some "192.168.1.7", none, none, none⟩).outcome
        twoHosts.answer = some (.settled (some (.obj (.strings ["80"]))) true) := by
  have hroom : ∀ l, HasRoom (afterScan ⟨{1, 2}, 256⟩ l) := by
    intro l
    have hle : (afterScan ⟨{1, 2}, 256⟩ l).lowest ≤ 3 := by
      apply Descriptors.lowest_le
      unfold afterScan
      split
      · decide
      · decide
    have hlimit : (afterScan ⟨{1, 2}, 256⟩ l).limit = 256 := by
      unfold afterScan
      split
      · rfl
      · rfl
    exact ⟨by omega, by simp only [fdSetSize]; omega⟩
  obtain ⟨⟨t', results⟩, h⟩ := (exists_scanPorts_iff twoPorts (List.range' 1 100) _).mpr
    fun before _ _ _ _ => ⟨rfl, hroom (accepted twoPorts before)⟩
  obtain ⟨hafter, hsent⟩ := port_scan_descriptors twoHosts h
    (show Host.ipAddress ⟨some "192.168.1.7", none, none, none⟩ = some "192.168.1.7" from rfl)
  have haccepted : accepted twoPorts (List.range' 1 100) = [22, 80] := by decide
  rw [haccepted] at hafter hsent
  exact ⟨t', results, h, hafter, hsent⟩

/-- **No access outside of an `fd_set`** if and only if each port whose host is found gets a
socket, with a descriptor that fits, of the descriptors that the ports before it leave. -/
theorem port_scan_in_bounds_iff (attempt : ℕ → Attempt) (t : Descriptors) :
    (∃ r, scanPorts attempt (List.range' 1 100) t = .ok r) ↔
      ∀ port, 1 ≤ port → port ≤ 100 → (attempt port).gethostbyname = true →
        (attempt port).socket = true ∧
          HasRoom (afterScan t (accepted attempt (List.range' 1 (port - 1)))) := by
  rw [exists_scanPorts_iff]
  constructor
  · intro hall port hmin hmax
    obtain ⟨k, rfl⟩ := Nat.exists_eq_add_of_le hmin
    rw [Nat.add_sub_cancel_left]
    refine hall (List.range' 1 k) (1 + k) (List.range' (1 + k + 1) (99 - k)) ?_
    rw [← List.range'_succ, List.range'_append_1]
    congr 1
    omega
  · intro hall before port after heq hhost
    obtain ⟨k, hk, rfl, hafter⟩ := List.range'_eq_append_iff.mp heq
    obtain ⟨rfl, hpos, -⟩ := List.range'_eq_cons_iff.mp hafter.symm
    rw [Nat.mul_one] at hhost ⊢
    have hroom := hall (1 + k) (by omega) (by omega) hhost
    rwa [Nat.add_sub_cancel_left] at hroom

end LANScan
