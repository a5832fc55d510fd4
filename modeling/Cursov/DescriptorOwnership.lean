import Cursov.Server

/-!
# Who owns a descriptor number

Until its own `close`, the number of a handler denotes the connection the handler
was created for, provided that the loop of `stop` closes nothing that is still
open. That loop is the only step that can take a number from its handler.
-/

namespace DescriptorOwnership

open Server Transition

/-- The number of a handler thread, and whether its `close` is still ahead. -/
def holder (s : State) (c : Nat) : Option (Fd × Bool) :=
  (s.handler c).map fun h => (h.clientSocket, h.pc.alive)

structure Owned (s : State) : Prop where
  held : ∀ c fd, holder s c = some (fd, true) → s.descriptors fd = some (.connection c)
  counted : ∀ c fd live, holder s c = some (fd, live) → s.closes c = if live then 0 else 1
  pending : ∀ c fd, s.listener = .accepted c fd →
    s.closes c = 0 ∧ s.descriptors fd = some (.connection c)
  unborn : ∀ c, s.accepted ≤ c → s.closes c = 0
  owner : ∀ fd c, s.descriptors fd = some (.connection c) →
    s.listener = .accepted c fd ∨ holder s c = some (fd, true)

/-- Where the listening socket and the listener stand while `stop` is under way. -/
structure Phases (s : State) : Prop where
  rest : s.isRunning = false → s.control = .idle → s.listener = .absent
  listening : ∀ fd, s.serverSocket = some fd → s.descriptors fd = some .listening
  shut : s.control = .joining → s.serverSocket = none
  joined : ∀ cursor stop, s.control = .closingClients cursor stop →
    s.serverSocket = none ∧ s.listener = .absent

structure Orderly (s : State) : Prop where
  numbered : Numbered s
  owned : Owned s
  phases : Phases s

/-- A step that changes neither the connections nor their holders keeps ownership. -/
theorem Owned.of_views {s t : State} (h : Owned s)
    (descriptors : ∀ fd c, t.descriptors fd = some (.connection c) ↔
      s.descriptors fd = some (.connection c))
    (closes : t.closes = s.closes) (accepted : t.accepted = s.accepted)
    (holders : ∀ c, holder t c = holder s c)
    (waits : ∀ c fd, t.listener = .accepted c fd ↔ s.listener = .accepted c fd) : Owned t where
  held := by
    intro c fd hc
    rw [holders] at hc
    exact (descriptors fd c).mpr (h.held c fd hc)
  counted := by
    intro c fd live hc
    rw [holders] at hc
    rw [closes]
    exact h.counted c fd live hc
  pending := by
    intro c fd hw
    obtain ⟨zero, denotes⟩ := h.pending c fd ((waits c fd).mp hw)
    rw [closes]
    exact ⟨zero, (descriptors fd c).mpr denotes⟩
  unborn := by
    intro c hc
    rw [accepted] at hc
    rw [closes]
    exact h.unborn c hc
  owner := by
    intro fd c hd
    rw [waits, holders]
    exact h.owner fd c ((descriptors fd c).mp hd)

/-- A step that leaves the controlling thread and its socket alone keeps the phases. -/
theorem Phases.of_views {s t : State} (h : Phases s) (running : t.isRunning = s.isRunning)
    (control : t.control = s.control) (socket : t.serverSocket = s.serverSocket)
    (listener : s.listener = .absent → t.listener = .absent)
    (kept : ∀ fd, s.descriptors fd = some .listening → t.descriptors fd = some .listening) :
    Phases t where
  rest := by
    rw [running, control]
    exact fun stopped idle => listener (h.rest stopped idle)
  listening := by
    rw [socket]
    exact fun fd hfd => kept fd (h.listening fd hfd)
  shut := by
    rw [control, socket]
    exact h.shut
  joined := by
    rw [control, socket]
    intro cursor stop place
    obtain ⟨shut, gone⟩ := h.joined cursor stop place
    exact ⟨shut, listener gone⟩

theorem holder_of_handler {s : State} {c : Nat} {h : Handler} (held : s.handler c = some h) :
    holder s c = some (h.clientSocket, h.pc.alive) := by
  rw [holder, held, Option.map_some]

theorem holder_of_alive {s : State} {c : Nat} {h : Handler} (held : s.handler c = some h)
    (alive : h.pc.alive = true) : holder s c = some (h.clientSocket, true) := by
  rw [holder_of_handler held, alive]

theorem holder_goto (s : State) (c : Nat) (h : Handler) (pc : HandlerPc) (d : Nat) :
    holder (s.goto c h pc) d =
      if d = c then some (h.clientSocket, pc.alive) else holder s d := by
  by_cases same : d = c
  · subst d
    rw [if_pos rfl, holder_of_handler (handler_goto s c h pc)]
  · rw [if_neg same, holder, handler_goto_of_ne s h pc same, holder]

/-- A move that does not pass the handler's close changes no holder. -/
theorem holder_goto_eq {s : State} {c : Nat} {h : Handler} {pc : HandlerPc}
    (held : s.handler c = some h) (same_life : pc.alive = h.pc.alive) (d : Nat) :
    holder (s.goto c h pc) d = holder s d := by
  rw [holder_goto]
  by_cases same : d = c
  · rw [if_pos same, same, holder_of_handler held, same_life]
  · rw [if_neg same]

theorem holder_adopt (s : State) (c : Nat) (fd : Fd) (d : Nat) :
    holder (s.adopt c fd) d = if d = c then some (fd, true) else holder s d := by
  by_cases same : d = c
  · subst d
    simp [holder, State.adopt, HandlerPc.alive]
  · simp [holder, State.adopt, same]

/-- The number denotes an open connection. -/
def connected (s : State) (fd : Fd) : Bool :=
  match s.descriptors fd with
  | some (.connection _) => true
  | _ => false

theorem connected_iff {s : State} {fd : Fd} :
    connected s fd = true ↔ ∃ c, s.descriptors fd = some (.connection c) := by
  rw [connected]
  rcases s.descriptors fd with _ | (_ | c) <;> simp

/-- Closing a number that denotes no connection touches no connection. -/
theorem closeNumber_spares {s : State} {fd : Fd} (unconnected : connected s fd = false) :
    (s.closeNumber fd).closes = s.closes ∧
      ∀ x c, (s.closeNumber fd).descriptors x = some (.connection c) ↔
        s.descriptors x = some (.connection c) := by
  have spared : ∀ c, s.descriptors fd ≠ some (.connection c) := by
    intro c hc
    rw [connected_iff.mpr ⟨c, hc⟩] at unconnected
    cases unconnected
  constructor
  · rw [State.closeNumber]
    cases at_fd : s.descriptors fd with
    | none => rfl
    | some target =>
      cases target with
      | listening => rfl
      | connection c => exact absurd at_fd (spared c)
  · intro x c
    by_cases same : x = fd
    · subst x
      simp [State.closeNumber, spared c]
    · simp [State.closeNumber, same]

theorem closeNumber_closes {s : State} {fd : Fd} {c : Nat}
    (denotes : s.descriptors fd = some (.connection c)) :
    (s.closeNumber fd).closes = Function.update s.closes c (s.closes c + 1) := by
  rw [State.closeNumber, denotes]

theorem closeNumber_descriptors (s : State) {fd x : Fd} (other : x ≠ fd) :
    (s.closeNumber fd).descriptors x = s.descriptors x :=
  Function.update_of_ne other _ _

/-- The holder's own close ends exactly its own connection. -/
theorem close_owned {s : State} {c : Nat} {h : Handler} (numbered : Numbered s)
    (owned : Owned s) (held : s.handler c = some h) (alive : h.pc.alive = true) :
    Owned ((s.closeNumber h.clientSocket).goto c h .closed) := by
  have own := holder_of_alive held alive
  have denotes := owned.held c _ own
  have others : ∀ d, d ≠ c →
      holder ((s.closeNumber h.clientSocket).goto c h .closed) d = holder s d := by
    intro d other
    rw [holder_goto, if_neg other]
    rfl
  have gone : holder ((s.closeNumber h.clientSocket).goto c h .closed) c =
      some (h.clientSocket, false) := by
    rw [holder_goto, if_pos rfl]
    rfl
  have descriptors : ∀ fd d, s.descriptors fd = some (.connection d) → d ≠ c →
      (s.closeNumber h.clientSocket).descriptors fd = some (.connection d) := by
    intro fd d hd hdc
    have apart : fd ≠ h.clientSocket := by
      rintro rfl
      rw [denotes, Option.some.injEq, Target.connection.injEq] at hd
      exact hdc hd.symm
    exact (closeNumber_descriptors s apart).trans hd
  have closes : ∀ d, d ≠ c → (s.closeNumber h.clientSocket).closes d = s.closes d := by
    intro d hd
    rw [closeNumber_closes denotes, Function.update_of_ne hd]
  constructor
  · intro d fd hd
    by_cases same : d = c
    · rw [same, gone] at hd
      cases hd
    · rw [others d same] at hd
      exact descriptors fd d (owned.held d fd hd) same
  · intro d fd live hd
    by_cases same : d = c
    · subst d
      rw [gone] at hd
      cases hd
      change (s.closeNumber h.clientSocket).closes c = 1
      rw [closeNumber_closes denotes, Function.update_self, owned.counted c _ _ own]
      rfl
    · rw [others d same] at hd
      exact (closes d same).trans (owned.counted d fd live hd)
  · intro d fd hd
    obtain ⟨zero, target⟩ := owned.pending d fd hd
    have same : d ≠ c := by
      rintro rfl
      rw [(numbered.pending d fd hd).2] at held
      cases held
    exact ⟨(closes d same).trans zero, descriptors fd d target same⟩
  · intro d hd
    have same : d ≠ c := by
      have := numbered.born c h held
      change s.accepted ≤ d at hd
      omega
    exact (closes d same).trans (owned.unborn d hd)
  · intro fd d hd
    rcases owned.owner fd d (closeNumber_shrinks hd) with waits | live
    · exact Or.inl waits
    · right
      have same : d ≠ c := by
        rintro rfl
        rw [own, Option.some.injEq, Prod.mk.injEq] at live
        obtain ⟨rfl, _⟩ := live
        simp [State.goto, State.closeNumber] at hd
      rw [others d same]
      exact live

theorem accept_owned {s : State} {fd : Fd} (owned : Owned s)
    (waiting : s.listener = .accepting) (free : s.descriptors fd = none) :
    Owned (s.accept fd) := by
  have old : ∀ x c, s.descriptors x = some (.connection c) →
      (s.accept fd).descriptors x = some (.connection c) := by
    intro x c hx
    have apart : x ≠ fd := by
      rintro rfl
      rw [free] at hx
      cases hx
    exact (Function.update_of_ne apart _ _).trans hx
  constructor
  · exact fun c x hc => old x c (owned.held c x hc)
  · exact owned.counted
  · rintro c x ⟨⟩
    exact ⟨owned.unborn _ le_rfl, Function.update_self _ _ _⟩
  · exact fun c hc => owned.unborn c ((Nat.le_succ _).trans hc)
  · intro x c hx
    by_cases same : x = fd
    · subst x
      obtain rfl : s.accepted = c := by simpa [State.accept] using hx
      exact Or.inl rfl
    · have before := (Function.update_of_ne same _ _).symm.trans hx
      rcases owned.owner x c before with waits | live
      · rw [waiting] at waits
        cases waits
      · exact Or.inr live

theorem adopt_owned {s : State} {c : Nat} {fd : Fd} (numbered : Numbered s) (owned : Owned s)
    (waiting : s.listener = .accepted c fd) : Owned (s.adopt c fd) := by
  obtain ⟨zero, denotes⟩ := owned.pending c fd waiting
  have unheld : holder s c = none := by
    rw [holder, (numbered.pending c fd waiting).2, Option.map_none]
  constructor
  · intro d x hd
    rw [holder_adopt] at hd
    by_cases same : d = c
    · rw [if_pos same] at hd
      cases hd
      exact same ▸ denotes
    · rw [if_neg same] at hd
      exact owned.held d x hd
  · intro d x live hd
    rw [holder_adopt] at hd
    by_cases same : d = c
    · rw [if_pos same] at hd
      cases hd
      exact same ▸ zero
    · rw [if_neg same] at hd
      exact owned.counted d x live hd
  · rintro d x ⟨⟩
  · exact owned.unborn
  · intro x d hx
    right
    rw [holder_adopt]
    rcases owned.owner x d hx with pending | live
    · rw [waiting] at pending
      cases pending
      rw [if_pos rfl]
    · have apart : d ≠ c := by
        rintro rfl
        rw [unheld] at live
        cases live
      rw [if_neg apart]
      exact live

/-- The number the loop of `stop` closes next. -/
def closingNumber (s : State) : Option Fd :=
  match s.control with
  | .closingClients cursor _ => s.tcpClients.slots[cursor]?
  | _ => none

theorem closingNumber_eq {s : State} {cursor stop : Nat}
    (place : s.control = .closingClients cursor stop) :
    closingNumber s = s.tcpClients.slots[cursor]? := by
  rw [closingNumber, place]

/-- The number that the loop of `stop` closes denotes no open connection. -/
def StopSpares (s : State) : Action → Prop
  | .control .closeClient => ∀ client ∈ closingNumber s, connected s client = false
  | _ => True

/-- Each `recv`, acknowledgement and `close` of a handler is on its own connection. -/
def HandlersOwn (s : State) : Action → Prop
  | .handler c (.recv _) | .handler c .recvFails | .handler c .ack | .handler c .close =>
    ∀ h ∈ s.handler c, s.descriptors h.clientSocket = some (.connection c)
  | _ => True

instance stopSparesDecidable (s : State) (a : Action) : Decidable (StopSpares s a) :=
  match a with
  | .control .closeClient =>
    inferInstanceAs (Decidable (∀ client ∈ closingNumber s, connected s client = false))
  | .control (.start _) | .control .stop | .control .closeListener | .control .join
  | .control .clearClients | .listener _ | .handler _ _ => .isTrue trivial

instance handlersOwnDecidable (s : State) (a : Action) : Decidable (HandlersOwn s a) :=
  match a with
  | .handler c (.recv _) | .handler c .recvFails | .handler c .ack | .handler c .close =>
    inferInstanceAs (Decidable (∀ h ∈ s.handler c,
      s.descriptors h.clientSocket = some (.connection c)))
  | .handler _ .test | .handler _ .beginBroadcast | .handler _ .relay | .handler _ .endBroadcast
  | .handler _ .erase | .control _ | .listener _ => .isTrue trivial

theorem handler_orderly {s t : State} {c : Nat} {a : HandlerAction} (orderly : Orderly s)
    (moved : handlerStep s c a = some t) : Owned t ∧ Phases t := by
  obtain ⟨h, held, effect⟩ := handlerStep_effect moved
  cases effect with
  | moves _ pc relays running alive sends fixed =>
    have same_life := alive.trans (HandlerPc.alive_of_running running).symm
    exact ⟨orderly.owned.of_views (fun _ _ => Iff.rfl) rfl rfl (holder_goto_eq held same_life)
      fun _ _ => Iff.rfl, orderly.phases.of_views rfl rfl rfl id fun _ hfd => hfd⟩
  | closes leaving =>
    have live : h.pc.alive = true := by
      rw [leaving]
      rfl
    refine ⟨close_owned orderly.numbered orderly.owned held live,
      orderly.phases.of_views rfl rfl rfl id fun fd hfd => ?_⟩
    have apart : fd ≠ h.clientSocket := by
      rintro rfl
      rw [orderly.owned.held c _ (holder_of_alive held live)] at hfd
      cases hfd
    exact (closeNumber_descriptors s apart).trans hfd
  | erases closed =>
    have same_life : HandlerPc.ended.alive = h.pc.alive := by
      rw [closed]
      rfl
    exact ⟨orderly.owned.of_views (fun _ _ => Iff.rfl) rfl rfl (holder_goto_eq held same_life)
      fun _ _ => Iff.rfl, orderly.phases.of_views rfl rfl rfl id fun _ hfd => hfd⟩

theorem listener_orderly {s t : State} {a : ListenerAction} (orderly : Orderly s)
    (moved : listenerStep s a = some t) : Owned t ∧ Phases t := by
  cases listenerStep_effect moved with
  | moves _ pc present before after =>
    refine ⟨orderly.owned.of_views (fun _ _ => Iff.rfl) rfl rfl (fun _ => rfl) fun c fd => ?_,
      orderly.phases.of_views rfl rfl rfl (fun gone => absurd gone present) fun _ hfd => hfd⟩
    exact iff_of_false (after c fd) (before c fd)
  | accepts fd waiting free =>
    refine ⟨accept_owned orderly.owned waiting free,
      orderly.phases.of_views rfl rfl rfl (fun gone => by simp [waiting] at gone) fun x hx => ?_⟩
    have apart : x ≠ fd := by
      rintro rfl
      rw [free] at hx
      cases hx
    exact (Function.update_of_ne apart _ _).trans hx
  | adopts c fd waiting =>
    exact ⟨adopt_owned orderly.numbered orderly.owned waiting,
      orderly.phases.of_views rfl rfl rfl (fun gone => by simp [waiting] at gone)
        fun _ hfd => hfd⟩

theorem launch_orderly {s : State} {fd : Fd} (orderly : Orderly s) (idle : s.control = .idle)
    (stopped : s.isRunning = false) (free : s.descriptors fd = none) :
    Owned (s.launch fd) ∧ Phases (s.launch fd) := by
  constructor
  · refine orderly.owned.of_views (fun x c => ?_) rfl rfl (fun _ => rfl) fun c x => ?_
    · by_cases same : x = fd
      · subst x
        simp [State.launch, free]
      · simp [State.launch, same]
    · simp [State.launch, orderly.phases.rest stopped idle]
  · constructor
    · rintro ⟨⟩
    · rintro x ⟨⟩
      exact Function.update_self _ _ _
    · simp [State.launch, idle]
    · simp [State.launch, idle]

/-- Closing a number that denotes no connection is no loss to any handler. -/
theorem closeNumber_owned {s : State} {fd : Fd} (owned : Owned s)
    (unconnected : connected s fd = false) : Owned (s.closeNumber fd) := by
  obtain ⟨closes, descriptors⟩ := closeNumber_spares unconnected
  exact owned.of_views descriptors closes rfl (fun _ => rfl) fun _ _ => Iff.rfl

theorem control_orderly {s t : State} {a : ControlAction} (orderly : Orderly s)
    (spares : StopSpares s (.control a)) (moved : controlStep s a = some t) :
    Owned t ∧ Phases t := by
  have unmoved : ∀ {u : State}, Owned u → ∀ control socket running,
      Owned { u with control := control, serverSocket := socket, isRunning := running } :=
    fun owned _ _ _ => owned.of_views (fun _ _ => Iff.rfl) rfl rfl (fun _ => rfl) fun _ _ => Iff.rfl
  cases controlStep_effect moved with
  | start fd idle stopped free => exact launch_orderly orderly idle stopped free
  | stop idle =>
    refine ⟨unmoved orderly.owned .closingListener s.serverSocket false, ?_⟩
    constructor
    · rintro _ ⟨⟩
    · exact orderly.phases.listening
    · rintro ⟨⟩
    · rintro _ _ ⟨⟩
  | closeListener fd socket =>
    have spared : connected s fd = false := by
      rw [connected, orderly.phases.listening fd socket]
    refine ⟨unmoved (closeNumber_owned orderly.owned spared) .joining none s.isRunning, ?_⟩
    constructor
    · rintro _ ⟨⟩
    · rintro _ ⟨⟩
    · exact fun _ => rfl
    · rintro _ _ ⟨⟩
  | noListener socket =>
    refine ⟨unmoved orderly.owned .joining s.serverSocket s.isRunning, ?_⟩
    constructor
    · rintro _ ⟨⟩
    · exact orderly.phases.listening
    · exact fun _ => socket
    · rintro _ _ ⟨⟩
  | join joining returned =>
    refine ⟨orderly.owned.of_views (fun _ _ => Iff.rfl) rfl rfl (fun _ => rfl) fun c fd => ?_, ?_⟩
    · simp [returned]
    · constructor
      · rintro _ ⟨⟩
      · exact orderly.phases.listening
      · rintro ⟨⟩
      · exact fun _ _ _ => ⟨orderly.phases.shut joining, rfl⟩
  | closeClient cursor stop client place slot =>
    have spared := spares client ((closingNumber_eq place).trans slot)
    obtain ⟨shut, gone⟩ := orderly.phases.joined cursor stop place
    refine ⟨unmoved (closeNumber_owned orderly.owned spared) _ s.serverSocket s.isRunning, ?_⟩
    constructor
    · rintro _ ⟨⟩
    · intro fd hfd
      cases shut.symm.trans hfd
    · rintro ⟨⟩
    · exact fun _ _ _ => ⟨shut, gone⟩
  | clearClients cursor stop place =>
    refine ⟨orderly.owned.of_views (fun _ _ => Iff.rfl) rfl rfl (fun _ => rfl)
      fun _ _ => Iff.rfl, ?_⟩
    constructor
    · exact fun _ _ => (orderly.phases.joined cursor stop place).2
    · exact orderly.phases.listening
    · rintro ⟨⟩
    · rintro _ _ ⟨⟩

theorem step_orderly (s : State) (a : Action) (t : State) (orderly : Orderly s)
    (spares : StopSpares s a) (moved : step s a = some t) : Orderly t := by
  have numbered := step_numbered s a t orderly.numbered moved
  have kept : Owned t ∧ Phases t := by
    cases a with
    | control a => exact control_orderly orderly spares moved
    | listener a => exact listener_orderly orderly moved
    | handler c a => exact handler_orderly orderly moved
  exact ⟨numbered, kept.1, kept.2⟩

theorem initial_orderly : Orderly initial where
  numbered := initial_numbered
  owned := by constructor <;> simp [initial, holder]
  phases := by constructor <;> simp [initial]

/-- An owned number is used by its handler only on its own connection. -/
theorem orderly_handlersOwn (s : State) (a : Action) (t : State) (orderly : Orderly s)
    (moved : step s a = some t) : HandlersOwn s a := by
  cases a with
  | handler c a =>
    have own : a ≠ .erase → ∀ h ∈ s.handler c,
        s.descriptors h.clientSocket = some (.connection c) := by
      intro uses g hg
      obtain ⟨h, held, effect⟩ := handlerStep_effect moved
      obtain rfl : h = g := Option.some.inj (held.symm.trans hg)
      apply orderly.owned.held c _ (holder_of_alive held ?_)
      cases effect with
      | moves _ pc relays running alive sends fixed => exact HandlerPc.alive_of_running running
      | closes leaving =>
        rw [leaving]
        rfl
      | erases closed => exact absurd rfl uses
    cases a with
    | recv buffer => exact own (by simp)
    | recvFails => exact own (by simp)
    | ack => exact own (by simp)
    | close => exact own (by simp)
    | _ => trivial
  | _ => trivial

/-- A handler whose connection has been closed under it. -/
def Robbed (s : State) : Prop :=
  ∃ c fd, c < s.accepted ∧ holder s c = some (fd, true) ∧
    ∀ x, s.descriptors x ≠ some (.connection c)

/-- A close of `stop` that is not spared robs the handler of that connection. -/
theorem stop_robs (s : State) (a : Action) (t : State) (orderly : Orderly s)
    (unspared : ¬ StopSpares s a) (moved : step s a = some t) : Robbed t := by
  cases a with
  | control a =>
    cases controlStep_effect moved with
    | closeClient cursor stop client place slot =>
      obtain ⟨c, denotes⟩ : ∃ c, s.descriptors client = some (.connection c) := by
        rw [← connected_iff]
        by_contra unconnected
        apply unspared
        intro x hx
        have next := (closingNumber_eq place).trans slot
        obtain rfl : client = x := Option.some.inj (next.symm.trans hx)
        simpa using unconnected
      have holds : ∀ x, s.descriptors x = some (.connection c) →
          holder s c = some (x, true) := by
        intro x hx
        rcases orderly.owned.owner x c hx with pending | live
        · rw [(orderly.phases.joined cursor stop place).2] at pending
          cases pending
        · exact live
      have held := holds client denotes
      obtain ⟨h, hh, _⟩ := Option.map_eq_some_iff.mp held
      refine ⟨c, client, orderly.numbered.born c h hh, held, fun x hx => ?_⟩
      have before := holds x (closeNumber_shrinks hx)
      rw [held, Option.some.injEq, Prod.mk.injEq] at before
      obtain ⟨rfl, _⟩ := before
      simp [State.closeNumber] at hx
    | _ => exact absurd trivial unspared
  | _ => exact absurd trivial unspared

theorem listener_robbed {s t : State} {a : ListenerAction} (robbed : Robbed s)
    (moved : listenerStep s a = some t) : Robbed t := by
  obtain ⟨c, fd, bound, held, gone⟩ := robbed
  cases listenerStep_effect moved with
  | moves _ pc present before after => exact ⟨c, fd, bound, held, gone⟩
  | accepts x waiting free =>
    refine ⟨c, fd, bound.trans (Nat.lt_succ_self _), held, fun y hy => ?_⟩
    by_cases same : y = x
    · subst y
      obtain rfl : s.accepted = c := by simpa [State.accept] using hy
      omega
    · exact gone y ((Function.update_of_ne same _ _).symm.trans hy)
  | adopts d x waiting =>
    by_cases same : c = d
    · exact ⟨c, x, bound, by rw [holder_adopt, if_pos same], gone⟩
    · exact ⟨c, fd, bound, by rwa [holder_adopt, if_neg same], gone⟩

theorem handler_robbed {s t : State} {d : Nat} {a : HandlerAction} (robbed : Robbed s)
    (own : HandlersOwn s (.handler d a)) (moved : handlerStep s d a = some t) : Robbed t := by
  obtain ⟨c, fd, bound, held, gone⟩ := robbed
  obtain ⟨h, hd, effect⟩ := handlerStep_effect moved
  cases effect with
  | moves _ pc relays running alive sends fixed =>
    have same_life := alive.trans (HandlerPc.alive_of_running running).symm
    exact ⟨c, fd, bound, (holder_goto_eq hd same_life c).trans held, gone⟩
  | closes leaving =>
    have other : c ≠ d := by
      rintro rfl
      exact gone _ (own h hd)
    refine ⟨c, fd, bound, ?_, fun x hx => gone x (closeNumber_shrinks hx)⟩
    rw [holder_goto, if_neg other]
    exact held
  | erases closed =>
    have same_life : HandlerPc.ended.alive = h.pc.alive := by
      rw [closed]
      rfl
    exact ⟨c, fd, bound, (holder_goto_eq hd same_life c).trans held, gone⟩

/-- A robbed handler stays robbed while handlers touch only their own connections: its own
`close` is still ahead. -/
theorem step_robbed (s : State) (a : Action) (t : State) (robbed : Robbed s)
    (own : HandlersOwn s a) (moved : step s a = some t) : Robbed t := by
  cases a with
  | control a =>
    have frame := controlStep_frame moved
    obtain ⟨c, fd, bound, held, gone⟩ := robbed
    exact ⟨c, fd, frame.accepted.symm ▸ bound, by rwa [holder, frame.handler],
      fun x hx => gone x (frame.descriptors x c hx)⟩
  | listener a => exact listener_robbed robbed moved
  | handler c a => exact handler_robbed robbed own moved

/-- In a run whose `stop` closes only numbers that are no longer open, every handler works
on its own connection and closes it once. Over a run that lets all handlers end, the
condition is necessary as well. -/
theorem handlers_own_when_stop_spares {actions : List Action} {s : State}
    (path : run step initial actions = some s) :
    (Along step StopSpares initial actions → Along step HandlersOwn initial actions ∧
      ∀ c h, s.handler c = some h → h.pc = .ended → s.closes c = 1) ∧
    ((∀ c h, s.handler c = some h → h.pc = .ended) → Along step HandlersOwn initial actions →
      Along step StopSpares initial actions) := by
  constructor
  · intro spares
    constructor
    · exact along_imp Orderly step_orderly
        (fun s a t h _ moved => orderly_handlersOwn s a t h moved) initial_orderly path spares
    · intro c h held finished
      have orderly := run_invariant_along step_orderly initial_orderly spares path
      have own := holder_of_handler held
      rw [finished] at own
      exact orderly.owned.counted c _ _ own
  · intro finished owns
    refine along_of_escape Orderly Robbed step_orderly
      (fun s a t h _ unspared moved => stop_robs s a t h unspared moved) step_robbed
      initial_orderly path owns ?_
    rintro ⟨c, fd, _, held, _⟩
    obtain ⟨h, hh, live⟩ := Option.map_eq_some_iff.mp held
    rw [finished c h hh] at live
    cases live

/-- A client is served and leaves, then the server stops and starts again. -/
def orderlyRun : List Action :=
  [.control (.start 3), .listener .test, .listener (.accept 5), .listener .pushBack,
   .handler 0 .test, .handler 0 (.recv [104, 105]), .handler 0 .ack, .handler 0 .beginBroadcast,
   .handler 0 .relay, .handler 0 .endBroadcast, .handler 0 .test, .handler 0 .recvFails,
   .handler 0 .close, .handler 0 .erase, .control .stop, .control .closeListener,
   .listener .test, .control .join, .control .clearClients, .control (.start 3)]

theorem handlers_own_orderly :
    ∃ s, run step initial orderlyRun = some s ∧ Along step HandlersOwn initial orderlyRun := by
  obtain ⟨s, path⟩ : ∃ s, run step initial orderlyRun = some s := ⟨_, rfl⟩
  exact ⟨s, path, ((handlers_own_when_stop_spares path).1 (by decide)).1⟩

/-- The handler of connection 0 is still receiving when `stop` closes its number 5. After
the next `start` that number is connection 1, and the old handler closes it. -/
def overlappingRun : List Action :=
  [.control (.start 3), .listener .test, .listener (.accept 5), .listener .pushBack,
   .handler 0 .test, .control .stop, .control .closeListener, .listener .test, .control .join,
   .control .closeClient, .control .clearClients, .control (.start 3), .listener .test,
   .listener (.accept 5), .listener .pushBack, .handler 1 .test, .handler 0 .recvFails,
   .handler 0 .close]

theorem handlers_own_fails_across_stop :
    ∃ s, run step initial overlappingRun = some s ∧
      ¬ Along step HandlersOwn initial overlappingRun ∧ s.closes 1 = 1 ∧
      s.handler 1 = some ⟨5, .receiving⟩ := by
  exact ⟨_, rfl, by decide, by decide, by decide⟩

end DescriptorOwnership
