import Cursov.DescriptorOwnership
import Cursov.Library.Progress
import Mathlib.Algebra.Order.BigOperators.Group.Finset

/-!
# Stopping the server

Between `stop` and the handlers a number can be closed that has long been given away
again, so a handler may be left with a number that is not its own. All the same every
open number has somebody who closes it: the listening socket is the one in the field,
and a connection is held by the handler it was accepted for. Once `stop` has cleared the
flag the threads run out of work, and then nothing is open any more.
-/

namespace ServerShutdown

open Server DescriptorOwnership Transition Progress

/-- A connection is open under one number and nobody has closed it, or it has been closed
once and for all. -/
inductive Settled (s : State) (c : Nat) : Prop where
  | opened (fd : Fd) (open_at : s.descriptors fd = some (.connection c)) (unclosed : s.closes c = 0)
  | closed (once : s.closes c = 1) (gone : ∀ fd, s.descriptors fd ≠ some (.connection c))

structure Accounted (s : State) : Prop where
  listening : ∀ fd, s.descriptors fd = some .listening → s.serverSocket = some fd
  holds : ∀ fd c, s.descriptors fd = some (.connection c) →
    s.listener = .accepted c fd ∨ holder s c = some (fd, true)
  settled : ∀ c, c < s.accepted → Settled s c
  unborn : ∀ c, s.accepted ≤ c → s.closes c = 0

theorem initial_accounted : Accounted initial where
  listening := nofun
  holds := nofun
  settled := nofun
  unborn := fun _ _ => rfl

/-- The numbers denote no more than before, and the connections are as they were. -/
theorem Accounted.of_views {s t : State} (h : Accounted s)
    (descriptors : t.descriptors = s.descriptors) (closes : t.closes = s.closes)
    (accepted : t.accepted = s.accepted) (socket : t.serverSocket = s.serverSocket)
    (holders : ∀ c, holder t c = holder s c)
    (waits : ∀ c fd, s.listener = .accepted c fd → t.listener = .accepted c fd) :
    Accounted t where
  listening := by
    rw [descriptors, socket]
    exact h.listening
  holds := by
    intro fd c denotes
    rw [descriptors] at denotes
    rw [holders]
    exact (h.holds fd c denotes).imp_left (waits c fd)
  settled := by
    intro c born
    rw [accepted] at born
    cases h.settled c born with
    | opened fd open_at unclosed =>
      exact .opened fd (by rwa [descriptors]) (by rwa [closes])
    | closed once gone =>
      exact .closed (by rwa [closes]) (by rwa [descriptors])
  unborn := by
    rw [accepted, closes]
    exact h.unborn

theorem holder_live {s : State} {c : Nat} {fd : Fd} (held : holder s c = some (fd, true)) :
    ∃ h, s.handler c = some h ∧ h.clientSocket = fd ∧ h.pc.alive = true := by
  obtain ⟨k, at_handler, live⟩ := Option.map_eq_some_iff.mp held
  rw [Prod.mk.injEq] at live
  exact ⟨k, at_handler, live⟩

/-- No connection is open under two numbers. -/
theorem Accounted.number_unique {s : State} (h : Accounted s) (numbered : Numbered s)
    {fd x : Fd} {c : Nat} (first : s.descriptors fd = some (.connection c))
    (second : s.descriptors x = some (.connection c)) : fd = x := by
  have unheld : ∀ y, s.listener = .accepted c y → holder s c = none := by
    intro y waits
    rw [holder, (numbered.pending c y waits).2, Option.map_none]
  rcases h.holds fd c first with waits | held
  · rcases h.holds x c second with waits' | held'
    · rw [waits, ListenerPc.accepted.injEq] at waits'
      exact waits'.2
    · rw [unheld fd waits] at held'
      cases held'
  · rcases h.holds x c second with waits' | held'
    · rw [unheld x waits'] at held
      cases held
    · rw [held, Option.some.injEq, Prod.mk.injEq] at held'
      exact held'.1

theorem closeNumber_gone (s : State) (fd : Fd) : (s.closeNumber fd).descriptors fd = none :=
  Function.update_self _ _ _

/-- What a number denotes is closed, whoever closes it. -/
theorem closeNumber_settled {s : State} (h : Accounted s) (numbered : Numbered s) (fd : Fd)
    {c : Nat} (born : c < s.accepted) : Settled (s.closeNumber fd) c := by
  by_cases hit : s.descriptors fd = some (.connection c)
  · refine .closed ?_ fun x denotes => ?_
    · rw [closeNumber_closes hit, Function.update_self]
      cases h.settled c born with
      | opened y open_at unclosed => rw [unclosed]
      | closed once gone => exact absurd hit (gone fd)
    · have same := h.number_unique numbered hit (closeNumber_shrinks denotes)
      rw [← same, closeNumber_gone] at denotes
      cases denotes
  · have closes : (s.closeNumber fd).closes c = s.closes c := by
      rw [State.closeNumber]
      split
      · rename_i d denotes
        have other : c ≠ d := by
          rintro rfl
          exact hit denotes
        exact Function.update_of_ne other _ _
      · rfl
    cases h.settled c born with
    | opened x open_at unclosed =>
      have apart : x ≠ fd := by
        rintro rfl
        exact hit open_at
      exact .opened x ((closeNumber_descriptors s apart).trans open_at) (closes.trans unclosed)
    | closed once gone =>
      exact .closed (closes.trans once) fun x denotes => gone x (closeNumber_shrinks denotes)

/-- A close leaves nothing without its owner, also one that hits a number given away. -/
theorem closeNumber_accounted {s : State} (h : Accounted s) (numbered : Numbered s) (fd : Fd) :
    Accounted (s.closeNumber fd) where
  listening := fun x denotes => h.listening x (closeNumber_shrinks denotes)
  holds := fun x c denotes => h.holds x c (closeNumber_shrinks denotes)
  settled := fun _ born => closeNumber_settled h numbered fd born
  unborn := by
    intro c late
    rw [State.closeNumber]
    split
    · rename_i d denotes
      have other : c ≠ d := by
        rintro rfl
        rcases h.holds fd c denotes with waits | held
        · exact absurd (numbered.pending c fd waits).1 (Nat.not_lt.mpr late)
        · obtain ⟨k, at_handler, _⟩ := holder_live held
          exact absurd (numbered.born c k at_handler) (Nat.not_lt.mpr late)
      exact (Function.update_of_ne other _ _).trans (h.unborn c late)
    · exact h.unborn c late

theorem accept_accounted {s : State} (h : Accounted s) {fd : Fd}
    (waiting : s.listener = .accepting) (free : s.descriptors fd = none) :
    Accounted (s.accept fd) := by
  have old : ∀ x target, x ≠ fd → (s.accept fd).descriptors x = some target →
      s.descriptors x = some target := fun x _ apart denotes =>
    (Function.update_of_ne apart _ _).symm.trans denotes
  have new : (s.accept fd).descriptors fd = some (.connection s.accepted) :=
    Function.update_self _ _ _
  constructor
  · intro x denotes
    by_cases same : x = fd
    · rw [same, new] at denotes
      cases denotes
    · exact h.listening x (old x _ same denotes)
  · intro x c denotes
    by_cases same : x = fd
    · rw [same, new, Option.some.injEq, Target.connection.injEq] at denotes
      exact Or.inl (by rw [same, ← denotes]; rfl)
    · rcases h.holds x c (old x _ same denotes) with waits | held
      · rw [waiting] at waits
        cases waits
      · exact Or.inr held
  · intro c born
    rcases Nat.lt_succ_iff_lt_or_eq.mp born with before | rfl
    · cases h.settled c before with
      | opened x open_at unclosed =>
        have apart : x ≠ fd := by
          rintro rfl
          rw [free] at open_at
          cases open_at
        exact .opened x ((Function.update_of_ne apart _ _).trans open_at) unclosed
      | closed once gone =>
        refine .closed once fun x denotes => ?_
        by_cases same : x = fd
        · rw [same, new, Option.some.injEq, Target.connection.injEq] at denotes
          exact absurd denotes (Nat.ne_of_gt before)
        · exact gone x (old x _ same denotes)
    · exact .opened fd new (h.unborn _ le_rfl)
  · exact fun c late => h.unborn c (Nat.le_of_succ_le late)

theorem adopt_accounted {s : State} (h : Accounted s) (numbered : Numbered s) {c : Nat} {fd : Fd}
    (waiting : s.listener = .accepted c fd) : Accounted (s.adopt c fd) where
  listening := h.listening
  holds := by
    intro x d denotes
    right
    rw [holder_adopt]
    rcases h.holds x d denotes with waits | held
    · rw [waiting] at waits
      cases waits
      rw [if_pos rfl]
    · have apart : d ≠ c := by
        rintro rfl
        rw [holder, (numbered.pending d fd waiting).2] at held
        cases held
      rw [if_neg apart]
      exact held
  settled := fun d born =>
    match h.settled d born with
    | .opened x open_at unclosed => .opened x open_at unclosed
    | .closed once gone => .closed once gone
  unborn := h.unborn

theorem launch_accounted {s : State} (h : Accounted s) {fd : Fd} (free : s.descriptors fd = none)
    (unused : s.serverSocket = none) (absent : s.listener = .absent) :
    Accounted (s.launch fd) := by
  have new : (s.launch fd).descriptors fd = some .listening := Function.update_self _ _ _
  have old : ∀ x, x ≠ fd → (s.launch fd).descriptors x = s.descriptors x := fun x apart =>
    Function.update_of_ne apart _ _
  have connections : ∀ x c, (s.launch fd).descriptors x = some (.connection c) ↔
      s.descriptors x = some (.connection c) := by
    intro x c
    by_cases same : x = fd
    · rw [same, new, free]
      exact iff_of_false nofun nofun
    · rw [old x same]
  constructor
  · intro x denotes
    by_cases same : x = fd
    · rw [same]
      rfl
    · rw [old x same] at denotes
      rw [h.listening x denotes] at unused
      cases unused
  · intro x c denotes
    rcases h.holds x c ((connections x c).mp denotes) with waits | held
    · rw [absent] at waits
      cases waits
    · exact Or.inr held
  · intro c born
    cases h.settled c born with
    | opened x open_at unclosed => exact .opened x ((connections x c).mpr open_at) unclosed
    | closed once gone => exact .closed once fun x denotes => gone x ((connections x c).mp denotes)
  · exact h.unborn

/-- The connections that are accepted and not yet listed. -/
def ListenerPc.pending : ListenerPc → Nat
  | .accepted _ _ => 1
  | _ => 0

/-- Where the socket, the listener and the list stand in each stage of the controlling thread. -/
structure Staged (s : State) : Prop where
  running : s.isRunning = true → s.control = .idle
  rest : s.isRunning = false → s.control = .idle →
    s.serverSocket = none ∧ s.listener = .absent ∧ s.tcpClients.size = 0
  listens : s.isRunning = true ∨ s.control = .closingListener ∨ s.control = .joining →
    s.listener ≠ .absent
  shut : s.control = .joining → s.serverSocket = none
  joined : ∀ cursor stop, s.control = .closingClients cursor stop →
    s.serverSocket = none ∧ s.listener = .absent ∧ stop ≤ s.tcpClients.slots.length

/-- No loop over the list leaves its storage, which is at most as long as the accepts. -/
structure Roomy (s : State) : Prop where
  slots : s.tcpClients.slots.length + ListenerPc.pending s.listener ≤ s.accepted
  broadcasts : ∀ c h message cursor stop, s.handler c = some h →
    h.pc = .relaying message cursor stop → stop ≤ s.tcpClients.slots.length

theorem initial_staged : Staged initial where
  running := nofun
  rest := fun _ _ => ⟨rfl, rfl, rfl⟩
  listens := by
    rintro (h | h | h) <;> cases h
  shut := nofun
  joined := nofun

theorem initial_roomy : Roomy initial := ⟨le_rfl, nofun⟩

theorem Staged.stopped {s : State} (h : Staged s) (busy : s.control ≠ .idle) :
    s.isRunning = false :=
  Bool.eq_false_iff.mpr fun running => busy (h.running running)

/-- With the flag cleared only the stages of `stop` say something. -/
theorem Staged.of_stopped {s : State} (stopped : s.isRunning = false)
    (rest : s.control = .idle →
      s.serverSocket = none ∧ s.listener = .absent ∧ s.tcpClients.size = 0)
    (listens : s.control = .closingListener ∨ s.control = .joining → s.listener ≠ .absent)
    (shut : s.control = .joining → s.serverSocket = none)
    (joined : ∀ cursor stop, s.control = .closingClients cursor stop →
      s.serverSocket = none ∧ s.listener = .absent ∧ stop ≤ s.tcpClients.slots.length) :
    Staged s where
  running running := by
    rw [stopped] at running
    cases running
  rest _ := rest
  listens := by
    rintro (running | place)
    · rw [stopped] at running
      cases running
    · exact listens place
  shut := shut
  joined := joined

theorem control_staged {s t : State} {a : ControlAction} (h : Staged s)
    (moved : controlStep s a = some t) : Staged t := by
  have effect := controlStep_effect moved
  cases effect with
  | start fd idle stopped free =>
    constructor
    · exact fun _ => idle
    · rintro ⟨⟩
    · rintro _ ⟨⟩
    · intro joining
      cases idle.symm.trans joining
    · intro cursor stop place
      cases idle.symm.trans place
  | stop idle =>
    simp only [controlStep, Option.ite_none_right_eq_some] at moved
    refine .of_stopped rfl ?_ (fun _ => h.listens (Or.inl moved.1.2)) ?_ ?_
    · rintro ⟨⟩
    · rintro ⟨⟩
    · rintro _ _ ⟨⟩
  | closeListener fd socket =>
    simp only [controlStep, Option.ite_none_right_eq_some] at moved
    refine .of_stopped (h.stopped (by simp [moved.1])) ?_
      (fun _ => h.listens (Or.inr (Or.inl moved.1))) (fun _ => rfl) ?_
    · rintro ⟨⟩
    · rintro _ _ ⟨⟩
  | noListener socket =>
    simp only [controlStep, Option.ite_none_right_eq_some] at moved
    refine .of_stopped (h.stopped (by simp [moved.1])) ?_
      (fun _ => h.listens (Or.inr (Or.inl moved.1))) (fun _ => socket) ?_
    · rintro ⟨⟩
    · rintro _ _ ⟨⟩
  | join joining returned =>
    refine .of_stopped (h.stopped (by simp [joining])) ?_ (by simp) ?_ ?_
    · rintro ⟨⟩
    · rintro ⟨⟩
    · rintro cursor stop ⟨⟩
      exact ⟨h.shut joining, rfl, s.tcpClients.size_le⟩
  | closeClient cursor stop client place slot =>
    refine .of_stopped (h.stopped (by simp [place])) ?_ (by simp) ?_ ?_
    · rintro ⟨⟩
    · rintro ⟨⟩
    · rintro _ _ ⟨⟩
      exact h.joined cursor stop place
  | clearClients cursor stop place =>
    obtain ⟨socket, absent, _⟩ := h.joined cursor stop place
    refine .of_stopped (h.stopped (by simp [place])) (fun _ => ⟨socket, absent, rfl⟩) (by simp)
      ?_ ?_
    · rintro ⟨⟩
    · rintro _ _ ⟨⟩

/-- Whoever leaves the controlling thread and its socket alone leaves the stages alone. -/
theorem Staged.of_views {s t : State} (h : Staged s) (running : t.isRunning = s.isRunning)
    (control : t.control = s.control) (socket : t.serverSocket = s.serverSocket)
    (listener : t.listener = .absent ↔ s.listener = .absent)
    (emptied : s.listener = .absent → s.tcpClients.size = 0 → t.tcpClients.size = 0)
    (slots : s.tcpClients.slots.length ≤ t.tcpClients.slots.length) : Staged t where
  running := by
    rw [running, control]
    exact h.running
  rest := by
    rw [running, control, socket]
    intro stopped idle
    obtain ⟨unused, absent, empty⟩ := h.rest stopped idle
    exact ⟨unused, listener.mpr absent, emptied absent empty⟩
  listens := by
    rw [running, control, Ne, listener]
    exact h.listens
  shut := by
    rw [control, socket]
    exact h.shut
  joined := by
    rw [control, socket, listener]
    intro cursor stop place
    obtain ⟨unused, absent, inside⟩ := h.joined cursor stop place
    exact ⟨unused, absent, inside.trans slots⟩

theorem listener_staged {s t : State} {a : ListenerAction} (h : Staged s)
    (moved : listenerStep s a = some t) : Staged t := by
  cases a with
  | test =>
    simp only [listenerStep, Option.ite_none_right_eq_some, Option.some.injEq] at moved
    obtain ⟨place, rfl⟩ := moved
    refine h.of_views rfl rfl rfl (iff_of_false ?_ (by simp [place])) (fun _ empty => empty) le_rfl
    cases s.isRunning <;> simp
  | accept fd =>
    simp only [listenerStep, Option.ite_none_right_eq_some, Option.some.injEq] at moved
    obtain ⟨⟨place, _⟩, rfl⟩ := moved
    exact h.of_views rfl rfl rfl (iff_of_false (by rintro ⟨⟩) (by simp [place]))
      (fun _ empty => empty) le_rfl
  | acceptFails =>
    simp only [listenerStep, Option.ite_none_right_eq_some, Option.some.injEq] at moved
    obtain ⟨place, rfl⟩ := moved
    exact h.of_views rfl rfl rfl (iff_of_false (by rintro ⟨⟩) (by simp [place]))
      (fun _ empty => empty) le_rfl
  | pushBack =>
    cases waiting : s.listener with
    | accepted c fd =>
      simp only [listenerStep, waiting, Option.some.injEq] at moved
      subst t
      refine h.of_views rfl rfl rfl (iff_of_false (by rintro ⟨⟩) (by simp [waiting]))
        (fun absent => ?_) (SlotVector.length_slots_pushBack _ _)
      rw [waiting] at absent
      cases absent
    | _ => simp [listenerStep, waiting] at moved

theorem handler_staged {s t : State} {c : Nat} {a : HandlerAction} (h : Staged s)
    (moved : handlerStep s c a = some t) : Staged t := by
  obtain ⟨k, held, effect⟩ := handlerStep_effect moved
  cases effect with
  | moves => exact h.of_views rfl rfl rfl Iff.rfl (fun _ empty => empty) le_rfl
  | closes => exact h.of_views rfl rfl rfl Iff.rfl (fun _ empty => empty) le_rfl
  | erases =>
    refine h.of_views rfl rfl rfl Iff.rfl (fun _ empty => ?_)
      (SlotVector.length_slots_eraseRemove _ _).ge
    exact Nat.le_zero.mp ((SlotVector.size_eraseRemove_le _ _).trans empty.le)

structure Steady (s : State) : Prop where
  numbered : Numbered s
  accounted : Accounted s
  staged : Staged s
  roomy : Roomy s

theorem control_accounted {s t : State} {a : ControlAction} (h : Steady s)
    (moved : controlStep s a = some t) : Accounted t := by
  cases controlStep_effect moved with
  | start fd idle stopped free =>
    obtain ⟨unused, absent, _⟩ := h.staged.rest stopped idle
    exact launch_accounted h.accounted free unused absent
  | stop idle => exact h.accounted.of_views rfl rfl rfl rfl (fun _ => rfl) fun _ _ => id
  | closeListener fd socket =>
    have closed := closeNumber_accounted h.accounted h.numbered fd
    refine ⟨fun x denotes => ?_, closed.holds, fun c born => ?_, closed.unborn⟩
    · have same := closed.listening x denotes
      rw [State.closeNumber, socket, Option.some.injEq] at same
      change (s.closeNumber fd).descriptors x = some .listening at denotes
      rw [← same, closeNumber_gone] at denotes
      cases denotes
    · cases closed.settled c born with
      | opened x open_at unclosed => exact .opened x open_at unclosed
      | closed once gone => exact .closed once gone
  | noListener socket => exact h.accounted.of_views rfl rfl rfl rfl (fun _ => rfl) fun _ _ => id
  | join joining returned =>
    refine h.accounted.of_views rfl rfl rfl rfl (fun _ => rfl) fun c fd waits => ?_
    rw [returned] at waits
    cases waits
  | closeClient cursor stop client place slot =>
    exact (closeNumber_accounted h.accounted h.numbered client).of_views rfl rfl rfl rfl
      (fun _ => rfl) fun _ _ => id
  | clearClients cursor stop place =>
    exact h.accounted.of_views rfl rfl rfl rfl (fun _ => rfl) fun _ _ => id

theorem listener_accounted {s t : State} {a : ListenerAction} (h : Steady s)
    (moved : listenerStep s a = some t) : Accounted t := by
  cases listenerStep_effect moved with
  | moves _ pc present before after =>
    exact h.accounted.of_views rfl rfl rfl rfl (fun _ => rfl) fun c fd waits =>
      absurd waits (before c fd)
  | accepts fd waiting free => exact accept_accounted h.accounted waiting free
  | adopts c fd waiting => exact adopt_accounted h.accounted h.numbered waiting

theorem handler_accounted {s t : State} {c : Nat} {a : HandlerAction} (h : Steady s)
    (moved : handlerStep s c a = some t) : Accounted t := by
  obtain ⟨k, held, effect⟩ := handlerStep_effect moved
  cases effect with
  | moves _ pc relays running alive sends fixed =>
    have same_life := alive.trans (HandlerPc.alive_of_running running).symm
    exact h.accounted.of_views rfl rfl rfl rfl (holder_goto_eq held same_life) fun _ _ => id
  | closes leaving =>
    have closed := closeNumber_accounted h.accounted h.numbered k.clientSocket
    have own : holder s c = some (k.clientSocket, true) :=
      holder_of_alive held (by rw [leaving]; rfl)
    refine ⟨closed.listening, fun fd d denotes => ?_, fun d born => ?_, closed.unborn⟩
    · rcases closed.holds fd d denotes with waits | held_by
      · exact Or.inl waits
      · right
        have apart : d ≠ c := by
          rintro rfl
          change holder s d = some (fd, true) at held_by
          rw [own, Option.some.injEq, Prod.mk.injEq] at held_by
          obtain ⟨rfl, _⟩ := held_by
          change (s.closeNumber k.clientSocket).descriptors k.clientSocket = _ at denotes
          rw [closeNumber_gone] at denotes
          cases denotes
        rw [holder_goto, if_neg apart]
        exact held_by
    · cases closed.settled d born with
      | opened x open_at unclosed => exact .opened x open_at unclosed
      | closed once gone => exact .closed once gone
  | erases closed =>
    have same_life : HandlerPc.ended.alive = k.pc.alive := by
      rw [closed]
      rfl
    exact h.accounted.of_views rfl rfl rfl rfl (holder_goto_eq held same_life) fun _ _ => id

theorem control_roomy {s t : State} {a : ControlAction} (h : Roomy s)
    (moved : controlStep s a = some t) : Roomy t := by
  have frame := controlStep_frame moved
  have slots : t.tcpClients.slots = s.tcpClients.slots := by
    rcases frame.clients with same | ⟨_, cleared⟩
    · rw [same]
    · rw [cleared, SlotVector.clear]
  have pending : ListenerPc.pending t.listener ≤ ListenerPc.pending s.listener := by
    cases place : t.listener with
    | accepted c fd => rw [frame.listener c fd place]
    | _ => exact Nat.zero_le _
  have inside := h.slots
  constructor
  · rw [slots, frame.accepted]
    omega
  · rw [slots, frame.handler]
    exact h.broadcasts

theorem listener_roomy {s t : State} {a : ListenerAction} (h : Roomy s)
    (moved : listenerStep s a = some t) : Roomy t := by
  have inside := h.slots
  cases listenerStep_effect moved with
  | moves _ pc present before after =>
    have none : ListenerPc.pending pc = 0 := by
      cases pc with
      | accepted c fd => exact absurd rfl (after c fd)
      | _ => rfl
    refine ⟨?_, h.broadcasts⟩
    rw [none]
    exact (Nat.le_add_right _ _).trans inside
  | accepts fd waiting free =>
    rw [waiting] at inside
    exact ⟨Nat.succ_le_succ inside, h.broadcasts⟩
  | adopts c fd waiting =>
    have longer := SlotVector.length_slots_pushBack_le s.tcpClients fd
    rw [waiting] at inside
    refine ⟨longer.trans inside, fun d k message cursor stop at_handler place => ?_⟩
    by_cases same : d = c
    · subst d
      have new := (Function.update_self _ _ _).symm.trans at_handler
      cases new
      cases place
    · have before := (Function.update_of_ne same _ _).symm.trans at_handler
      exact (h.broadcasts d k message cursor stop before place).trans
        (SlotVector.length_slots_pushBack _ _)

/-- A handler that moves keeps inside the storage if it begins a broadcast inside it. -/
theorem goto_roomy {s t : State} {c : Nat} {k : Handler} {pc : HandlerPc} (h : Roomy s)
    (handler : t.handler = Function.update s.handler c (some { k with pc := pc }))
    (slots : t.tcpClients.slots.length = s.tcpClients.slots.length)
    (listener : t.listener = s.listener) (accepted : t.accepted = s.accepted)
    (begins : ∀ message cursor stop, pc = .relaying message cursor stop →
      stop ≤ s.tcpClients.slots.length) : Roomy t := by
  constructor
  · rw [slots, listener, accepted]
    exact h.slots
  · rw [slots, handler]
    intro d j message cursor stop at_handler place
    by_cases same : d = c
    · subst d
      rw [Function.update_self, Option.some.injEq] at at_handler
      subst at_handler
      exact begins message cursor stop place
    · rw [Function.update_of_ne same] at at_handler
      exact h.broadcasts d j message cursor stop at_handler place

theorem handler_roomy {s t : State} {c : Nat} {a : HandlerAction} (h : Roomy s)
    (moved : handlerStep s c a = some t) : Roomy t := by
  obtain ⟨k, held, effect⟩ := handlerStep_effect moved
  cases effect with
  | moves _ pc relays running alive sends fixed =>
    refine goto_roomy h rfl rfl rfl rfl fun message cursor stop place => ?_
    rcases fixed message cursor stop place with rfl | ⟨earlier, before⟩
    · exact s.tcpClients.size_le
    · exact h.broadcasts c k message earlier stop held before
  | closes leaving => exact goto_roomy h rfl rfl rfl rfl nofun
  | erases closed =>
    exact goto_roomy h rfl (SlotVector.length_slots_eraseRemove _ _) rfl rfl nofun

theorem initial_steady : Steady initial :=
  ⟨initial_numbered, initial_accounted, initial_staged, initial_roomy⟩

theorem step_steady (s : State) (a : Action) (t : State) (h : Steady s)
    (moved : step s a = some t) : Steady t := by
  have numbered := step_numbered s a t h.numbered moved
  cases a with
  | control a =>
    exact ⟨numbered, control_accounted h moved, control_staged h.staged moved,
      control_roomy h.roomy moved⟩
  | listener a =>
    exact ⟨numbered, listener_accounted h moved, listener_staged h.staged moved,
      listener_roomy h.roomy moved⟩
  | handler c a =>
    exact ⟨numbered, handler_accounted h moved, handler_staged h.staged moved,
      handler_roomy h.roomy moved⟩

theorem reachable_steady {s : State} (reachable : Reachable step initial s) : Steady s :=
  reachable_invariant step_steady initial_steady reachable

/-- Whatever is open is going to be closed by its own socket field or handler, and no
connection is closed a second time, though its number may be. -/
structure Attended (s : State) : Prop where
  listening : ∀ fd, s.descriptors fd = some .listening → s.serverSocket = some fd
  handled : ∀ fd c, s.descriptors fd = some (.connection c) → s.listener = .accepted c fd ∨
    ∃ h, s.handler c = some h ∧ h.clientSocket = fd ∧ h.pc.alive = true
  once : ∀ c, c < s.accepted →
    s.closes c = 0 ∧ (∃! fd, s.descriptors fd = some (.connection c)) ∨
      s.closes c = 1 ∧ ∀ fd, s.descriptors fd ≠ some (.connection c)

theorem numbers_attended {s : State} (reachable : Reachable step initial s) : Attended s := by
  have h := reachable_steady reachable
  refine ⟨h.accounted.listening, fun fd c denotes => ?_, fun c born => ?_⟩
  · rcases h.accounted.holds fd c denotes with waits | held
    · exact Or.inl waits
    · exact Or.inr (holder_live held)
  · cases h.accounted.settled c born with
    | opened fd open_at unclosed =>
      exact Or.inl ⟨unclosed, fd, open_at, fun x denotes =>
        h.accounted.number_unique h.numbered denotes open_at⟩
    | closed once gone => exact Or.inr ⟨once, gone⟩

/-- A handler from before the restart has closed the number of a new connection. -/
theorem numbers_attended_after_stray_close :
    ∃ s, run step initial overlappingRun = some s ∧ s.handler 1 = some ⟨5, .receiving⟩ ∧
      s.descriptors 5 = none ∧ Attended s := by
  obtain ⟨s, path, stale, gone⟩ : ∃ s, run step initial overlappingRun = some s ∧
      s.handler 1 = some ⟨5, .receiving⟩ ∧ s.descriptors 5 = none := ⟨_, rfl, rfl, rfl⟩
  exact ⟨s, path, stale, gone, numbers_attended ⟨_, path⟩⟩

/-- Nothing is under way: `stop` has returned and every handler thread has ended. -/
structure AtRest (s : State) : Prop where
  stopped : s.isRunning = false
  idle : s.control = .idle
  ended : ∀ c h, s.handler c = some h → h.pc = .ended

/-- The server as long as nobody calls `start`. -/
def withoutStart (s : State) : Action → Option State
  | .control (.start _) => none
  | a => step s a

/-- How long the list can be when a broadcast begins. -/
def room (s : State) : Nat :=
  s.tcpClients.size + match s.listener with
    | .accepting => 1
    | .accepted _ _ => 1
    | _ => 0

def controlLeft (room : Nat) : ControlPc → Nat
  | .idle => 0
  | .closingListener => room + 3
  | .joining => room + 2
  | .closingClients cursor stop => stop - cursor + 1

def listenerLeft : ListenerPc → Nat
  | .absent => 0
  | .loopTest => 1
  | .accepting => 6
  | .accepted _ _ => 5
  | .returned => 0

/-- With the flag cleared a handler finishes its message, if it has one, and leaves. -/
def pcLeft (room : Nat) : HandlerPc → Nat
  | .loopTest => 3
  | .receiving => room + 8
  | .received _ => room + 7
  | .acked _ => room + 6
  | .relaying _ cursor stop => stop - cursor + 4
  | .leaving => 2
  | .closed => 1
  | .ended => 0

def handlerLeft (room : Nat) (h : Option Handler) : Nat := h.elim 0 fun h => pcLeft room h.pc

def workLeft (s : State) : Nat :=
  controlLeft (room s) s.control + listenerLeft s.listener +
    ∑ c ∈ Finset.range s.accepted, handlerLeft (room s) (s.handler c)

def stopBound (accepted : Nat) : Nat := accepted + 10 + accepted * (accepted + 9)

theorem room_le {s : State} (h : Roomy s) : room s ≤ s.accepted + 1 := by
  have inside := h.slots
  have := s.tcpClients.size_le
  rw [room]
  cases place : s.listener <;> simp only [place, ListenerPc.pending] at inside ⊢ <;> omega

theorem pcLeft_mono {small large : Nat} (le : small ≤ large) (pc : HandlerPc) :
    pcLeft small pc ≤ pcLeft large pc := by
  cases pc <;> simp only [pcLeft] <;> omega

theorem handlerLeft_mono {small large : Nat} (le : small ≤ large) (h : Option Handler) :
    handlerLeft small h ≤ handlerLeft large h := by
  cases h with
  | none => exact le_rfl
  | some h => exact pcLeft_mono le h.pc

theorem controlLeft_mono {small large : Nat} (le : small ≤ large) (pc : ControlPc) :
    controlLeft small pc ≤ controlLeft large pc := by
  cases pc <;> simp only [controlLeft] <;> omega

theorem workLeft_le {s : State} (h : Steady s) : workLeft s ≤ stopBound s.accepted := by
  have bound := room_le h.roomy
  have inside := h.roomy.slots
  have control : controlLeft (room s) s.control ≤ s.accepted + 4 := by
    cases place : s.control with
    | closingClients cursor stop =>
      have := (h.staged.joined cursor stop place).2.2
      simp only [controlLeft]
      omega
    | _ =>
      simp only [controlLeft]
      omega
  have listener : listenerLeft s.listener ≤ 6 := by
    cases s.listener <;> simp [listenerLeft]
  have each : ∀ c, handlerLeft (room s) (s.handler c) ≤ s.accepted + 9 := by
    intro c
    cases held : s.handler c with
    | none => exact Nat.zero_le _
    | some k =>
      rw [handlerLeft, Option.elim_some]
      cases place : k.pc with
      | relaying message cursor stop =>
        have := h.roomy.broadcasts c k message cursor stop held place
        simp only [pcLeft]
        omega
      | _ =>
        simp only [pcLeft]
        omega
  have handlers : ∑ c ∈ Finset.range s.accepted, handlerLeft (room s) (s.handler c) ≤
      s.accepted * (s.accepted + 9) := by
    refine (Finset.sum_le_card_nsmul _ _ _ fun c _ => each c).trans_eq ?_
    rw [Finset.card_range, nsmul_eq_mul, Nat.cast_id]
  rw [workLeft, stopBound]
  omega

/-- A handler's step from one place to another, and the rest of the server. -/
structure Descends (s t : State) (c : Nat) (h : Handler) (before after : HandlerPc) : Prop where
  handler : t.handler = Function.update s.handler c (some { h with pc := after })
  control : t.control = s.control
  listener : t.listener = s.listener
  accepted : t.accepted = s.accepted
  size : t.tcpClients.size ≤ s.tcpClients.size
  less : pcLeft (room s) after < pcLeft (room s) before

theorem handlerMove_descends {s t : State} {c : Nat} {h : Handler} {before : HandlerPc}
    {a : HandlerAction} (stopped : s.isRunning = false)
    (moved : handlerMove s c h before a = some t) : ∃ after, Descends s t c h before after := by
  have goes : ∀ after, pcLeft (room s) after < pcLeft (room s) before →
      ∃ after', Descends s (s.goto c h after) c h before after' :=
    fun after less => ⟨after, rfl, rfl, rfl, rfl, le_rfl, less⟩
  cases before with
  | loopTest =>
    cases a <;> cases moved
    rw [stopped]
    exact goes .leaving (by simp [pcLeft])
  | receiving =>
    cases a with
    | recv buffer =>
      simp only [handlerMove] at moved
      split at moved
      · simp only [Option.ite_none_right_eq_some, Option.some.injEq] at moved
        obtain ⟨_, rfl⟩ := moved
        exact goes (.received buffer) (by simp [pcLeft])
      · cases moved
    | recvFails =>
      cases moved
      exact goes .leaving (by simp only [pcLeft]; omega)
    | _ => cases moved
  | received buffer =>
    cases a <;> cases moved
    exact goes (.acked buffer) (by simp [pcLeft])
  | acked buffer =>
    cases a <;> cases moved
    refine goes (.relaying _ 0 s.tcpClients.size) ?_
    simp only [pcLeft, room]
    omega
  | relaying message cursor stop =>
    cases a with
    | relay =>
      simp only [handlerMove, Option.ite_none_right_eq_some, Option.map_eq_some_iff] at moved
      obtain ⟨ahead, client, _, rfl⟩ := moved
      refine ⟨.relaying message (cursor + 1) stop, rfl, rfl, rfl, rfl, le_rfl, ?_⟩
      simp only [pcLeft]
      omega
    | endBroadcast =>
      simp only [handlerMove, Option.ite_none_left_eq_some, Option.some.injEq] at moved
      obtain ⟨_, rfl⟩ := moved
      exact goes .loopTest (by simp [pcLeft])
    | _ => cases moved
  | leaving =>
    cases a <;> cases moved
    exact ⟨.closed, rfl, rfl, rfl, rfl, le_rfl, by simp [pcLeft]⟩
  | closed =>
    cases a <;> cases moved
    exact ⟨.ended, rfl, rfl, rfl, rfl, SlotVector.size_eraseRemove_le _ _, by simp [pcLeft]⟩
  | ended => cases a <;> cases moved

theorem Descends.left {s t : State} {c : Nat} {h : Handler} {after : HandlerPc}
    (descends : Descends s t c h h.pc after) (numbered : Numbered s)
    (held : s.handler c = some h) : workLeft t + 1 ≤ workLeft s := by
  have room_le : room t ≤ room s := by
    rw [room, room, descends.listener]
    exact Nat.add_le_add_right descends.size _
  have here : handlerLeft (room t) (t.handler c) < handlerLeft (room s) (s.handler c) := by
    rw [descends.handler, Function.update_self, held]
    exact (pcLeft_mono room_le after).trans_lt descends.less
  have handlers : ∑ d ∈ Finset.range s.accepted, handlerLeft (room t) (t.handler d) <
      ∑ d ∈ Finset.range s.accepted, handlerLeft (room s) (s.handler d) := by
    refine Finset.sum_lt_sum (fun d _ => ?_)
      ⟨c, Finset.mem_range.mpr (numbered.born c h held), here⟩
    by_cases same : d = c
    · exact same ▸ here.le
    · rw [descends.handler, Function.update_of_ne same]
      exact handlerLeft_mono room_le _
  have control := controlLeft_mono room_le s.control
  rw [workLeft, workLeft, descends.control, descends.listener, descends.accepted]
  omega

/-- A step that moves no handler. -/
theorem workLeft_of_handlers {s t : State} (room_le : room t ≤ room s)
    (accepted : t.accepted = s.accepted) (handler : t.handler = s.handler)
    (less : controlLeft (room t) t.control + listenerLeft t.listener <
      controlLeft (room s) s.control + listenerLeft s.listener) :
    workLeft t + 1 ≤ workLeft s := by
  have handlers : ∑ d ∈ Finset.range s.accepted, handlerLeft (room t) (s.handler d) ≤
      ∑ d ∈ Finset.range s.accepted, handlerLeft (room s) (s.handler d) :=
    Finset.sum_le_sum fun d _ => handlerLeft_mono room_le _
  rw [workLeft, workLeft, accepted, handler]
  omega

theorem control_left {s t : State} {a : ControlAction}
    (stopped : s.isRunning = false) (other : ∀ fd, a ≠ .start fd)
    (moved : controlStep s a = some t) : workLeft t + 1 ≤ workLeft s := by
  cases controlStep_effect moved with
  | start fd => exact absurd rfl (other fd)
  | stop idle =>
    simp only [controlStep, Option.ite_none_right_eq_some] at moved
    rw [stopped] at moved
    cases moved.1.2
  | closeListener fd socket =>
    simp only [controlStep, Option.ite_none_right_eq_some] at moved
    refine workLeft_of_handlers le_rfl rfl rfl (Nat.add_lt_add_right ?_ _)
    rw [moved.1]
    exact Nat.lt_succ_self _
  | noListener socket =>
    simp only [controlStep, Option.ite_none_right_eq_some] at moved
    refine workLeft_of_handlers le_rfl rfl rfl (Nat.add_lt_add_right ?_ _)
    rw [moved.1]
    exact Nat.lt_succ_self _
  | join joining returned =>
    refine workLeft_of_handlers (Nat.add_le_add_left (Nat.zero_le _) _) rfl rfl ?_
    rw [joining, returned]
    simp only [controlLeft, listenerLeft, room]
    omega
  | closeClient cursor stop client place slot =>
    simp only [controlStep, place, Option.ite_none_right_eq_some] at moved
    refine workLeft_of_handlers le_rfl rfl rfl (Nat.add_lt_add_right ?_ _)
    rw [place]
    simp only [controlLeft]
    omega
  | clearClients cursor stop place =>
    refine workLeft_of_handlers (Nat.add_le_add_right (Nat.zero_le _) _) rfl rfl
      (Nat.add_lt_add_right ?_ _)
    rw [place]
    exact Nat.succ_pos _

theorem adopt_left {s : State} {c : Nat} {fd : Fd} (numbered : Numbered s)
    (waiting : s.listener = .accepted c fd) : workLeft (s.adopt c fd) + 1 ≤ workLeft s := by
  obtain ⟨born, unheld⟩ := numbered.pending c fd waiting
  have room_eq : room (s.adopt c fd) = room s := by
    rw [room, room, waiting]
    rfl
  have inside := Finset.mem_range.mpr born
  have others : ∑ d ∈ (Finset.range s.accepted).erase c,
        handlerLeft (room s) ((s.adopt c fd).handler d) =
      ∑ d ∈ (Finset.range s.accepted).erase c, handlerLeft (room s) (s.handler d) := by
    refine Finset.sum_congr rfl fun d mem => ?_
    have unmoved : (s.adopt c fd).handler d = s.handler d :=
      Function.update_of_ne (Finset.ne_of_mem_erase mem) _ _
    rw [unmoved]
  have new : handlerLeft (room s) ((s.adopt c fd).handler c) = 3 := by
    have created : (s.adopt c fd).handler c = some ⟨fd, .loopTest⟩ := Function.update_self _ _ _
    rw [created]
    rfl
  have old : handlerLeft (room s) (s.handler c) = 0 := by
    rw [unheld]
    rfl
  rw [workLeft, workLeft, room_eq, waiting,
    ← Finset.add_sum_erase _ (fun d => handlerLeft (room s) (s.handler d)) inside, old, ← others]
  change controlLeft (room s) s.control + 1 +
    ∑ d ∈ Finset.range s.accepted, handlerLeft (room s) ((s.adopt c fd).handler d) + 1 ≤ _
  rw [← Finset.add_sum_erase _ _ inside, new]
  simp only [listenerLeft]
  omega

theorem listener_left {s t : State} {a : ListenerAction} (h : Steady s)
    (stopped : s.isRunning = false) (moved : listenerStep s a = some t) :
    workLeft t + 1 ≤ workLeft s := by
  cases a with
  | test =>
    simp only [listenerStep, Option.ite_none_right_eq_some, Option.some.injEq] at moved
    obtain ⟨place, rfl⟩ := moved
    refine workLeft_of_handlers ?_ rfl rfl (Nat.add_lt_add_of_le_of_lt (controlLeft_mono ?_ _) ?_)
    · simp [room, place, stopped]
    · simp [room, place, stopped]
    · simp [listenerLeft, place, stopped]
  | accept fd =>
    simp only [listenerStep, Option.ite_none_right_eq_some, Option.some.injEq] at moved
    obtain ⟨⟨place, _⟩, rfl⟩ := moved
    have unheld : s.handler s.accepted = none := by
      cases held : s.handler s.accepted with
      | none => rfl
      | some k => exact absurd (h.numbered.born _ k held) (lt_irrefl _)
    have room_eq : room (s.accept fd) = room s := by
      rw [room, room, place]
      rfl
    have sum : ∑ d ∈ Finset.range (s.accept fd).accepted,
          handlerLeft (room s) ((s.accept fd).handler d) =
        ∑ d ∈ Finset.range s.accepted, handlerLeft (room s) (s.handler d) := by
      change ∑ d ∈ Finset.range (s.accepted + 1), handlerLeft (room s) (s.handler d) = _
      rw [Finset.sum_range_succ, unheld]
      rfl
    rw [workLeft, workLeft, room_eq, sum, place]
    exact Nat.le_of_eq (by simp only [State.accept, listenerLeft]; omega)
  | acceptFails =>
    simp only [listenerStep, Option.ite_none_right_eq_some, Option.some.injEq] at moved
    obtain ⟨place, rfl⟩ := moved
    refine workLeft_of_handlers ?_ rfl rfl (Nat.add_lt_add_of_le_of_lt (controlLeft_mono ?_ _) ?_)
    · simp [room, place]
    · simp [room, place]
    · simp [listenerLeft, place]
  | pushBack =>
    cases waiting : s.listener with
    | accepted c fd =>
      simp only [listenerStep, waiting, Option.some.injEq] at moved
      subst t
      exact adopt_left h.numbered waiting
    | _ => simp [listenerStep, waiting] at moved

structure Stopping (s : State) : Prop where
  steady : Steady s
  stopped : s.isRunning = false

theorem withoutStart_some {s t : State} {a : Action} (moved : withoutStart s a = some t) :
    step s a = some t ∧ ∀ fd, a ≠ .control (.start fd) := by
  unfold withoutStart at moved
  split at moved
  · cases moved
  · rename_i other
    exact ⟨moved, other⟩

theorem step_stopping (s : State) (a : Action) (t : State) (h : Stopping s)
    (moved : withoutStart s a = some t) : Stopping t := by
  obtain ⟨moved, other⟩ := withoutStart_some moved
  refine ⟨step_steady s a t h.steady moved, ?_⟩
  cases a with
  | control a =>
    cases controlStep_effect moved with
    | start fd => exact absurd rfl (other fd)
    | stop => rfl
    | _ => exact h.stopped
  | listener a => cases listenerStep_effect moved <;> exact h.stopped
  | handler c a =>
    obtain ⟨k, _, effect⟩ := handlerStep_effect moved
    cases effect <;> exact h.stopped

theorem step_left (s : State) (a : Action) (t : State) (h : Stopping s)
    (moved : withoutStart s a = some t) : workLeft t + 1 ≤ workLeft s := by
  obtain ⟨moved, other⟩ := withoutStart_some moved
  cases a with
  | control a => exact control_left h.stopped (fun fd same => other fd (congrArg _ same)) moved
  | listener a => exact listener_left h.steady h.stopped moved
  | handler c a =>
    obtain ⟨k, held, moved⟩ := Option.bind_eq_some_iff.mp moved
    obtain ⟨after, descends⟩ := handlerMove_descends h.stopped moved
    exact descends.left h.steady.numbered held

/-- A handler that has not ended can take a step, if only because its `recv` fails. -/
theorem handler_moves {s : State} (roomy : Roomy s) {c : Nat} {h : Handler}
    (held : s.handler c = some h) (alive : h.pc ≠ .ended) :
    ∃ a, (withoutStart s (.handler c a)).isSome = true := by
  have moves : ∀ a, (handlerMove s c h h.pc a).isSome = true →
      (withoutStart s (.handler c a)).isSome = true := by
    intro a moved
    simpa only [withoutStart, step, handlerStep, held, Option.bind_some] using moved
  cases place : h.pc with
  | loopTest => exact ⟨.test, moves _ (by rw [place]; rfl)⟩
  | receiving => exact ⟨.recvFails, moves _ (by rw [place]; rfl)⟩
  | received buffer => exact ⟨.ack, moves _ (by rw [place]; rfl)⟩
  | acked buffer => exact ⟨.beginBroadcast, moves _ (by rw [place]; rfl)⟩
  | relaying message cursor stop =>
    by_cases ahead : cursor < stop
    · have inside := ahead.trans_le (roomy.broadcasts c h message cursor stop held place)
      refine ⟨.relay, moves _ ?_⟩
      rw [place, handlerMove, if_pos ahead, List.getElem?_eq_getElem inside]
      rfl
    · refine ⟨.endBroadcast, moves _ ?_⟩
      rw [place, handlerMove, if_neg ahead]
      rfl
  | leaving => exact ⟨.close, moves _ (by rw [place]; rfl)⟩
  | closed => exact ⟨.erase, moves _ (by rw [place]; rfl)⟩
  | ended => exact absurd place alive

/-- While `stop` waits in its join the listener can take a step, until it has returned. -/
theorem listener_moves {s : State} (present : s.listener ≠ .absent)
    (unfinished : s.listener ≠ .returned) :
    ∃ a, (withoutStart s (.listener a)).isSome = true := by
  cases place : s.listener with
  | absent => exact absurd place present
  | returned => exact absurd place unfinished
  | loopTest => exact ⟨.test, by simp [withoutStart, step, listenerStep, place]⟩
  | accepting => exact ⟨.acceptFails, by simp [withoutStart, step, listenerStep, place]⟩
  | accepted c fd => exact ⟨.pushBack, by simp [withoutStart, step, listenerStep, place]⟩

theorem control_moves {s : State} (h : Steady s) (busy : s.control ≠ .idle) :
    ∃ a, (withoutStart s a).isSome = true := by
  cases place : s.control with
  | idle => exact absurd place busy
  | closingListener =>
    refine ⟨.control .closeListener, ?_⟩
    cases socket : s.serverSocket <;> simp [withoutStart, step, controlStep, place, socket]
  | joining =>
    by_cases returned : s.listener = .returned
    · exact ⟨.control .join, by simp [withoutStart, step, controlStep, place, returned]⟩
    · obtain ⟨a, moves⟩ := listener_moves (h.staged.listens (Or.inr (Or.inr place))) returned
      exact ⟨.listener a, moves⟩
  | closingClients cursor stop =>
    by_cases ahead : cursor < stop
    · have inside := ahead.trans_le (h.staged.joined cursor stop place).2.2
      refine ⟨.control .closeClient, ?_⟩
      simp [withoutStart, step, controlStep, place, ahead, List.getElem?_eq_getElem inside]
    · exact ⟨.control .clearClients, by simp [withoutStart, step, controlStep, place, ahead]⟩

theorem stopping_moves {s : State} (h : Stopping s) (unfinished : ¬ AtRest s) :
    ∃ a t, withoutStart s a = some t := by
  suffices ∃ a, (withoutStart s a).isSome = true by
    obtain ⟨a, moves⟩ := this
    exact ⟨a, Option.isSome_iff_exists.mp moves⟩
  by_cases busy : s.control = .idle
  · have alive : ∃ c k, s.handler c = some k ∧ k.pc ≠ .ended := by
      by_contra none
      exact unfinished ⟨h.stopped, busy, fun c k held => by_contra fun other =>
        none ⟨c, k, held, other⟩⟩
    obtain ⟨c, k, held, alive⟩ := alive
    obtain ⟨a, moves⟩ := handler_moves h.steady.roomy held alive
    exact ⟨.handler c a, moves⟩
  · exact control_moves h.steady busy

/-- What `stop` leaves: no list, no listener and no listening socket. A number that is still
open belongs to a handler that has not closed it yet. -/
structure Released (s : State) : Prop where
  unlisted : s.tcpClients.live = []
  unused : s.serverSocket = none
  joined : s.listener = .absent
  handled : ∀ fd target, s.descriptors fd = some target → ∃ c h, target = .connection c ∧
    s.handler c = some h ∧ h.clientSocket = fd ∧ h.pc.alive = true

theorem Steady.released {s : State} (h : Steady s) (stopped : s.isRunning = false)
    (idle : s.control = .idle) : Released s := by
  obtain ⟨unused, absent, empty⟩ := h.staged.rest stopped idle
  refine ⟨?_, unused, absent, fun fd target denotes => ?_⟩
  · rw [← List.length_eq_zero_iff, SlotVector.length_live, empty]
  · cases target with
    | listening =>
      rw [h.accounted.listening fd denotes] at unused
      cases unused
    | connection c =>
      rcases h.accounted.holds fd c denotes with waits | held
      · rw [absent] at waits
        cases waits
      · obtain ⟨k, at_handler, live⟩ := holder_live held
        exact ⟨c, k, rfl, at_handler, live⟩

/-- Nobody is listed, no number is open, and every connection has been closed once. -/
structure LeavesNothing (s : State) : Prop where
  unlisted : s.tcpClients.live = []
  all_closed : ∀ fd, s.descriptors fd = none
  closed_once : ∀ c, s.closes c = if c < s.accepted then 1 else 0

theorem Steady.leavesNothing {s : State} (h : Steady s) (rest : AtRest s) : LeavesNothing s := by
  have released := h.released rest.stopped rest.idle
  have all_closed : ∀ fd, s.descriptors fd = none := by
    intro fd
    by_contra open_at
    obtain ⟨target, denotes⟩ := Option.ne_none_iff_exists'.mp open_at
    obtain ⟨c, k, -, held, -, live⟩ := released.handled fd target denotes
    rw [rest.ended c k held] at live
    cases live
  refine ⟨released.unlisted, all_closed, fun c => ?_⟩
  split
  case isTrue born =>
    cases h.accounted.settled c born with
    | opened fd open_at =>
      rw [all_closed fd] at open_at
      cases open_at
    | closed once gone => exact once
  case isFalse late => exact h.accounted.unborn c (Nat.not_lt.mp late)

/-- However often the server has been started and stopped and whatever has been closed under
another's number: unless somebody calls `start`, the threads have only so much left to do once
the flag is cleared, they can come to their end, and at the end nothing is open. -/
theorem stop_ends {s : State} (reachable : Reachable step initial s)
    (stopped : s.isRunning = false) :
    (∀ actions t, run withoutStart s actions = some t →
        actions.length ≤ stopBound s.accepted ∧ (AtRest t → LeavesNothing t)) ∧
      ∃ actions t, run withoutStart s actions = some t ∧ AtRest t := by
  have h : Stopping s := ⟨reachable_steady reachable, stopped⟩
  constructor
  · intro actions t path
    have paid := @run_cost_le _ _ _ _ workLeft (fun _ => 1) step_stopping step_left _ _ _ h path
    have limit := workLeft_le h.steady
    rw [cost_one] at paid
    exact ⟨by omega, (run_invariant step_stopping h path).steady.leavesNothing⟩
  · refine @exists_run_to_end _ _ _ _ workLeft _ step_stopping (fun u stopping unfinished => ?_) s h
    obtain ⟨a, t, moved⟩ := stopping_moves stopping unfinished
    exact ⟨a, t, moved, step_left u a t stopping moved⟩

/-- The second `stop` begins while two handlers have the same number. -/
theorem stop_ends_after_stray_close :
    ∃ s, run step initial (overlappingRun ++ [.control .stop]) = some s ∧
      s.control = .closingListener ∧
      (∀ actions t, run withoutStart s actions = some t →
        actions.length ≤ stopBound 2 ∧ (AtRest t → LeavesNothing t)) := by
  obtain ⟨s, path, place, two, stopped⟩ :
      ∃ s, run step initial (overlappingRun ++ [.control .stop]) = some s ∧
        s.control = .closingListener ∧ s.accepted = 2 ∧ s.isRunning = false :=
    ⟨_, rfl, rfl, rfl, rfl⟩
  refine ⟨s, path, place, ?_⟩
  rw [← two]
  exact (stop_ends ⟨_, path⟩ stopped).1

end ServerShutdown
