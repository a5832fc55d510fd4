import Cursov.DescriptorOwnership
import Mathlib.Data.List.Nodup

/-!
# The list of connected clients

Between `start` and `stop` the list is a roster of connections seen through their
numbers. A handler closes its number before it erases it, so the number may be
accepted again in between, and the erase then removes the new client too.
-/

namespace ClientList

open Server DescriptorOwnership Transition

/-- The steps of `tcp_listen` and of the handlers, without `start` and `stop`. -/
def Traffic : Action → Prop
  | .control _ => False
  | _ => True

instance trafficDecidable : DecidablePred Traffic := fun a =>
  match a with
  | .control _ => .isFalse id
  | .listener _ | .handler _ _ => .isTrue trivial

/-- No connection is between `accept` and `push_back`, and no handler between leaving its
loop and the end of its erase. -/
def Quiescent (s : State) : Prop :=
  (∀ c fd, s.listener ≠ .accepted c fd) ∧
    ∀ c h, s.handler c = some h → h.pc ≠ .leaving ∧ h.pc ≠ .closed

def Serving (s : State) (c : Nat) (fd : Fd) : Prop :=
  ∃ h, s.handler c = some h ∧ h.clientSocket = fd ∧ h.pc.running = true

/-- The list holds the number of each running handler once, and nothing else. -/
def ListsExactly (s : State) : Prop :=
  (∀ c fd, Serving s c fd → s.tcpClients.live.count fd = 1) ∧
    ∀ fd ∈ s.tcpClients.live, ∃ c, Serving s c fd

/-- An erase happens while no other running handler has the same number. -/
def ErasesOwn (s : State) : Action → Prop
  | .handler c .erase => ∀ h ∈ s.handler c, ∀ d < s.accepted, ∀ k ∈ s.handler d,
      k.pc.running = true → k.clientSocket ≠ h.clientSocket
  | _ => True

instance erasesOwnDecidable (s : State) (a : Action) : Decidable (ErasesOwn s a) :=
  match a with
  | .handler c .erase => inferInstanceAs (Decidable (∀ h ∈ s.handler c, ∀ d < s.accepted,
      ∀ k ∈ s.handler d, k.pc.running = true → k.clientSocket ≠ h.clientSocket))
  | .handler _ .test | .handler _ (.recv _) | .handler _ .recvFails | .handler _ .ack
  | .handler _ .beginBroadcast | .handler _ .relay | .handler _ .endBroadcast
  | .handler _ .close | .control _ | .listener _ => .isTrue trivial

/-- The list is the numbers of a roster of connections that have not ended. -/
structure Listed (s : State) (roster : List (Nat × Fd)) : Prop where
  numbers : s.tcpClients.live = roster.map Prod.snd
  distinct : (roster.map Prod.fst).Nodup
  present : ∀ c fd, (c, fd) ∈ roster →
    ∃ h, s.handler c = some h ∧ h.clientSocket = fd ∧ h.pc ≠ .ended
  complete : ∀ c fd, Serving s c fd → (c, fd) ∈ roster

/-- A handler that moves without ending keeps the roster, if it serves only as before. -/
theorem goto_listed {s : State} {roster : List (Nat × Fd)} {c : Nat} {h : Handler}
    {pc : HandlerPc} (listed : Listed s roster) (held : s.handler c = some h)
    (unended : pc ≠ .ended) (serves : pc.running = true → h.pc.running = true) :
    Listed (s.goto c h pc) roster where
  numbers := listed.numbers
  distinct := listed.distinct
  present := by
    intro d fd hd
    obtain ⟨k, hk, socket, alive⟩ := listed.present d fd hd
    by_cases same : d = c
    · subst d
      obtain rfl : h = k := Option.some.inj (held.symm.trans hk)
      exact ⟨_, handler_goto s c h pc, socket, unended⟩
    · exact ⟨k, (handler_goto_of_ne s h pc same).trans hk, socket, alive⟩
  complete := by
    rintro d fd ⟨k, hk, socket, running⟩
    by_cases same : d = c
    · subst d
      obtain rfl := Option.some.inj ((handler_goto s c h pc).symm.trans hk)
      exact listed.complete c fd ⟨h, held, socket, serves running⟩
    · have unmoved := (handler_goto_of_ne s h pc same).symm
      exact listed.complete d fd ⟨k, unmoved.trans hk, socket, running⟩

/-- An erase that meets no other running handler takes only connections that have left. -/
theorem erase_listed {s : State} {roster : List (Nat × Fd)} {c : Nat} {h : Handler}
    (listed : Listed s roster) (numbered : Numbered s) (held : s.handler c = some h)
    (own : ErasesOwn s (.handler c .erase)) :
    Listed { s.goto c h .ended with tcpClients := s.tcpClients.eraseRemove h.clientSocket }
      (roster.filter fun e => e.2 ≠ h.clientSocket) where
  numbers := by
    rw [SlotVector.live_eraseRemove, listed.numbers, List.filter_map]
    rfl
  distinct := listed.distinct.sublist (List.filter_sublist.map _)
  present := by
    intro d fd hd
    obtain ⟨mem, apart⟩ := List.mem_filter.mp hd
    obtain ⟨k, hk, socket, alive⟩ := listed.present d fd mem
    have other : d ≠ c := by
      rintro rfl
      obtain rfl : h = k := Option.some.inj (held.symm.trans hk)
      simp [socket] at apart
    exact ⟨k, (handler_goto_of_ne s h .ended other).trans hk, socket, alive⟩
  complete := by
    rintro d fd ⟨k, hk, socket, running⟩
    have other : d ≠ c := by
      rintro rfl
      obtain rfl := Option.some.inj ((handler_goto s d h .ended).symm.trans hk)
      cases running
    have before := (handler_goto_of_ne s h .ended other).symm.trans hk
    have apart := own h held d (numbered.born d k before) k before running
    rw [socket] at apart
    exact List.mem_filter.mpr ⟨listed.complete d fd ⟨k, before, socket, running⟩,
      decide_eq_true apart⟩

theorem adopt_listed {s : State} {roster : List (Nat × Fd)} {c : Nat} {fd : Fd}
    (listed : Listed s roster) (unheld : s.handler c = none) :
    Listed (s.adopt c fd) (roster ++ [(c, fd)]) := by
  have absent : ∀ x, (c, x) ∉ roster := by
    intro x hx
    obtain ⟨h, hh, _⟩ := listed.present c x hx
    rw [unheld] at hh
    cases hh
  have new : (s.adopt c fd).handler c = some ⟨fd, .loopTest⟩ := Function.update_self _ _ _
  have old : ∀ d, d ≠ c → (s.adopt c fd).handler d = s.handler d := fun d other =>
    Function.update_of_ne other _ _
  constructor
  · change (s.tcpClients.pushBack fd).live = _
    rw [SlotVector.live_pushBack, listed.numbers, List.map_append]
    rfl
  · rw [List.map_append, List.nodup_append]
    refine ⟨listed.distinct, List.nodup_singleton _, ?_⟩
    rintro d hd _ hc rfl
    obtain rfl : d = c := by simpa using hc
    obtain ⟨⟨_, x⟩, hx, rfl⟩ := List.mem_map.mp hd
    exact absent x hx
  · intro d x hd
    rcases List.mem_append.mp hd with earlier | last
    · obtain ⟨h, hh, socket, alive⟩ := listed.present d x earlier
      have other : d ≠ c := fun same => absent x (same ▸ earlier)
      exact ⟨h, (old d other).trans hh, socket, alive⟩
    · obtain ⟨rfl, rfl⟩ : d = c ∧ x = fd := by simpa using last
      exact ⟨_, new, rfl, by simp⟩
  · rintro d x ⟨h, hh, socket, running⟩
    by_cases same : d = c
    · subst d
      obtain rfl := Option.some.inj (new.symm.trans hh)
      subst socket
      exact List.mem_append_right _ List.mem_cons_self
    · exact List.mem_append_left _
        (listed.complete d x ⟨h, (old d same).symm.trans hh, socket, running⟩)

theorem handler_listed {s t : State} {roster : List (Nat × Fd)} {c : Nat} {a : HandlerAction}
    (listed : Listed s roster) (numbered : Numbered s) (own : ErasesOwn s (.handler c a))
    (moved : handlerStep s c a = some t) : ∃ after, Listed t after := by
  obtain ⟨h, held, effect⟩ := handlerStep_effect moved
  cases effect with
  | moves _ pc relays running alive sends fixed =>
    have unended : pc ≠ .ended := by
      rintro rfl
      cases alive
    have same := goto_listed listed held unended fun _ => running
    exact ⟨roster, same.numbers, same.distinct, same.present, same.complete⟩
  | closes leaving =>
    have closed : Listed (s.closeNumber h.clientSocket) roster :=
      ⟨listed.numbers, listed.distinct, listed.present, listed.complete⟩
    exact ⟨roster, goto_listed closed held (by simp) (by simp [HandlerPc.running])⟩
  | erases closed => exact ⟨_, erase_listed listed numbered held own⟩

theorem listener_listed {s t : State} {roster : List (Nat × Fd)} {a : ListenerAction}
    (listed : Listed s roster) (numbered : Numbered s) (moved : listenerStep s a = some t) :
    ∃ after, Listed t after := by
  cases listenerStep_effect moved with
  | moves _ pc present before after =>
    exact ⟨roster, listed.numbers, listed.distinct, listed.present, listed.complete⟩
  | accepts fd waiting free =>
    exact ⟨roster, listed.numbers, listed.distinct, listed.present, listed.complete⟩
  | adopts c fd waiting => exact ⟨_, adopt_listed listed (numbered.pending c fd waiting).2⟩

theorem step_listed (s : State) (a : Action) (t : State)
    (h : Orderly s ∧ ∃ roster, Listed s roster) (good : Traffic a ∧ ErasesOwn s a)
    (moved : step s a = some t) : Orderly t ∧ ∃ roster, Listed t roster := by
  obtain ⟨orderly, roster, listed⟩ := h
  cases a with
  | control a => exact absurd good.1 id
  | listener a =>
    exact ⟨step_orderly s (.listener a) t orderly trivial moved,
      listener_listed listed orderly.numbered moved⟩
  | handler c a =>
    exact ⟨step_orderly s (.handler c a) t orderly trivial moved,
      handler_listed listed orderly.numbered good.2 moved⟩

theorem launch_listed (fd : Fd) :
    Orderly (initial.launch fd) ∧ ∃ roster, Listed (initial.launch fd) roster := by
  refine ⟨step_orderly initial (.control (.start fd)) _ initial_orderly trivial rfl, [], ?_⟩
  constructor
  · rfl
  · exact List.nodup_nil
  · rintro c x ⟨⟩
  · rintro c x ⟨h, ⟨⟩, _⟩

/-- In a quiescent state every listed connection is running, and numbers tell them apart. -/
theorem quiescent_lists_exactly {s : State} {roster : List (Nat × Fd)} (owned : Owned s)
    (listed : Listed s roster) (quiet : Quiescent s) : ListsExactly s := by
  have serving : ∀ c fd, (c, fd) ∈ roster → Serving s c fd := by
    intro c fd hc
    obtain ⟨h, held, socket, unended⟩ := listed.present c fd hc
    obtain ⟨unleaving, unclosed⟩ := quiet.2 c h held
    refine ⟨h, held, socket, ?_⟩
    cases place : h.pc <;> simp_all [HandlerPc.running]
  have denotes : ∀ c fd, Serving s c fd → s.descriptors fd = some (.connection c) := by
    rintro c _ ⟨h, held, rfl, running⟩
    exact owned.held c _ (holder_of_alive held (HandlerPc.alive_of_running running))
  have once : s.tcpClients.live.Nodup := by
    rw [listed.numbers]
    refine (List.Nodup.of_map _ listed.distinct).map_on ?_
    rintro ⟨c, x⟩ hc ⟨d, y⟩ hd rfl
    have same := (denotes c x (serving c x hc)).symm.trans (denotes d x (serving d x hd))
    rw [Option.some.injEq, Target.connection.injEq] at same
    rw [same]
  constructor
  · intro c fd hc
    refine List.count_eq_one_of_mem once ?_
    rw [listed.numbers]
    exact List.mem_map_of_mem (listed.complete c fd hc)
  · intro fd hfd
    rw [listed.numbers] at hfd
    obtain ⟨⟨c, x⟩, hc, rfl⟩ := List.mem_map.mp hfd
    exact ⟨c, serving c x hc⟩

/-- While no erase meets another running handler with the same number, the list is exact in
every quiescent state of a started server. -/
theorem lists_exactly_when_erases_own {fd : Fd} {actions : List Action} {s : State}
    (path : run step (initial.launch fd) actions = some s)
    (traffic : ∀ a ∈ actions, Traffic a)
    (own : Along step ErasesOwn (initial.launch fd) actions) (quiet : Quiescent s) :
    ListsExactly s := by
  obtain ⟨orderly, roster, listed⟩ := run_invariant_along step_listed (launch_listed fd)
    (along_and_mem traffic own) path
  exact quiescent_lists_exactly orderly.owned listed quiet

/-- Two clients; the first leaves and its number goes to a third. -/
def reusedAfterErase : List Action :=
  [.listener .test, .listener (.accept 5), .listener .pushBack, .listener .test,
   .listener (.accept 6), .listener .pushBack, .handler 0 .test, .handler 0 .recvFails,
   .handler 0 .close, .handler 0 .erase, .listener .test, .listener (.accept 5),
   .listener .pushBack]

theorem lists_exactly_reused_after_erase :
    ∃ s, run step (initial.launch 3) reusedAfterErase = some s ∧ ListsExactly s := by
  obtain ⟨s, path⟩ : ∃ s, run step (initial.launch 3) reusedAfterErase = some s := ⟨_, rfl⟩
  refine ⟨s, path, lists_exactly_when_erases_own path (by decide) (by decide) ?_⟩
  cases path
  refine ⟨nofun, ?_⟩
  rintro (_ | _ | _ | c) h ⟨⟩ <;> decide

/-- The number is accepted and pushed again between the close and the erase. -/
def reusedBeforeErase : List Action :=
  [.listener .test, .listener (.accept 5), .listener .pushBack, .handler 0 .test,
   .handler 0 .recvFails, .handler 0 .close, .listener .test, .listener (.accept 5),
   .listener .pushBack, .handler 0 .erase]

theorem client_lost_when_reused_before_erase :
    ∃ s, run step (initial.launch 3) reusedBeforeErase = some s ∧
      (∀ a ∈ reusedBeforeErase, Traffic a) ∧ Quiescent s ∧ ¬ ListsExactly s := by
  refine ⟨_, rfl, by decide, ⟨nofun, ?_⟩, ?_⟩
  · rintro (_ | _ | c) h ⟨⟩ <;> decide
  · rintro ⟨once, _⟩
    have missing := once 1 5 ⟨_, rfl, rfl, rfl⟩
    revert missing
    decide

end ClientList
