import DxRt.Service.Endpoint

/-! What the service cleans up when a client leaves.

    `removeClient` tells the callback which process the client was bound to, and the service frees
    the memory and the tasks of that process. A client is bound to a process by every message it
    sends, and the maps remember only the client that was bound last. The clients that have bound a
    process are in the log of the bindings. -/

namespace DxRt.IPCServerEndpoint

variable {s t : IPCServerEndpoint} {pid pid' clientFd clientFd' : ℤ} {client client' : ℕ}

/-- `IPCPacketHandlerRegistry::onClientDisconnected`: the process that is cleaned up. -/
def onClientDisconnected (pid : ℤ) : Option ℤ := if 0 < pid then some pid else none

/-- What `removeClient` has cleaned up. -/
def cleanedUp (s : IPCServerEndpoint) (clientFd : ℤ) : Option ℤ :=
  if s.clients.contains clientFd then
    onClientDisconnected ((s.pidByClientFd.find? clientFd).getD 0)
  else none

/-- The client is connected, and has bound the process. -/
def HasBound (s : IPCServerEndpoint) (pid clientFd : ℤ) : Prop :=
  ∃ client, s.clients.find? clientFd = some client ∧ (pid, client) ∈ s.log

/-- No other connected client has bound the process. -/
def LastOf (s : IPCServerEndpoint) (pid clientFd : ℤ) : Prop :=
  s.HasBound pid clientFd ∧ ∀ clientFd', s.HasBound pid clientFd' → clientFd' = clientFd

inductive Event where
  | connect
  | bind (pid clientFd : ℤ)
  | disconnect (clientFd : ℤ)

/-- `none` when there is no such event. -/
def exec (s : IPCServerEndpoint) : Event → Option IPCServerEndpoint
  | .connect => s.acceptNewClient
  | .bind pid clientFd =>
    if s.clients.contains clientFd then some (s.bindPidToClient pid clientFd) else none
  | .disconnect clientFd => some (s.removeClient clientFd)

/-- A client binds one process only; and the client over which a process was heard last does not
    leave before the others of that process. -/
def Orderly (s : IPCServerEndpoint) : Event → Prop
  | .connect => True
  | .bind pid clientFd => 0 < pid → ∀ pid', s.HasBound pid' clientFd → pid' = pid
  | .disconnect clientFd => ∀ pid client, s.clients.find? clientFd = some client →
      s.lastBound pid = some client → ∀ clientFd', s.HasBound pid clientFd' → clientFd' = clientFd

def OrderlyStep (s t : IPCServerEndpoint) : Prop := ∃ e, s.Orderly e ∧ s.exec e = some t

/-! ### The client that was heard last -/

/-- Only positive numbers are bound, by clients that have been accepted; each client has bound one
    process, and a process that a connected client has bound has one in the maps. -/
structure Heard (s : IPCServerEndpoint) : Prop where
  inv : Inv s
  positive : ∀ pid client, (pid, client) ∈ s.log → 0 < pid ∧ client < s.accepted
  single : ∀ pid pid' client, (pid, client) ∈ s.log → (pid', client) ∈ s.log → pid = pid'
  kept : ∀ pid clientFd, s.HasBound pid clientFd →
    ∃ clientFd', s.pidByClientFd.find? clientFd' = some pid

theorem heard_init : Heard init where
  inv := inv_init
  positive _ _ h := nomatch h
  single _ _ _ h := nomatch h
  kept := by
    rintro pid clientFd ⟨client, hfind, -⟩
    simp [init] at hfind

theorem mem_log_of_lastBound (h : s.lastBound pid = some client) : (pid, client) ∈ s.log := by
  obtain ⟨⟨pid', client'⟩, hfind, rfl⟩ := Option.map_eq_some_iff.mp h
  have hpid : pid' = pid := by simpa using List.find?_some hfind
  exact hpid ▸ List.mem_of_find?_eq_some hfind

/-- A client that is bound has bound its process. -/
theorem Heard.hasBound (hs : Heard s) (h : s.pidByClientFd.find? clientFd = some pid) :
    s.HasBound pid clientFd := by
  obtain ⟨client, hfind, hlast⟩ := hs.inv.connected _ _ h
  exact ⟨client, hfind, mem_log_of_lastBound hlast⟩

theorem heard_acceptNewClient (hs : Heard s) (h : s.acceptNewClient = some t) : Heard t := by
  obtain ⟨hpid, -, hlog, -, haccepted, hclients⟩ := acceptNewClient_cases h
  refine ⟨inv_acceptNewClient hs.inv h, fun pid client hmem => ?_, ?_, ?_⟩
  · rw [hlog] at hmem
    rw [haccepted]
    exact ⟨(hs.positive _ _ hmem).1, Nat.lt_succ_of_lt (hs.positive _ _ hmem).2⟩
  · rw [hlog]
    exact hs.single
  · rintro pid clientFd ⟨client, hfind, hmem⟩
    rw [hlog] at hmem
    rw [hpid]
    rcases hclients with hc | hc
    · exact hs.kept pid clientFd ⟨client, hc ▸ hfind, hmem⟩
    · rw [hc, SortedMap.find?_insert] at hfind
      split_ifs at hfind with hnew
      · -- the new client has not bound anything
        have hlt := (hs.positive _ _ hmem).2
        rw [← Option.some.inj hfind] at hlt
        exact absurd hlt (lt_irrefl _)
      · exact hs.kept pid clientFd ⟨client, hfind, hmem⟩

theorem heard_bindPidToClient (hs : Heard s) (hok : s.Orderly (.bind pid clientFd))
    (hconnected : s.clients.contains clientFd = true) :
    Heard (s.bindPidToClient pid clientFd) := by
  by_cases hvalid : pid ≤ 0 ∨ clientFd < 0
  · rwa [bindPidToClient, if_pos hvalid]
  obtain ⟨hpid, hfd⟩ : 0 < pid ∧ 0 ≤ clientFd := by omega
  obtain ⟨client, hclient⟩ := (SortedMap.contains_iff _ _).mp hconnected
  have hclients : (s.bindPidToClient pid clientFd).clients = s.clients := by
    rw [bindPidToClient, if_neg hvalid]
  have haccepted : (s.bindPidToClient pid clientFd).accepted = s.accepted := by
    rw [bindPidToClient, if_neg hvalid]
  have hlog : (s.bindPidToClient pid clientFd).log = (pid, client) :: s.log := by
    rw [bindPidToClient, if_neg hvalid]
    simp only [hclient]
  have hone : ∀ pid', (pid', client) ∈ s.log → pid' = pid := fun pid' hmem =>
    hok hpid pid' ⟨client, hclient, hmem⟩
  refine ⟨inv_bindPidToClient hs.inv hconnected, fun pid' client' hmem => ?_,
    fun pid₁ pid₂ client' hmem hmem' => ?_, ?_⟩
  · rw [hlog] at hmem
    rw [haccepted]
    rcases List.mem_cons.mp hmem with heq | hold
    · obtain ⟨rfl, rfl⟩ := Prod.mk.inj heq
      exact ⟨hpid, (hs.inv.below _ _ hclient).2⟩
    · exact hs.positive _ _ hold
  · rw [hlog] at hmem hmem'
    rcases List.mem_cons.mp hmem with heq | hold <;>
      rcases List.mem_cons.mp hmem' with heq' | hold'
    · exact (Prod.mk.inj heq).1.trans (Prod.mk.inj heq').1.symm
    · obtain ⟨rfl, rfl⟩ := Prod.mk.inj heq
      exact (hone _ hold').symm
    · obtain ⟨rfl, rfl⟩ := Prod.mk.inj heq'
      exact hone _ hold
    · exact hs.single _ _ _ hold hold'
  · rintro pid' fd' ⟨client', hfind, hmem⟩
    rw [hclients] at hfind
    rw [hlog] at hmem
    by_cases hsame : pid' = pid
    · refine ⟨clientFd, ?_⟩
      rw [(find?_bindPidToClient hs.inv hpid hfd pid' clientFd).1, if_pos rfl, hsame]
    · have hold : (pid', client') ∈ s.log := by
        rcases List.mem_cons.mp hmem with heq | hold
        · exact absurd (Prod.mk.inj heq).1 hsame
        · exact hold
      obtain ⟨fd₀, hbound⟩ := hs.kept pid' fd' ⟨client', hfind, hold⟩
      refine ⟨fd₀, ?_⟩
      -- it is another client, since this one has bound no other process
      have hother : fd₀ ≠ clientFd := by
        rintro rfl
        exact hsame (hok hpid pid' (hs.hasBound hbound))
      rw [(find?_bindPidToClient hs.inv hpid hfd pid' fd₀).1, if_neg hother, if_neg, hbound]
      rw [hbound]
      exact fun heq => hsame (Option.some.inj heq)

/-- What `removeClient` leaves. -/
theorem removeClient_fields (s : IPCServerEndpoint) (clientFd : ℤ) :
    (s.removeClient clientFd).log = s.log ∧
    (s.removeClient clientFd).accepted = s.accepted ∧
    (s.removeClient clientFd).clients = s.clients.erase clientFd ∧
    ∀ fd, fd ≠ clientFd →
      (s.removeClient clientFd).pidByClientFd.find? fd = s.pidByClientFd.find? fd := by
  rw [removeClient]
  split_ifs with hc
  · rw [unbindClient]
    cases s.pidByClientFd.find? clientFd with
    | none => exact ⟨rfl, rfl, rfl, fun _ _ => rfl⟩
    | some pid => exact ⟨rfl, rfl, rfl, fun fd hfd => by rw [SortedMap.find?_erase, if_neg hfd]⟩
  · have hnone : s.clients.find? clientFd = none := by
      simpa [SortedMap.contains] using hc
    exact ⟨rfl, rfl, (SortedMap.erase_of_find?_none hnone).symm, fun _ _ => rfl⟩

theorem heard_removeClient (hs : Heard s) (hok : s.Orderly (.disconnect clientFd)) :
    Heard (s.removeClient clientFd) := by
  obtain ⟨hlog, haccepted, hclients, hmap⟩ := removeClient_fields s clientFd
  refine ⟨inv_removeClient hs.inv, ?_, ?_, ?_⟩
  · rw [hlog, haccepted]
    exact hs.positive
  · rw [hlog]
    exact hs.single
  · rintro pid fd ⟨client, hfind, hmem⟩
    rw [hclients, SortedMap.find?_erase] at hfind
    rw [hlog] at hmem
    split_ifs at hfind with hfd
    obtain ⟨fd₀, hbound⟩ := hs.kept pid fd ⟨client, hfind, hmem⟩
    have hother : fd₀ ≠ clientFd := by
      rintro rfl
      obtain ⟨client₀, hclient₀, hlast⟩ := hs.inv.connected _ _ hbound
      exact hfd (hok pid client₀ hclient₀ hlast fd ⟨client, hfind, hmem⟩)
    exact ⟨fd₀, (hmap fd₀ hother).trans hbound⟩

theorem heard_step (h : OrderlyStep s t) (hs : Heard s) : Heard t := by
  obtain ⟨e, hok, hexec⟩ := h
  cases e with
  | connect => exact heard_acceptNewClient hs hexec
  | bind pid clientFd =>
    simp only [exec] at hexec
    split_ifs at hexec with hconnected
    obtain rfl := Option.some.inj hexec
    exact heard_bindPidToClient hs hok hconnected
  | disconnect clientFd =>
    obtain rfl := Option.some.inj hexec
    exact heard_removeClient hs hok

/-! ### Cleaning up -/

theorem Heard.cleanedUp_iff (hs : Heard s) :
    s.cleanedUp clientFd = some pid ↔ s.pidByClientFd.find? clientFd = some pid := by
  rw [cleanedUp]
  constructor
  · intro h
    split_ifs at h
    cases hfind : s.pidByClientFd.find? clientFd with
    | none => simp [hfind, onClientDisconnected] at h
    | some pid' =>
      rw [hfind, Option.getD_some, onClientDisconnected] at h
      split_ifs at h
      exact h
  · intro h
    obtain ⟨client, hfind, hlast⟩ := hs.inv.connected _ _ h
    rw [if_pos ((SortedMap.contains_iff _ _).mpr ⟨client, hfind⟩), h, Option.getD_some,
      onClientDisconnected, if_pos (hs.positive _ _ (mem_log_of_lastBound hlast)).1]

/-- In every run in which a client binds one process, and the client over which a process was heard
    last does not leave before the others, a process is cleaned up when the last of its clients
    leaves, and at no other time. -/
theorem cleaned_up_when_departed (hrun : Relation.ReflTransGen OrderlyStep init s)
    (hok : s.Orderly (.disconnect clientFd)) (pid : ℤ) :
    s.cleanedUp clientFd = some pid ↔ s.LastOf pid clientFd := by
  have hs : Heard s := Run.invariant (fun _ _ hstep hs => heard_step hstep hs) hrun heard_init
  rw [hs.cleanedUp_iff]
  constructor
  · intro hbound
    obtain ⟨client, hfind, hlast⟩ := hs.inv.connected _ _ hbound
    exact ⟨hs.hasBound hbound, hok pid client hfind hlast⟩
  · rintro ⟨hbound, honly⟩
    obtain ⟨fd₀, hfd₀⟩ := hs.kept pid clientFd hbound
    rwa [← honly fd₀ (hs.hasBound hfd₀)]

/-- Two clients of the process 7, after the messages of both. -/
def twoClients : IPCServerEndpoint :=
  (((init.acceptNewClient.getD init).acceptNewClient.getD init).bindPidToClient 7 1).bindPidToClient
    7 2

theorem run_twoClients : Relation.ReflTransGen OrderlyStep init twoClients := by
  have hbind : (init.acceptNewClient.getD init).acceptNewClient.getD init |>.Orderly (.bind 7 1) := by
    rintro - pid' ⟨client, -, hmem⟩
    exact nomatch hmem
  have hbind' : ((init.acceptNewClient.getD init).acceptNewClient.getD init).bindPidToClient 7 1
      |>.Orderly (.bind 7 2) := by
    rintro - pid' ⟨client, hfind, hmem⟩
    have hclient : client = 1 := (Option.some.inj hfind).symm
    have hlog : (pid', client) ∈ [((7 : ℤ), 0)] := hmem
    rw [hclient] at hlog
    simp at hlog
  exact .tail (.tail (.tail (.tail .refl ⟨.connect, trivial, rfl⟩) ⟨.connect, trivial, rfl⟩)
    ⟨.bind 7 1, hbind, rfl⟩) ⟨.bind 7 2, hbind', rfl⟩

/-- The client that was heard first leaves; then the process is cleaned up when the other leaves. -/
theorem cleaned_up_when_departed_old_first :
    ∃ s, Relation.ReflTransGen OrderlyStep init s ∧ s.HasBound 7 2 ∧ s.cleanedUp 2 = some 7 ∧
      s.LastOf 7 2 := by
  have hleave : twoClients.Orderly (.disconnect 1) := by
    intro pid client hfind hlast
    have hclient : client = 0 := (Option.some.inj hfind).symm
    have hpid : pid = 7 := by
      obtain ⟨b, hmem, -⟩ := Option.map_eq_some_iff.mp hlast
      have heq : b.1 = pid := by simpa using List.find?_some hmem
      have hlog : b ∈ [((7 : ℤ), 1), (7, 0)] := List.mem_of_find?_eq_some hmem
      fin_cases hlog <;> exact heq.symm
    rw [hclient, hpid] at hlast
    exact absurd hlast (by decide)
  have hrun := Relation.ReflTransGen.tail run_twoClients ⟨.disconnect 1, hleave, rfl⟩
  have hnow : (twoClients.removeClient 1).Orderly (.disconnect 2) := by
    rintro pid client - - fd ⟨client', hfind, -⟩
    have hclients : (twoClients.removeClient 1).clients = SortedMap.empty.insert 2 1 := rfl
    rw [hclients, SortedMap.find?_insert, SortedMap.find?_empty] at hfind
    split_ifs at hfind with hfd
    exact hfd
  have hcleaned : (twoClients.removeClient 1).cleanedUp 2 = some 7 := by decide
  have hlast := (cleaned_up_when_departed hrun hnow 7).mp hcleaned
  exact ⟨_, hrun, hlast.1, hcleaned, hlast⟩

/-- The client that was heard last leaves first: the process is cleaned up while its other client
    is connected, and not when that one leaves. -/
theorem cleaned_up_while_connected : ∃ s, Relation.ReflTransGen (fun s t => ∃ e, exec s e = some t)
      init s ∧ s.cleanedUp 2 = some 7 ∧ s.HasBound 7 1 ∧ ¬ s.LastOf 7 2 ∧
      (s.removeClient 2).LastOf 7 1 ∧ (s.removeClient 2).cleanedUp 1 = none := by
  have hrun : Relation.ReflTransGen (fun s t => ∃ e, exec s e = some t) init twoClients :=
    .tail (.tail (.tail (.tail .refl ⟨.connect, rfl⟩) ⟨.connect, rfl⟩) ⟨.bind 7 1, rfl⟩)
      ⟨.bind 7 2, rfl⟩
  have hfirst : twoClients.HasBound 7 1 := ⟨0, by decide, by decide⟩
  refine ⟨twoClients, hrun, by decide, hfirst, ?_, ?_, by decide⟩
  · intro hlast
    exact absurd (hlast.2 1 hfirst) (by decide)
  · refine ⟨⟨0, by decide, by decide⟩, ?_⟩
    rintro fd ⟨client, hfind, -⟩
    have hclients : (twoClients.removeClient 2).clients = SortedMap.empty.insert 1 0 := rfl
    rw [hclients, SortedMap.find?_insert, SortedMap.find?_empty] at hfind
    split_ifs at hfind with hfd
    exact hfd

end DxRt.IPCServerEndpoint
