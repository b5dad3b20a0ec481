import DxRt.Lib.Run
import DxRt.Lib.SortedMap

/-! lib/dynamic_ipc/transport/ipc_server_endpoint.cpp: clients, and which process each of them is.

    A client has a number, which `allocateClientFd` counts up and `stop` starts anew, so the number of
    a client that has left may come back. Its process is bound to it with each message it sends. Both
    directions of that binding are kept in a map of their own. A client is represented by the socket
    that `accept` returned, which is a new one each time; every operation holds `_clientsMutex` while
    it looks at the maps. -/

namespace DxRt

structure IPCServerEndpoint where
  clients : SortedMap ℤ ℕ
  pidByClientFd : SortedMap ℤ ℤ
  clientFdByPid : SortedMap ℤ ℤ
  nextClientId : ℤ
  /-- How many sockets have been accepted. -/
  accepted : ℕ
  /-- The bindings made so far, latest first: the process and the socket of the client. -/
  log : List (ℤ × ℕ)

namespace IPCServerEndpoint

def init : IPCServerEndpoint := ⟨.empty, .empty, .empty, 1, 0, []⟩

/-! ### Operations -/

/-- `acceptNewClient`; a counter of clients at the end of its range has no next value. -/
def acceptNewClient (s : IPCServerEndpoint) : Option IPCServerEndpoint :=
  if s.nextClientId = 2 ^ 31 - 1 then none
  else
    let clientFd := s.nextClientId
    let s := { s with nextClientId := s.nextClientId + 1, accepted := s.accepted + 1 }
    if clientFd < 0 then some s
    else some { s with clients := s.clients.insert clientFd (s.accepted - 1) }

/-- `if (it != end() && it->second != key) erase(it->second)`. -/
def eraseOther (m : SortedMap ℤ ℤ) (old : Option ℤ) (key : ℤ) : SortedMap ℤ ℤ :=
  match old with
  | some k => if k ≠ key then m.erase k else m
  | none => m

def bindPidToClient (s : IPCServerEndpoint) (pid clientFd : ℤ) : IPCServerEndpoint :=
  if pid ≤ 0 ∨ clientFd < 0 then s
  else
    let pidByClientFd := eraseOther s.pidByClientFd (s.clientFdByPid.find? pid) clientFd
    let clientFdByPid := eraseOther s.clientFdByPid (pidByClientFd.find? clientFd) pid
    { s with
      pidByClientFd := pidByClientFd.insert clientFd pid
      clientFdByPid := clientFdByPid.insert pid clientFd
      log := match s.clients.find? clientFd with
        | some client => (pid, client) :: s.log
        | none => s.log }

def unbindClient (s : IPCServerEndpoint) (clientFd : ℤ) : IPCServerEndpoint :=
  match s.pidByClientFd.find? clientFd with
  | none => s
  | some pid =>
    { s with
      clientFdByPid := s.clientFdByPid.erase pid
      pidByClientFd := s.pidByClientFd.erase clientFd }

def removeClient (s : IPCServerEndpoint) (clientFd : ℤ) : IPCServerEndpoint :=
  if s.clients.contains clientFd then
    { s with clients := s.clients.erase clientFd }.unbindClient clientFd
  else s

def stop (s : IPCServerEndpoint) : IPCServerEndpoint :=
  { s with
    clients := .empty
    pidByClientFd := .empty
    clientFdByPid := .empty
    nextClientId := 1 }

/-- The client that `sendToPid` hands the message to; `none` is `ENOENT`. -/
def sendToPid (s : IPCServerEndpoint) (pid : ℤ) : Option ℕ :=
  match s.clientFdByPid.find? pid with
  | none => none
  | some clientFd => s.clients.find? clientFd

/-! ### Runs -/

/-- The operations; a process is bound to a client that is connected. -/
inductive Step : IPCServerEndpoint → IPCServerEndpoint → Prop
  | acceptNewClient {s t : IPCServerEndpoint} (h : s.acceptNewClient = some t) : Step s t
  | bindPidToClient {s : IPCServerEndpoint} (pid clientFd : ℤ)
      (hconnected : s.clients.contains clientFd = true) : Step s (s.bindPidToClient pid clientFd)
  | unbindClient {s : IPCServerEndpoint} (clientFd : ℤ) : Step s (s.unbindClient clientFd)
  | removeClient {s : IPCServerEndpoint} (clientFd : ℤ) : Step s (s.removeClient clientFd)
  | sendToPid {s : IPCServerEndpoint} (pid : ℤ) {client : Option ℕ}
      (h : s.sendToPid pid = client) : Step s s
  | stop {s : IPCServerEndpoint} : Step s s.stop

def Reachable (s : IPCServerEndpoint) : Prop := Relation.ReflTransGen Step init s

/-- The client that was bound to the process last. -/
def lastBound (s : IPCServerEndpoint) (pid : ℤ) : Option ℕ :=
  (s.log.find? fun bind => decide (bind.1 = pid)).map Prod.snd

/-- The client is connected, and bound to the process. -/
def Bound (s : IPCServerEndpoint) (pid : ℤ) (client : ℕ) : Prop :=
  ∃ clientFd, s.clients.find? clientFd = some client ∧ s.pidByClientFd.find? clientFd = some pid

/-! ### The two maps -/

variable {s t : IPCServerEndpoint} {pid clientFd : ℤ} {client : ℕ}

/-- Every client is a socket of its own, with a number below the counter. The maps are inverse to each
    other, and a bound client is connected and is the last that its process was bound to. -/
structure Inv (s : IPCServerEndpoint) : Prop where
  inverse : ∀ pid clientFd, s.clientFdByPid.find? pid = some clientFd ↔
    s.pidByClientFd.find? clientFd = some pid
  connected : ∀ clientFd pid, s.pidByClientFd.find? clientFd = some pid →
    ∃ client, s.clients.find? clientFd = some client ∧ s.lastBound pid = some client
  below : ∀ clientFd client, s.clients.find? clientFd = some client →
    clientFd < s.nextClientId ∧ client < s.accepted
  single : ∀ clientFd clientFd' client, s.clients.find? clientFd = some client →
    s.clients.find? clientFd' = some client → clientFd = clientFd'

theorem inv_init : Inv init := by
  refine ⟨fun pid clientFd => ?_, ?_, ?_, ?_⟩
  · simp [init]
  · intro clientFd pid h
    simp [init] at h
  · intro clientFd client h
    simp [init] at h
  · intro clientFd clientFd' client h
    simp [init] at h

/-- After an accepted connection: one client more, under a number that no client has. -/
theorem acceptNewClient_cases (h : s.acceptNewClient = some t) :
    t.pidByClientFd = s.pidByClientFd ∧ t.clientFdByPid = s.clientFdByPid ∧ t.log = s.log ∧
      t.nextClientId = s.nextClientId + 1 ∧ t.accepted = s.accepted + 1 ∧
      (t.clients = s.clients ∨ t.clients = s.clients.insert s.nextClientId s.accepted) := by
  simp only [acceptNewClient] at h
  split_ifs at h with hfull hneg
  · obtain rfl := Option.some.inj h
    exact ⟨rfl, rfl, rfl, rfl, rfl, Or.inl rfl⟩
  · obtain rfl := Option.some.inj h
    exact ⟨rfl, rfl, rfl, rfl, rfl, Or.inr rfl⟩

theorem inv_acceptNewClient (hs : Inv s) (h : s.acceptNewClient = some t) : Inv t := by
  obtain ⟨hpid, hfd, hlog, hnext, haccepted, hclients⟩ := acceptNewClient_cases h
  -- the new number is not yet in use
  have hkept : ∀ clientFd client, s.clients.find? clientFd = some client →
      t.clients.find? clientFd = some client := by
    intro clientFd client hfind
    rcases hclients with hc | hc
    · rw [hc, hfind]
    · rw [hc, SortedMap.find?_insert, if_neg (by have := (hs.below _ _ hfind).1; omega), hfind]
  have hfrom : ∀ clientFd client, t.clients.find? clientFd = some client →
      s.clients.find? clientFd = some client ∨
        clientFd = s.nextClientId ∧ client = s.accepted := by
    intro clientFd client hfind
    rcases hclients with hc | hc
    · exact Or.inl (hc ▸ hfind)
    · rw [hc, SortedMap.find?_insert] at hfind
      split_ifs at hfind with hfd'
      · exact Or.inr ⟨hfd', (Option.some.inj hfind).symm⟩
      · exact Or.inl hfind
  refine ⟨?_, ?_, ?_, ?_⟩
  · rw [hpid, hfd]
    exact hs.inverse
  · intro clientFd pid hbound
    obtain ⟨client, hfind, hlast⟩ := hs.connected clientFd pid (hpid ▸ hbound)
    exact ⟨client, hkept _ _ hfind, by rw [lastBound, hlog]; exact hlast⟩
  · intro clientFd client hfind
    rcases hfrom _ _ hfind with hold | ⟨rfl, rfl⟩
    · have := hs.below _ _ hold
      omega
    · omega
  · intro clientFd clientFd' client hfind hfind'
    rcases hfrom _ _ hfind with hold | ⟨hfd, rfl⟩ <;>
      rcases hfrom _ _ hfind' with hold' | ⟨hfd', hclient⟩
    · exact hs.single _ _ _ hold hold'
    · exact absurd (hs.below _ _ hold).2 (hclient ▸ lt_irrefl _)
    · exact absurd (hs.below _ _ hold').2 (lt_irrefl _)
    · exact hfd.trans hfd'.symm

/-- Taking out a client and its process on both sides. -/
theorem inv_unbindClient (hs : Inv s) : Inv (s.unbindClient clientFd) := by
  rw [unbindClient]
  cases hfind : s.pidByClientFd.find? clientFd with
  | none => exact hs
  | some pid =>
    refine ⟨fun pid' clientFd' => ?_, fun clientFd' pid' hbound => ?_, hs.below, hs.single⟩
    · simp only [SortedMap.find?_erase]
      have hpid := hs.inverse pid clientFd
      have hboth := hs.inverse pid' clientFd'
      constructor
      · intro h
        split_ifs at h with hpid'
        have hb := hboth.mp h
        rw [if_neg, hb]
        rintro rfl
        exact hpid' (Option.some.inj (hb.symm.trans hfind))
      · intro h
        split_ifs at h with hfd'
        have hb := hboth.mpr h
        rw [if_neg, hb]
        rintro rfl
        exact hfd' (Option.some.inj (hb.symm.trans (hpid.mpr hfind)))
    · simp only [SortedMap.find?_erase] at hbound
      split_ifs at hbound
      exact hs.connected _ _ hbound

/-- What stays of an invariant when a client without a process leaves. -/
theorem inv_removeClient (hs : Inv s) : Inv (s.removeClient clientFd) := by
  rw [removeClient]
  split_ifs with hclient
  · have hunbound : Inv (s.unbindClient clientFd) := inv_unbindClient hs
    have hnone : (s.unbindClient clientFd).pidByClientFd.find? clientFd = none := by
      rw [unbindClient]
      cases hfind : s.pidByClientFd.find? clientFd with
      | none => exact hfind
      | some pid => rw [SortedMap.find?_erase, if_pos rfl]
    have heq : { s with clients := s.clients.erase clientFd }.unbindClient clientFd =
        { s.unbindClient clientFd with clients := s.clients.erase clientFd } := by
      simp only [unbindClient]
      cases s.pidByClientFd.find? clientFd <;> rfl
    have hclients : (s.unbindClient clientFd).clients = s.clients := by
      simp only [unbindClient]
      cases s.pidByClientFd.find? clientFd <;> rfl
    have hfrom : ∀ fd client, (s.clients.erase clientFd).find? fd = some client →
        (s.unbindClient clientFd).clients.find? fd = some client := by
      intro fd client hfind
      rw [SortedMap.find?_erase] at hfind
      split_ifs at hfind
      rw [hclients, hfind]
    rw [heq]
    refine ⟨hunbound.inverse, fun clientFd' pid hbound => ?_,
      fun fd client hfind => hunbound.below fd client (hfrom fd client hfind),
      fun fd fd' client hfind hfind' =>
        hunbound.single fd fd' client (hfrom fd client hfind) (hfrom fd' client hfind')⟩
    obtain ⟨client, hfind, hlast⟩ := hunbound.connected clientFd' pid hbound
    refine ⟨client, ?_, hlast⟩
    have hne : clientFd' ≠ clientFd := by
      rintro rfl
      exact Option.some_ne_none _ (hbound.symm.trans hnone)
    rw [hclients] at hfind
    rw [SortedMap.find?_erase, if_neg hne, hfind]
  · exact hs

theorem find?_eraseOther (m : SortedMap ℤ ℤ) (old : Option ℤ) (key k : ℤ) :
    (eraseOther m old key).find? k = if old = some k ∧ k ≠ key then none else m.find? k := by
  cases old with
  | none => simp [eraseOther]
  | some k' =>
    simp only [eraseOther, Option.some.injEq]
    by_cases hkey : k' = key
    · rw [if_neg (not_not.mpr hkey), if_neg]
      rintro ⟨rfl, hne⟩
      exact hne hkey
    · rw [if_pos hkey, SortedMap.find?_erase]
      refine if_congr ⟨fun h => ⟨h.symm, h ▸ hkey⟩, fun h => h.1.symm⟩ rfl rfl

/-- The maps after a binding: the process has this client and no other, the client this process. -/
theorem find?_bindPidToClient (hs : Inv s) (hpid : 0 < pid) (hfd : 0 ≤ clientFd) (pid' fd' : ℤ) :
    (s.bindPidToClient pid clientFd).pidByClientFd.find? fd' =
        (if fd' = clientFd then some pid
          else if s.pidByClientFd.find? fd' = some pid then none else s.pidByClientFd.find? fd') ∧
      (s.bindPidToClient pid clientFd).clientFdByPid.find? pid' =
        (if pid' = pid then some clientFd
          else if s.clientFdByPid.find? pid' = some clientFd then none
          else s.clientFdByPid.find? pid') := by
  rw [bindPidToClient, if_neg (by omega)]
  simp only [SortedMap.find?_insert, find?_eraseOther, ne_eq, not_true_eq_false, and_false,
    if_false]
  constructor
  · split_ifs with hclient hold hbound hbound
    · rfl
    · rfl
    · exact absurd ((hs.inverse _ _).mp hold.1) hbound
    · exact absurd ⟨(hs.inverse _ _).mpr hbound, hclient⟩ hold
    · rfl
  · split_ifs with hsame hold hbound hbound
    · rfl
    · rfl
    · exact absurd ((hs.inverse _ _).mpr hold.1) hbound
    · exact absurd ⟨(hs.inverse _ _).mp hbound, hsame⟩ hold
    · rfl

theorem lastBound_bindPidToClient (hpid : 0 < pid) (hfd : 0 ≤ clientFd)
    (hclient : s.clients.find? clientFd = some client) (pid' : ℤ) :
    (s.bindPidToClient pid clientFd).lastBound pid' =
      if pid' = pid then some client else s.lastBound pid' := by
  rw [bindPidToClient, if_neg (by omega)]
  simp only [lastBound, hclient, List.find?_cons]
  by_cases h : pid' = pid
  · simp [h]
  · rw [if_neg h, decide_eq_false (Ne.symm h)]

theorem inv_bindPidToClient (hs : Inv s) (hconnected : s.clients.contains clientFd = true) :
    Inv (s.bindPidToClient pid clientFd) := by
  by_cases hvalid : pid ≤ 0 ∨ clientFd < 0
  · rwa [bindPidToClient, if_pos hvalid]
  · obtain ⟨hpid, hfd⟩ : 0 < pid ∧ 0 ≤ clientFd := by omega
    obtain ⟨client, hclient⟩ := (SortedMap.contains_iff _ _).mp hconnected
    have hclients : (s.bindPidToClient pid clientFd).clients = s.clients := by
      rw [bindPidToClient, if_neg hvalid]
    have hbelow : (s.bindPidToClient pid clientFd).nextClientId = s.nextClientId ∧
        (s.bindPidToClient pid clientFd).accepted = s.accepted := by
      rw [bindPidToClient, if_neg hvalid]
      exact ⟨rfl, rfl⟩
    refine ⟨fun pid' fd' => ?_, fun fd' pid' hbound => ?_, ?_, ?_⟩
    · rw [(find?_bindPidToClient hs hpid hfd pid' fd').1,
        (find?_bindPidToClient hs hpid hfd pid' fd').2]
      have hold := hs.inverse pid' fd'
      have hpid' := hs.inverse pid fd'
      have hfd' := hs.inverse pid' clientFd
      by_cases h₁ : pid' = pid <;> by_cases h₂ : fd' = clientFd
      · simp [h₁, h₂]
      · simp only [h₁, h₂, if_true, if_false, Option.some.injEq]
        refine iff_of_false (Ne.symm h₂) ?_
        split_ifs with hb
        · exact not_false
        · exact hb
      · simp only [h₁, h₂, if_true, if_false, Option.some.injEq]
        refine iff_of_false ?_ (Ne.symm h₁)
        split_ifs with hb
        · exact not_false
        · exact hb
      · rw [if_neg h₁, if_neg h₂]
        constructor
        · intro h
          split_ifs at h with hb
          have hmap := hold.mp h
          rw [if_neg, hmap]
          rw [hmap]
          exact fun heq => h₁ (Option.some.inj heq)
        · intro h
          split_ifs at h with hb
          have hmap := hold.mpr h
          rw [if_neg, hmap]
          rw [hmap]
          exact fun heq => h₂ (Option.some.inj heq)
    · rw [hclients, lastBound_bindPidToClient hpid hfd hclient]
      rw [(find?_bindPidToClient hs hpid hfd pid' fd').1] at hbound
      split_ifs at hbound with h₁ h₂
      · obtain rfl := Option.some.inj hbound
        exact ⟨client, h₁ ▸ hclient, if_pos rfl⟩
      · have hother : pid' ≠ pid := by
          rintro rfl
          exact h₂ hbound
        rw [if_neg hother]
        exact hs.connected _ _ hbound
    · rw [hclients, hbelow.1, hbelow.2]
      exact hs.below
    · rw [hclients]
      exact hs.single

theorem inv_stop (s : IPCServerEndpoint) : Inv s.stop := by
  refine ⟨fun pid clientFd => ?_, ?_, ?_, ?_⟩
  · simp [stop]
  · intro clientFd pid h
    simp [stop] at h
  · intro clientFd client h
    simp [stop] at h
  · intro clientFd clientFd' client h
    simp [stop] at h

theorem inv_step (h : Step s t) (hs : Inv s) : Inv t := by
  cases h with
  | acceptNewClient h => exact inv_acceptNewClient hs h
  | bindPidToClient pid clientFd hconnected => exact inv_bindPidToClient hs hconnected
  | unbindClient clientFd => exact inv_unbindClient hs
  | removeClient clientFd => exact inv_removeClient hs
  | sendToPid pid h => exact hs
  | stop => exact inv_stop s

theorem inv_reachable (h : Reachable s) : Inv s :=
  Run.invariant (fun _ _ hstep hs => inv_step hstep hs) h inv_init

/-! ### Delivery -/

/-- A message for a process goes to the client that the process has in the maps. -/
theorem sendToPid_eq_some (hs : Inv s) :
    s.sendToPid pid = some client ↔ s.Bound pid client := by
  rw [sendToPid]
  constructor
  · intro h
    cases hfind : s.clientFdByPid.find? pid with
    | none => simp [hfind] at h
    | some clientFd =>
      rw [hfind] at h
      exact ⟨clientFd, h, (hs.inverse _ _).mp hfind⟩
  · rintro ⟨clientFd, hclient, hbound⟩
    rw [(hs.inverse _ _).mpr hbound]
    exact hclient

theorem lastBound_of_bound (hs : Inv s) (h : s.Bound pid client) :
    s.lastBound pid = some client := by
  obtain ⟨clientFd, hclient, hbound⟩ := h
  obtain ⟨client', hclient', hlast⟩ := hs.connected _ _ hbound
  rw [hlast, ← hclient', hclient]

/-- The maps stay inverse to each other, every bound number is a connected client, and a message for
    a process reaches exactly the client that was bound to it last, if that client is still connected
    and bound to it; so it never reaches a client that is bound to another process. -/
theorem pid_maps_inverse (hrun : Reachable s) :
    (∀ pid clientFd, s.clientFdByPid.find? pid = some clientFd ↔
        s.pidByClientFd.find? clientFd = some pid) ∧
      (∀ clientFd pid, s.pidByClientFd.find? clientFd = some pid →
        s.clients.contains clientFd = true) ∧
      (∀ pid client, s.sendToPid pid = some client ↔
        s.lastBound pid = some client ∧ s.Bound pid client) ∧
      ∀ pid client, s.sendToPid pid = some client →
        ∀ clientFd pid', s.clients.find? clientFd = some client →
          s.pidByClientFd.find? clientFd = some pid' → pid' = pid := by
  have hs := inv_reachable hrun
  refine ⟨hs.inverse, fun clientFd pid hbound => ?_, fun pid client => ?_, ?_⟩
  · obtain ⟨client, hclient, -⟩ := hs.connected _ _ hbound
    exact (SortedMap.contains_iff _ _).mpr ⟨client, hclient⟩
  · rw [sendToPid_eq_some hs]
    exact ⟨fun h => ⟨lastBound_of_bound hs h, h⟩, And.right⟩
  · intro pid client hsend clientFd pid' hclient hbound
    obtain ⟨clientFd', hclient', hbound'⟩ := (sendToPid_eq_some hs).mp hsend
    obtain rfl := hs.single _ _ _ hclient hclient'
    exact Option.some.inj (hbound.symm.trans hbound')

/-- Two clients of one process: the message goes to the second. -/
theorem pid_maps_inverse_rebound :
    ∃ s, Reachable s ∧ s.sendToPid 7 = some 1 ∧ ∀ pid clientFd,
      s.clientFdByPid.find? pid = some clientFd ↔ s.pidByClientFd.find? clientFd = some pid := by
  have hrun : Reachable
      ((((init.acceptNewClient.getD init).acceptNewClient.getD init).bindPidToClient 7 1)
        |>.bindPidToClient 7 2) :=
    .tail (.tail (.tail (.tail .refl (.acceptNewClient rfl)) (.acceptNewClient rfl))
      (.bindPidToClient 7 1 (by decide))) (.bindPidToClient 7 2 (by decide))
  exact ⟨_, hrun, by decide, (pid_maps_inverse hrun).1⟩

end IPCServerEndpoint
end DxRt
