import Mathlib.Data.List.Dedup
import Memmy.Lib.Run
import Memmy.Mcp.Servers

/-! # The tools of a server

Which wrapper belongs to which server is told by its name alone when a server is unregistered, by the names that
were registered when its tools are refreshed, and by nothing when it is registered; and a call for the missing
servers and a reload may connect the same one.

* `Owned`, `KeepsUnchanged`: what the registry holds when all calls have finished, and what a step leaves alone.
* `Heeded`: what a step may not come upon.
* `inv_step`, `keepsUnchanged_of_inv`: what one step does to the invariant and to the servers it is not about.
* `tools_owned`: both, for every run whose steps heed this. -/

namespace Memmy.Mcp

open Function (update)
open Lib.Run Lib.Sort List Option State

/-! ### The property -/

section Property
variable (digest : String → String)

def Settled (s : State) : Prop := s.calls .missing = none ∧ s.calls .reload = none ∧ s.reload = none ∧ s.waiting = 0

/-- **The registry belongs to the stacks**: it holds what their servers offer, bound to their sessions; they have
the configurations of their names; and what was opened besides is closed. -/
structure Owned (s : State) : Prop where
  registry : ∀ name e, s.registry name = some e ↔ s.mcpStacks e.server = some e.session ∧
    e.item ∈ (s.conns e.session).items ∧ name = wrappedName digest e.server e.item
  configured : ∀ server session, s.mcpStacks server = some session →
    s.mcpServers.get server = some (s.conns session).config
  closed : ∀ session < s.nextConn, (∃ server, s.mcpStacks server = some session) ∨
    (s.conns session).closed = true

/-- **No two share a name**: what two servers offer is registered under different names. -/
def Unshared (s : State) : Prop :=
  ∀ server session server' session', s.mcpStacks server = some session → s.mcpStacks server' = some session' →
    ∀ i ∈ (s.conns session).items, ∀ j ∈ (s.conns session').items,
      wrappedName digest server i = wrappedName digest server' j → server = server' ∧ i = j

/-- The step is not about the server: a reload that closes servers keeps its configuration, and it is not the
plugins that are refreshed. -/
def Unchanged (s : State) (server : String) : Event → Prop
  | .reloadStart (some next) => s.mcpServers.get server = next.get server
  | .closeDone => ∀ reload, s.reload = some reload → s.mcpServers.get server = reload.nextServers.get server
  | .refreshed _ => server ≠ "plugins"
  | _ => True

/-- **Nothing is removed** of a server that the step is not about. -/
def KeepsUnchanged (s : State) (event : Event) : Prop :=
  (∀ name e, s.registry name = some e → Unchanged s e.server event → (step digest s event).registry name = some e) ∧
    ∀ server session, s.mcpStacks server = some session → Unchanged s server event →
      (step digest s event).mcpStacks server = some session

/-! ### The condition -/

/-- The prefix of the server finds its own wrappers, and no others. -/
def ClosesOnly (s : State) (server : String) : Prop :=
  ∀ name e, s.registry name = some e →
    (hasPrefix digest server name = true ↔ s.mcpStacks server = some e.session)

/-- The names of the items are different, and free. -/
def NamesFree (s : State) (server : String) (items : List Item) : Prop :=
  (∀ i ∈ items, s.registry (wrappedName digest server i) = none) ∧
    ∀ i ∈ items, ∀ j ∈ items, wrappedName digest server i = wrappedName digest server j → i = j

/-- **What a step may not come upon**: a name that is taken, a prefix that does not tell the server's wrappers from
the others, or a server that was connected, removed or changed since the call began. -/
def Heeded (s : State) : Event → Prop
  | .discover caller catalog => ∀ server config rest session connected,
      s.calls caller = some ⟨(server, config) :: rest, some session, connected⟩ →
        NamesFree digest s server (s.discoveredConn digest session catalog).items
  | .finish caller => ∀ connected, s.calls caller = some ⟨[], none, connected⟩ →
      ∀ entry ∈ connected, s.mcpStacks entry.1 = none ∧ s.mcpServers.get entry.1 = some (s.conns entry.2).config
  | .reloadStart (some next) => s.reload = none → 0 < s.waiting →
      ∀ server rest, s.removed next ++ s.changed next = server :: rest → ClosesOnly digest s server
  | .closeDone => ∀ next rest, s.reload = some ⟨next, .closing rest⟩ →
      match rest with
      | [] => ∀ server session, s.mcpStacks server = some session →
          next.get server = some (s.conns session).config
      | server :: _ => ClosesOnly digest s server
  | .refreshed (some tools) => ∀ next session, s.reload = some ⟨next, .refreshing session⟩ →
      let conn := s.conns session
      let items := (tools.filter (isEnabled digest conn.config conn.server)).map Item.tool
      (∀ i ∈ items, ∀ e, s.registry (wrappedName digest conn.server i) = some e →
        e.session = session ∧ e.item ∈ conn.tools.map Item.tool) ∧
      ∀ i ∈ items, ∀ j ∈ items, wrappedName digest conn.server i = wrappedName digest conn.server j → i = j
  | _ => True

end Property

/-! ### What the calls hold -/

def State.connectedAt (s : State) (caller : Caller) : List (String × ℕ) := (s.calls caller).elim [] (·.connected)

def State.todoAt (s : State) (caller : Caller) : List (String × ServerConfig) := (s.calls caller).elim [] (·.todo)

def State.currentAt (s : State) (caller : Caller) : Option ℕ := (s.calls caller).bind (·.current)

/-- **The session is in use**: it is that of a stack, or was connected by a call that has not returned. -/
def Live (s : State) (session : ℕ) : Prop :=
  (∃ server, s.mcpStacks server = some session) ∨ ∃ caller server, (server, session) ∈ s.connectedAt caller

section Calls
variable {s : State} {caller : Caller} {call : Call}

theorem connectedAt_of (h : s.calls caller = some call) : s.connectedAt caller = call.connected := by
  unfold connectedAt
  rw [h]
  rfl

theorem todoAt_of (h : s.calls caller = some call) : s.todoAt caller = call.todo := by
  unfold todoAt
  rw [h]
  rfl

theorem currentAt_of (h : s.calls caller = some call) : s.currentAt caller = call.current := by
  unfold currentAt
  rw [h]
  rfl

theorem connectedAt_setCall (c : Option Call) (other : Caller) : (s.setCall caller c).connectedAt other =
    if other = caller then c.elim [] (·.connected) else s.connectedAt other := by
  unfold connectedAt setCall
  by_cases h : other = caller
  · subst h
    simp
  · simp [h]

theorem todoAt_setCall (c : Option Call) (other : Caller) : (s.setCall caller c).todoAt other =
    if other = caller then c.elim [] (·.todo) else s.todoAt other := by
  unfold todoAt setCall
  by_cases h : other = caller
  · subst h
    simp
  · simp [h]

theorem currentAt_setCall (c : Option Call) (other : Caller) : (s.setCall caller c).currentAt other =
    if other = caller then c.bind (·.current) else s.currentAt other := by
  unfold currentAt setCall
  by_cases h : other = caller
  · subst h
    simp
  · simp [h]

theorem connectedAt_setCall_same {call' : Call} (h : s.calls caller = some call)
    (hsame : call'.connected = call.connected) (other : Caller) :
    (s.setCall caller (some call')).connectedAt other = s.connectedAt other := by
  rw [connectedAt_setCall]
  split_ifs with hother
  · rw [hother, connectedAt_of h]
    exact hsame
  · rfl

end Calls

theorem live_congr {s' : State} (hstack : s'.mcpStacks = s.mcpStacks)
    (hconnected : ∀ q, s'.connectedAt q = s.connectedAt q) (c : ℕ) : Live s' c ↔ Live s c := by
  unfold Live
  rw [hstack]
  simp only [hconnected]

/-! ### The registry -/

section Registry
variable {digest : String → String} {server : String} {session : ℕ} {registry : String → Option Entry}

theorem registerAll_of_not_mem {name : String} : ∀ {items : List Item} {registry : String → Option Entry},
    (∀ i ∈ items, wrappedName digest server i ≠ name) →
      registerAll digest server session items registry name = registry name
  | [], _, _ => rfl
  | i :: items, registry, h => by
    rw [forall_mem_cons] at h
    exact (@registerAll_of_not_mem name items _ h.2).trans (Function.update_of_ne (Ne.symm h.1) _ _)

theorem registerAll_of_mem {i : Item} : ∀ {items : List Item} {registry : String → Option Entry},
    (∀ i ∈ items, ∀ j ∈ items, wrappedName digest server i = wrappedName digest server j → i = j) → i ∈ items →
      registerAll digest server session items registry (wrappedName digest server i) = some ⟨server, i, session⟩
  | [], _, _, hi => absurd hi not_mem_nil
  | j :: items, registry, hinj, hi => by
    by_cases hmem : i ∈ items
    · exact @registerAll_of_mem i items _ (fun a ha b hb =>
        hinj a (mem_cons_of_mem _ ha) b (mem_cons_of_mem _ hb)) hmem
    · obtain rfl : i = j := (mem_cons.mp hi).resolve_right hmem
      refine (@registerAll_of_not_mem _ server session _ items _ fun k hk heq => hmem ?_).trans
        (Function.update_self _ _ _)
      rw [← hinj k (mem_cons_of_mem _ hk) i mem_cons_self heq]
      exact hk

theorem registerAll_eq_some {items : List Item} {name : String} {e : Entry}
    (hinj : ∀ i ∈ items, ∀ j ∈ items, wrappedName digest server i = wrappedName digest server j → i = j) :
    registerAll digest server session items registry name = some e ↔
      (∃ i ∈ items, wrappedName digest server i = name ∧ e = ⟨server, i, session⟩) ∨
        (∀ i ∈ items, wrappedName digest server i ≠ name) ∧ registry name = some e := by
  by_cases h : ∃ i ∈ items, wrappedName digest server i = name
  · obtain ⟨i, hi, rfl⟩ := h
    rw [registerAll_of_mem hinj hi, some.injEq]
    constructor
    · rintro rfl
      exact Or.inl ⟨i, hi, rfl, rfl⟩
    · rintro (⟨j, hj, heq, rfl⟩ | ⟨hno, -⟩)
      · rw [hinj j hj i hi heq]
      · exact absurd rfl (hno i hi)
  · push Not at h
    rw [registerAll_of_not_mem h]
    constructor
    · exact fun hold => Or.inr ⟨h, hold⟩
    · rintro (⟨i, hi, heq, -⟩ | ⟨-, hold⟩)
      · exact absurd heq (h i hi)
      · exact hold

theorem unregisterAll_eq_some {name : String} {e : Entry} : ∀ {items : List Item}
    {registry : String → Option Entry}, unregisterAll digest server items registry name = some e ↔
      (∀ i ∈ items, wrappedName digest server i ≠ name) ∧ registry name = some e
  | [], _ => by simp [unregisterAll]
  | i :: items, registry => by
    have ih := @unregisterAll_eq_some name e items (update registry (wrappedName digest server i) none)
    refine (show unregisterAll digest server (i :: items) registry name = _ ↔ _ from ih).trans ?_
    by_cases h : wrappedName digest server i = name
    · subst h
      simp
    · rw [Function.update_of_ne (Ne.symm h)]
      simp [h]

end Registry

/-- **What is assigned**: the entries, whose names are different, and what else was there. -/
theorem assignStacks_eq_some {server : String} {session : ℕ} : ∀ {connected : List (String × ℕ)} {s : State},
    (connected.map Prod.fst).Nodup →
    ((s.assignStacks connected).mcpStacks server = some session ↔ (server, session) ∈ connected ∨
      server ∉ connected.map Prod.fst ∧ s.mcpStacks server = some session)
  | [], s, _ => by simp [assignStacks]
  | (v, c) :: connected, s, hnodup => by
    obtain ⟨hv, hnodup⟩ := nodup_cons.mp hnodup
    have ih := @assignStacks_eq_some server session connected
      { s with mcpStacks := update s.mcpStacks v (some c) } hnodup
    refine (show (s.assignStacks ((v, c) :: connected)).mcpStacks server = _ ↔ _ from ih).trans ?_
    by_cases h : server = v
    · subst h
      have hno : (server, session) ∉ connected := fun hmem => hv (mem_map.mpr ⟨_, hmem, rfl⟩)
      simp [hno, hv, eq_comm]
    · simp [h]

/-! ### The invariant -/

section Invariant
variable (digest : String → String)

structure Inv (s : State) : Prop where
  stack : ∀ v c, s.mcpStacks v = some c → c < s.nextConn ∧ (s.conns c).server = v ∧ (s.conns c).closed = false
  stackConfig : ∀ v c, s.mcpStacks v = some c → s.mcpServers.get v = some (s.conns c).config
  connected : ∀ p v c, (v, c) ∈ s.connectedAt p → c < s.nextConn ∧ (s.conns c).server = v ∧
    (s.conns c).closed = false ∧ ∀ w, s.mcpStacks w ≠ some c
  names : ∀ p, ((s.connectedAt p).map Prod.fst ++ (s.todoAt p).map Prod.fst).Nodup
  /-- Two calls do not hold the same session. -/
  apart : ∀ p q v w c, (v, c) ∈ s.connectedAt p → (w, c) ∈ s.connectedAt q → p = q
  current : ∀ p c, s.currentAt p = some c → c < s.nextConn ∧ (s.conns c).closed = false ∧ ¬ Live s c ∧
    ∃ rest, s.todoAt p = ((s.conns c).server, (s.conns c).config) :: rest
  currentApart : ∀ p q c, s.currentAt p = some c → s.currentAt q = some c → p = q
  /-- Every open session is held. -/
  held : ∀ c < s.nextConn, (s.conns c).closed = true ∨ Live s c ∨ ∃ p, s.currentAt p = some c
  /-- The registry holds what the sessions in use offer. -/
  exact : ∀ name e, s.registry name = some e ↔ Live s e.session ∧ e.server = (s.conns e.session).server ∧
    e.item ∈ (s.conns e.session).items ∧ name = wrappedName digest e.server e.item
  /-- The servers that a reload closes are removed or changed. -/
  closing : ∀ next rest, s.reload = some ⟨next, .closing rest⟩ → ∀ v ∈ rest, s.mcpServers.get v ≠ next.get v
  connecting : (s.calls .reload).isSome = true → ∃ next names, s.reload = some ⟨next, .connecting names⟩
  refreshing : ∀ next c, s.reload = some ⟨next, .refreshing c⟩ → s.mcpStacks "plugins" = some c

end Invariant

/-! ### Steps of a call -/

section Steps
variable {digest : String → String} {s : State} {caller : Caller}
variable {catalog : Catalog} {todo : List (String × ServerConfig)} {tools : Option (List String)} {config : Option Servers}
variable {event : Event} {connected : List (String × ℕ)} {v : String}

/-- A session in use is not that of a call's own connection. -/
theorem Inv.currentAt_ne (h : Inv digest s) {c c' : ℕ} (hc : s.currentAt caller = some c) (hlive : Live s c') :
    c' ≠ c := by
  rintro rfl
  exact (h.current caller c' hc).2.2.1 hlive

theorem Inv.live_lt (h : Inv digest s) {c : ℕ} (hlive : Live s c) : c < s.nextConn := by
  rcases hlive with ⟨v, hv⟩ | ⟨p, v, hv⟩
  · exact (h.stack v c hv).1
  · exact (h.connected p v c hv).1

theorem inv_start (servers : Servers) : Inv digest (start servers) := by
  have hlive : ∀ c, ¬ Live (start servers) c := by
    rintro c (⟨v, hv⟩ | ⟨p, v, hv⟩)
    · cases hv
    · cases hv
  exact {
    stack := nofun
    stackConfig := nofun
    connected := nofun
    names := fun p => nodup_nil
    apart := nofun
    current := nofun
    currentApart := nofun
    held := fun c hc => absurd hc (Nat.not_lt_zero c)
    exact := fun name e => ⟨nofun, fun he => absurd he.1 (hlive _)⟩
    closing := nofun
    connecting := nofun
    refreshing := nofun }

section
variable (h : Inv digest s)
include h

theorem inv_beginCall (hnone : s.calls caller = none) (htodo : (todo.map Prod.fst).Nodup)
    (hreload : caller = .reload → ∃ next names, s.reload = some ⟨next, .connecting names⟩) :
    Inv digest (s.setCall caller (some ⟨todo, none, []⟩)) := by
  have hempty : s.connectedAt caller = [] := by
    unfold connectedAt
    rw [hnone]
    rfl
  have hcurrent : s.currentAt caller = none := by
    unfold currentAt
    rw [hnone]
    rfl
  have hconnected : ∀ q, (s.setCall caller (some ⟨todo, none, []⟩)).connectedAt q = s.connectedAt q := by
    intro q
    rw [connectedAt_setCall]
    split_ifs with hq
    · rw [hq, hempty]
      rfl
    · rfl
  have hcurrents : ∀ q, (s.setCall caller (some ⟨todo, none, []⟩)).currentAt q = s.currentAt q := by
    intro q
    rw [currentAt_setCall]
    split_ifs with hq
    · rw [hq, hcurrent]
      rfl
    · rfl
  have hlive : ∀ c, Live (s.setCall caller (some ⟨todo, none, []⟩)) c ↔ Live s c := live_congr rfl hconnected
  exact { h with
    connected := fun q v c hv => h.connected q v c (hconnected q ▸ hv)
    names := fun q => by
      rw [hconnected, todoAt_setCall]
      split_ifs with hq
      · rw [hq, hempty]
        exact htodo
      · exact h.names q
    apart := fun p q v w c hv hw => h.apart p q v w c (hconnected p ▸ hv) (hconnected q ▸ hw)
    current := fun q c hc => by
      rw [hcurrents] at hc
      obtain ⟨hlt, hclosed, hno, rest, htodo'⟩ := h.current q c hc
      refine ⟨hlt, hclosed, fun hl => hno ((hlive c).mp hl), rest, ?_⟩
      rw [todoAt_setCall, if_neg]
      · exact htodo'
      · rintro rfl
        rw [hcurrent] at hc
        cases hc
    currentApart := fun p q c hp hq => h.currentApart p q c (hcurrents p ▸ hp) (hcurrents q ▸ hq)
    held := fun c hc => by
      rcases h.held c hc with hclosed | hl | ⟨q, hq⟩
      · exact Or.inl hclosed
      · exact Or.inr (Or.inl ((hlive c).mpr hl))
      · exact Or.inr (Or.inr ⟨q, (hcurrents q).trans hq⟩)
    exact := fun name e => by
      rw [hlive]
      exact h.exact name e
    connecting := fun hc => by
      by_cases hreload' : caller = .reload
      · exact hreload hreload'
      · refine h.connecting ?_
        change (update s.calls caller _ Caller.reload).isSome = true at hc
        rwa [Function.update_of_ne (Ne.symm hreload')] at hc }

theorem inv_connectMissing : Inv digest s.connectMissing := by
  unfold connectMissing
  dsimp only
  split_ifs with hnone
  · exact h
  · rw [not_or, not_isSome_iff_eq_none] at hnone
    refine inv_beginCall h hnone.1 ?_ nofun
    exact s.mcpServers.nodup.sublist (filter_sublist.map Prod.fst)

/-- A call that is left by another way is still there. -/
theorem Inv.connecting_setCall {call' : Call} (hcall : s.calls caller = some call)
    (hc : (update s.calls caller (some call') Caller.reload).isSome = true) :
    ∃ next names, s.reload = some ⟨next, .connecting names⟩ := by
  refine h.connecting ?_
  by_cases hcaller : Caller.reload = caller
  · rw [hcaller, hcall]
    rfl
  · rwa [Function.update_of_ne hcaller] at hc

/-- **A connection is opened.** -/
theorem inv_openServer : Inv digest (s.openServer caller) := by
  unfold openServer
  split
  · next v cfg rest connected hcall =>
    set conn : Connection := {
      server := v
      config := cfg
      tools := []
      resources := []
      prompts := []
      closed := false }
    set s' : State := { s.setConn s.nextConn conn with
      nextConn := s.nextConn + 1 }.setCall caller (some ⟨(v, cfg) :: rest, some s.nextConn, connected⟩)
    have hold : ∀ c < s.nextConn, s'.conns c = s.conns c := fun c hc => Function.update_of_ne (Nat.ne_of_lt hc) _ _
    have hnew : s'.conns s.nextConn = conn := Function.update_self _ _ _
    have hconnected : ∀ q, s'.connectedAt q = s.connectedAt q := connectedAt_setCall_same hcall rfl
    have htodo : ∀ q, s'.todoAt q = s.todoAt q := by
      intro q
      refine (todoAt_setCall _ q).trans ?_
      split_ifs with hq
      · rw [hq, todoAt_of hcall]
        rfl
      · rfl
    have hcurrent : ∀ q, s'.currentAt q = if q = caller then some s.nextConn else s.currentAt q :=
      currentAt_setCall _
    have hnone : s.currentAt caller = none := currentAt_of hcall
    have hlive : ∀ c, Live s' c ↔ Live s c := live_congr rfl hconnected
    have hcurrentLt : ∀ q c, s.currentAt q = some c → c < s.nextConn := fun q c hc => (h.current q c hc).1
    exact {
      stack := fun w c hw => by
        obtain ⟨hlt, hserver, hclosed⟩ := h.stack w c hw
        rw [hold c hlt]
        exact ⟨Nat.lt_succ_of_lt hlt, hserver, hclosed⟩
      stackConfig := fun w c hw => by
        rw [hold c (h.stack w c hw).1]
        exact h.stackConfig w c hw
      connected := fun p w c hw => by
        rw [hconnected] at hw
        obtain ⟨hlt, hserver, hclosed, hstack⟩ := h.connected p w c hw
        rw [hold c hlt]
        exact ⟨Nat.lt_succ_of_lt hlt, hserver, hclosed, hstack⟩
      names := fun p => by
        rw [hconnected, htodo]
        exact h.names p
      apart := fun p q w w' c hp hq => h.apart p q w w' c (hconnected p ▸ hp) (hconnected q ▸ hq)
      current := fun q c hc => by
        rw [hcurrent] at hc
        rw [htodo, hlive]
        split_ifs at hc with hq
        · obtain rfl : s.nextConn = c := some.inj hc
          rw [hnew, hq, todoAt_of hcall]
          exact ⟨Nat.lt_succ_self _, rfl, fun hl => absurd (h.live_lt hl) (lt_irrefl _), rest, rfl⟩
        · obtain ⟨hlt, hclosed, hno, htodo'⟩ := h.current q c hc
          rw [hold c hlt]
          exact ⟨Nat.lt_succ_of_lt hlt, hclosed, hno, htodo'⟩
      currentApart := fun p q c hp hq => by
        rw [hcurrent] at hp hq
        split_ifs at hp hq with hp' hq' hq'
        · rw [hp', hq']
        · exact absurd (hcurrentLt q c hq) (by rw [← some.inj hp]; exact lt_irrefl _)
        · exact absurd (hcurrentLt p c hp) (by rw [← some.inj hq]; exact lt_irrefl _)
        · exact h.currentApart p q c hp hq
      held := fun c hc => by
        rcases Nat.lt_succ_iff_lt_or_eq.mp hc with hlt | rfl
        · rw [hold c hlt, hlive]
          refine (h.held c hlt).imp_right (Or.imp_right ?_)
          rintro ⟨q, hq⟩
          refine ⟨q, ?_⟩
          rw [hcurrent, if_neg]
          · exact hq
          · rintro rfl
            rw [hnone] at hq
            cases hq
        · exact Or.inr (Or.inr ⟨caller, (hcurrent caller).trans (if_pos rfl)⟩)
      exact := fun name e => by
        rw [hlive]
        refine (h.exact name e).trans (and_congr_right fun hl => ?_)
        rw [hold _ (h.live_lt hl)]
      closing := h.closing
      connecting := h.connecting_setCall hcall
      refreshing := h.refreshing }
  · exact h

theorem Inv.currentAt_setCall_none {s' : State}
    (hs : s'.calls = (s.setCall caller (some ⟨todo, none, connected⟩)).calls) {q : Caller} {c : ℕ} :
    s'.currentAt q = some c ↔ s.currentAt q = some c ∧ q ≠ caller ∧ s.currentAt caller ≠ some c := by
  unfold currentAt at *
  rw [hs]
  refine (Iff.of_eq (congrArg (· = some c) (@currentAt_setCall s caller (some ⟨todo, none, connected⟩) q))).trans ?_
  split_ifs with hq
  · simp [hq]
  · exact ⟨fun hc => ⟨hc, hq, fun hc' => hq (h.currentApart q caller c hc hc')⟩, And.left⟩

theorem inv_dropServer {entry : String × ServerConfig} {rest : List (String × ServerConfig)}
    {current : Option ℕ}
    (hcall : s.calls caller = some ⟨entry :: rest, current, connected⟩) {conns : ℕ → Connection}
    (hother : ∀ c, current ≠ some c → conns c = s.conns c)
    (hclosed : ∀ c, current = some c → (conns c).closed = true) :
    Inv digest ({ s with conns := conns }.setCall caller (some ⟨rest, none, connected⟩)) := by
  set s' : State := { s with conns := conns }.setCall caller (some ⟨rest, none, connected⟩)
  have hcur : s.currentAt caller = current := currentAt_of hcall
  have hconnected : ∀ q, s'.connectedAt q = s.connectedAt q :=
    @connectedAt_setCall_same { s with conns := conns } caller _ _ hcall rfl
  have hlive : ∀ c, Live s' c ↔ Live s c := live_congr rfl hconnected
  have hused : ∀ c, Live s c → s'.conns c = s.conns c := fun c hl =>
    hother c fun hc => (h.current caller c (hcur.trans hc)).2.2.1 hl
  have hcurrent : ∀ q c, s'.currentAt q = some c ↔ s.currentAt q = some c ∧ q ≠ caller ∧ current ≠ some c := by
    intro q c
    rw [← hcur]
    exact h.currentAt_setCall_none rfl
  exact { h with
    stack := fun v c hv => by
      rw [hused c (Or.inl ⟨v, hv⟩)]
      exact h.stack v c hv
    stackConfig := fun v c hv => by
      rw [hused c (Or.inl ⟨v, hv⟩)]
      exact h.stackConfig v c hv
    connected := fun p v c hv => by
      rw [hconnected] at hv
      rw [hused c (Or.inr ⟨p, v, hv⟩)]
      exact h.connected p v c hv
    names := fun p => by
      rw [hconnected, todoAt_setCall]
      split_ifs with hp
      · have hnames := h.names p
        rw [hp, todoAt_of hcall] at hnames
        rw [hp]
        exact hnames.sublist (List.Sublist.append_left (sublist_cons_self _ _) _)
      · exact h.names p
    apart := fun p q v w c hv hw => h.apart p q v w c (hconnected p ▸ hv) (hconnected q ▸ hw)
    current := fun q c hc => by
      obtain ⟨hc, hq, hne⟩ := (hcurrent q c).mp hc
      obtain ⟨hlt, hopen, hno, rest', htodo⟩ := h.current q c hc
      rw [show s'.conns c = s.conns c from hother c hne]
      refine ⟨hlt, hopen, fun hl => hno ((hlive c).mp hl), rest', ?_⟩
      rw [todoAt_setCall, if_neg hq]
      exact htodo
    currentApart := fun p q c hp hq =>
      h.currentApart p q c ((hcurrent p c).mp hp).1 ((hcurrent q c).mp hq).1
    held := fun c hc => by
      by_cases hne : current = some c
      · exact Or.inl (hclosed c hne)
      · rw [hlive, show s'.conns c = s.conns c from hother c hne]
        refine (h.held c hc).imp_right (Or.imp_right ?_)
        rintro ⟨q, hq⟩
        refine ⟨q, (hcurrent q c).mpr ⟨hq, ?_, hne⟩⟩
        rintro rfl
        exact hne (hcur.symm.trans hq)
    exact := fun name e => by
      rw [hlive]
      refine (h.exact name e).trans (and_congr_right fun hl => ?_)
      rw [hused _ hl]
    connecting := h.connecting_setCall hcall }

/-- **A server is left out**, or its connection fails. -/
theorem inv_skipServer : Inv digest (s.skipServer caller) := by
  unfold skipServer
  split
  · next entry rest connected hcall =>
    exact inv_dropServer h hcall (fun _ _ => rfl) nofun
  · exact h

/-- **A connection fails**, and is closed. -/
theorem inv_fail : Inv digest (s.fail caller) := by
  unfold fail
  split
  · next entry rest c₀ connected hcall =>
    refine inv_dropServer h hcall (fun c hc => Function.update_of_ne ?_ _ _) fun c hc => ?_
    · rintro rfl
      exact hc rfl
    · obtain rfl := some.inj hc
      rw [Function.update_self]
  · exact h

/-- **A server answers**, and what it offers is registered under free names. -/
theorem inv_discover (hp : Heeded digest s (.discover caller catalog)) :
    Inv digest (s.discover digest caller catalog) := by
  unfold discover
  split
  · next v cfg rest c₀ connected hcall =>
    obtain ⟨hfree, hinj⟩ := hp v cfg rest c₀ connected hcall
    set conn := s.discoveredConn digest c₀ catalog
    set s' : State := { s.setConn c₀ conn with
      registry := registerAll digest v c₀ conn.items s.registry }.setCall caller
        (some ⟨rest, none, connected ++ [(v, c₀)]⟩)
    have hcur : s.currentAt caller = some c₀ := currentAt_of hcall
    obtain ⟨hlt, hclosed, hno, rest', htodo'⟩ := h.current caller c₀ hcur
    rw [todoAt_of hcall] at htodo'
    have hv : (s.conns c₀).server = v := congrArg Prod.fst (List.cons.inj htodo').1.symm
    have hother : ∀ c ≠ c₀, s'.conns c = s.conns c := fun c hc => Function.update_of_ne hc _ _
    have hself : s'.conns c₀ = conn := Function.update_self _ _ _
    have hconnected : ∀ q, s'.connectedAt q = if q = caller then connected ++ [(v, c₀)] else s.connectedAt q :=
      connectedAt_setCall _
    have hmem : ∀ q w c, (w, c) ∈ s'.connectedAt q ↔ (w, c) ∈ s.connectedAt q ∨ q = caller ∧ w = v ∧ c = c₀ := by
      intro q w c
      rw [hconnected]
      split_ifs with hq
      · rw [hq, connectedAt_of hcall]
        simp
      · simp [hq]
    have hcurrent : ∀ q c, s'.currentAt q = some c ↔ s.currentAt q = some c ∧ q ≠ caller ∧ c ≠ c₀ := by
      intro q c
      refine (h.currentAt_setCall_none rfl).trans ?_
      rw [hcur, Ne, Ne, some.injEq, eq_comm (a := c₀)]
    have hlive : ∀ c, Live s' c ↔ Live s c ∨ c = c₀ := by
      intro c
      constructor
      · rintro (hstack | ⟨q, w, hw⟩)
        · exact Or.inl (Or.inl hstack)
        · rcases (hmem q w c).mp hw with hw | ⟨-, -, rfl⟩
          · exact Or.inl (Or.inr ⟨q, w, hw⟩)
          · exact Or.inr rfl
      · rintro ((hstack | ⟨q, w, hw⟩) | rfl)
        · exact Or.inl hstack
        · exact Or.inr ⟨q, w, (hmem q w c).mpr (Or.inl hw)⟩
        · exact Or.inr ⟨caller, v, (hmem caller v c).mpr (Or.inr ⟨rfl, rfl, rfl⟩)⟩
    exact { h with
      stack := fun w c hw => by
        rw [hother c (h.currentAt_ne hcur (Or.inl ⟨w, hw⟩))]
        exact h.stack w c hw
      stackConfig := fun w c hw => by
        rw [hother c (h.currentAt_ne hcur (Or.inl ⟨w, hw⟩))]
        exact h.stackConfig w c hw
      connected := fun p w c hw => by
        rcases (hmem p w c).mp hw with hw | ⟨-, rfl, rfl⟩
        · rw [hother c (h.currentAt_ne hcur (Or.inr ⟨p, w, hw⟩))]
          exact h.connected p w c hw
        · rw [hself]
          exact ⟨hlt, hv, hclosed, fun w' hw' => hno (Or.inl ⟨w', hw'⟩)⟩
      names := fun p => by
        rw [hconnected, todoAt_setCall]
        split_ifs with hp
        · have hnames := h.names p
          rw [hp, connectedAt_of hcall, todoAt_of hcall] at hnames
          simpa using hnames
        · exact h.names p
      apart := fun p q w w' c hw hw' => by
        rcases (hmem p w c).mp hw with hold | ⟨rfl, -, rfl⟩
        · rcases (hmem q w' c).mp hw' with hold' | ⟨-, -, rfl⟩
          · exact h.apart p q w w' c hold hold'
          · exact absurd (Or.inr ⟨p, w, hold⟩) hno
        · rcases (hmem q w' c).mp hw' with hold' | ⟨rfl, -, -⟩
          · exact absurd (Or.inr ⟨q, w', hold'⟩) hno
          · rfl
      current := fun q c hc => by
        obtain ⟨hc, hq, hne⟩ := (hcurrent q c).mp hc
        obtain ⟨hlt, hclosed, hno, rest', htodo⟩ := h.current q c hc
        rw [hother c hne, hlive]
        refine ⟨hlt, hclosed, not_or.mpr ⟨hno, hne⟩, rest', ?_⟩
        rw [todoAt_setCall, if_neg hq]
        exact htodo
      currentApart := fun p q c hp hq =>
        h.currentApart p q c ((hcurrent p c).mp hp).1 ((hcurrent q c).mp hq).1
      held := fun c hc => by
        rw [hlive]
        by_cases hne : c = c₀
        · exact Or.inr (Or.inl (Or.inr hne))
        · rw [hother c hne]
          refine (h.held c hc).imp_right (Or.imp Or.inl ?_)
          rintro ⟨q, hq⟩
          refine ⟨q, (hcurrent q c).mpr ⟨hq, ?_, hne⟩⟩
          rintro rfl
          exact hne (some.inj (hq.symm.trans hcur))
      exact := fun name e => by
        refine (registerAll_eq_some hinj).trans ?_
        rw [hlive]
        constructor
        · rintro (⟨i, hi, rfl, rfl⟩ | ⟨-, he⟩)
          · rw [hself]
            exact ⟨Or.inr rfl, hv.symm, hi, rfl⟩
          · have he := (h.exact name e).mp he
            rw [hother _ (h.currentAt_ne hcur he.1)]
            exact ⟨Or.inl he.1, he.2⟩
        · rintro ⟨hl, hserver, hitem, hname⟩
          by_cases hne : e.session = c₀
          · rw [hne, hself] at hserver hitem
            have hserver : e.server = v := hserver.trans hv
            refine Or.inl ⟨e.item, hitem, ?_, ?_⟩
            · rw [hname, hserver]
            · rw [← hserver, ← hne]
          · rw [hother _ hne] at hserver hitem
            have he := (h.exact name e).mpr ⟨hl.resolve_right hne, hserver, hitem, hname⟩
            refine Or.inr ⟨fun i hi heq => ?_, he⟩
            rw [← heq, hfree i hi] at he
            cases he
      connecting := h.connecting_setCall hcall }
  · exact h

/-- **What a reload changes of itself**: the configuration and where it is. -/
theorem Inv.withReload (servers : Servers) (reload : Option Reload)
    (hconfig : ∀ v c, s.mcpStacks v = some c → servers.get v = some (s.conns c).config)
    (hclosing : ∀ next rest, reload = some ⟨next, .closing rest⟩ → ∀ v ∈ rest, servers.get v ≠ next.get v)
    (hnone : s.calls .reload = none)
    (hrefreshing : ∀ next c, reload = some ⟨next, .refreshing c⟩ → s.mcpStacks "plugins" = some c) :
    Inv digest { s with
      mcpServers := servers
      reload := reload } :=
  { h with
    stackConfig := hconfig
    closing := hclosing
    connecting := fun hc => by
      rw [hnone] at hc
      cases hc
    refreshing := hrefreshing }

theorem Inv.withoutReload (hnone : s.calls .reload = none) : Inv digest { s with reload := none } :=
  h.withReload s.mcpServers none h.stackConfig (nofun) hnone nofun

end

theorem inv_afterConnect (h : Inv digest { s with reload := none }) (hnone : s.calls .reload = none)
    (next : Servers) (names : List String) : Inv digest (s.afterConnect next names) := by
  unfold afterConnect
  split_ifs
  · split
    · next c hc =>
      refine h.withReload s.mcpServers _ h.stackConfig (fun _ _ hr => ?_) hnone fun _ _ hr => ?_
      · cases hr
      · cases hr
        exact hc
    · exact h
  · exact h

/-- **A call returns**, and the servers that it has connected get their stacks. -/
theorem inv_assign (h : Inv digest s)
    (hcall : s.calls caller = some ⟨[], none, connected⟩) (hp : Heeded digest s (.finish caller)) :
    Inv digest ((s.assignStacks connected).setCall caller none) := by
  set s' := (s.assignStacks connected).setCall caller none
  have hconnectedAt : s.connectedAt caller = connected := connectedAt_of hcall
  have hnames : (connected.map Prod.fst).Nodup := by
    have hnames := h.names caller
    rw [hconnectedAt, todoAt_of hcall, map_nil, append_nil] at hnames
    exact hnames
  have hstack : ∀ v c, s'.mcpStacks v = some c ↔ (v, c) ∈ connected ∨ s.mcpStacks v = some c := by
    intro v c
    refine (assignStacks_eq_some hnames).trans (or_congr_right ⟨And.right, fun hv => ⟨fun hmem => ?_, hv⟩⟩)
    obtain ⟨entry, hentry, rfl⟩ := mem_map.mp hmem
    rw [(hp connected hcall entry hentry).1] at hv
    cases hv
  have hconnected : ∀ q, s'.connectedAt q = if q = caller then [] else s.connectedAt q := connectedAt_setCall _
  have hmem : ∀ q v c, (v, c) ∈ s'.connectedAt q ↔ q ≠ caller ∧ (v, c) ∈ s.connectedAt q := by
    intro q v c
    rw [hconnected]
    split_ifs with hq
    · simp [hq]
    · simp [hq]
  have hcurrent : ∀ q, s'.currentAt q = s.currentAt q := by
    intro q
    refine (currentAt_setCall _ q).trans ?_
    split_ifs with hq
    · rw [hq, currentAt_of hcall]
      rfl
    · rfl
  have hlive : ∀ c, Live s' c ↔ Live s c := by
    intro c
    constructor
    · rintro (⟨v, hv⟩ | ⟨q, v, hv⟩)
      · rcases (hstack v c).mp hv with hv | hv
        · exact Or.inr ⟨caller, v, hconnectedAt ▸ hv⟩
        · exact Or.inl ⟨v, hv⟩
      · exact Or.inr ⟨q, v, ((hmem q v c).mp hv).2⟩
    · rintro (⟨v, hv⟩ | ⟨q, v, hv⟩)
      · exact Or.inl ⟨v, (hstack v c).mpr (Or.inr hv)⟩
      · by_cases hq : q = caller
        · rw [hq, hconnectedAt] at hv
          exact Or.inl ⟨v, (hstack v c).mpr (Or.inl hv)⟩
        · exact Or.inr ⟨q, v, (hmem q v c).mpr ⟨hq, hv⟩⟩
  exact { h with
    stack := fun v c hv => by
      rcases (hstack v c).mp hv with hv | hv
      · obtain ⟨hlt, hserver, hclosed, -⟩ := h.connected caller v c (hconnectedAt ▸ hv)
        exact ⟨hlt, hserver, hclosed⟩
      · exact h.stack v c hv
    stackConfig := fun v c hv => by
      rcases (hstack v c).mp hv with hv | hv
      · exact (hp connected hcall _ hv).2
      · exact h.stackConfig v c hv
    connected := fun q v c hv => by
      obtain ⟨hq, hv⟩ := (hmem q v c).mp hv
      obtain ⟨hlt, hserver, hclosed, hno⟩ := h.connected q v c hv
      refine ⟨hlt, hserver, hclosed, fun w hw => ?_⟩
      rcases (hstack w c).mp hw with hw | hw
      · exact hq (h.apart q caller v w c hv (hconnectedAt ▸ hw))
      · exact hno w hw
    names := fun q => by
      rw [hconnected, todoAt_setCall]
      split_ifs
      · exact nodup_nil
      · exact h.names q
    apart := fun p q v w c hv hw => h.apart p q v w c ((hmem p v c).mp hv).2 ((hmem q w c).mp hw).2
    current := fun q c hc => by
      rw [hcurrent] at hc
      obtain ⟨hlt, hclosed, hno, rest, htodo⟩ := h.current q c hc
      refine ⟨hlt, hclosed, fun hl => hno ((hlive c).mp hl), rest, ?_⟩
      rw [todoAt_setCall, if_neg]
      · exact htodo
      · rintro rfl
        rw [currentAt_of hcall] at hc
        cases hc
    currentApart := fun p q c hp hq => h.currentApart p q c (hcurrent p ▸ hp) (hcurrent q ▸ hq)
    held := fun c hc => by
      rw [hlive]
      refine (h.held c hc).imp_right (Or.imp_right ?_)
      rintro ⟨q, hq⟩
      exact ⟨q, (hcurrent q).trans hq⟩
    exact := fun name e => by
      rw [hlive]
      exact h.exact name e
    connecting := fun hc => by
      refine h.connecting ?_
      change (update s.calls caller none Caller.reload).isSome = true at hc
      by_cases hcaller : Caller.reload = caller
      · rw [hcaller, Function.update_self] at hc
        cases hc
      · rwa [Function.update_of_ne hcaller] at hc
    refreshing := fun next c hr => (hstack _ c).mpr (Or.inr (h.refreshing next c hr)) }

theorem inv_finish (h : Inv digest s) (hp : Heeded digest s (.finish caller)) : Inv digest (s.finish caller) := by
  unfold finish
  split
  · next connected hcall =>
    have h' := inv_assign h hcall hp
    dsimp only
    split
    · next next' names hreload =>
      have hnone : ((s.assignStacks connected).setCall .reload none).calls .reload = none := rfl
      exact inv_afterConnect (h'.withoutReload hnone) hnone _ _
    · exact h'
  · exact h

/-! ### Steps of a reload -/

theorem closeServer_conns {c : ℕ} (hc : s.mcpStacks v ≠ some c) :
    (s.closeServer digest v).conns c = s.conns c := by
  unfold closeServer
  cases hv : s.mcpStacks v with
  | none => rfl
  | some c₀ =>
    refine Function.update_of_ne ?_ _ _
    rintro rfl
    exact hc hv

theorem closeServer_closed {c : ℕ} (hc : s.mcpStacks v = some c) :
    ((s.closeServer digest v).conns c).closed = true := by
  unfold closeServer
  rw [hc]
  dsimp only
  rw [Function.update_self]

theorem closeServer_stack {w : String} {c : ℕ} :
    (s.closeServer digest v).mcpStacks w = some c ↔ w ≠ v ∧ s.mcpStacks w = some c := by
  change update s.mcpStacks v none w = some c ↔ _
  by_cases hw : w = v
  · subst hw
    simp
  · simp [hw]

theorem closeServer_registry {name : String} {e : Entry} :
    (s.closeServer digest v).registry name = some e ↔
      hasPrefix digest v name = false ∧ s.registry name = some e := by
  unfold closeServer
  dsimp only
  by_cases hfound : hasPrefix digest v name = true
  · rw [if_pos hfound, hfound]
    simp
  · rw [if_neg hfound, Bool.eq_false_iff.mpr hfound]
    simp

/-- **A server is closed**, and its wrappers go with it. -/
theorem inv_closeServer (h : Inv digest s) {next : Servers} {rest : List String}
    (hp : ClosesOnly digest s v) (hnone : s.calls .reload = none)
    (hrest : ∀ w ∈ rest, s.mcpServers.get w ≠ next.get w) :
    Inv digest { s.closeServer digest v with reload := some ⟨next, .closing rest⟩ } := by
  set s' : State := { s.closeServer digest v with reload := some ⟨next, .closing rest⟩ }
  have hregistry : s'.registry = (s.closeServer digest v).registry := by
    simp only [s']
  have hstack : ∀ w c, s'.mcpStacks w = some c ↔ w ≠ v ∧ s.mcpStacks w = some c :=
    fun w c => @closeServer_stack digest s v w c
  have hconns : ∀ c, s.mcpStacks v ≠ some c → s'.conns c = s.conns c :=
    fun c hc => @closeServer_conns digest s v c hc
  have hclosed : ∀ c, s.mcpStacks v = some c → (s'.conns c).closed = true :=
    fun c hc => @closeServer_closed digest s v c hc
  have hne : ∀ w c, w ≠ v → s.mcpStacks w = some c → s.mcpStacks v ≠ some c := by
    intro w c hw hc hv
    exact hw ((h.stack w c hc).2.1.symm.trans (h.stack v c hv).2.1)
  have hlive : ∀ c, Live s' c ↔ Live s c ∧ s.mcpStacks v ≠ some c := by
    intro c
    constructor
    · rintro (⟨w, hw⟩ | ⟨p, w, hw⟩)
      · obtain ⟨hwv, hw⟩ := (hstack w c).mp hw
        exact ⟨Or.inl ⟨w, hw⟩, hne w c hwv hw⟩
      · exact ⟨Or.inr ⟨p, w, hw⟩, (h.connected p w c hw).2.2.2 v⟩
    · rintro ⟨⟨w, hw⟩ | ⟨p, w, hw⟩, hv⟩
      · refine Or.inl ⟨w, (hstack w c).mpr ⟨?_, hw⟩⟩
        rintro rfl
        exact hv hw
      · exact Or.inr ⟨p, w, hw⟩
  exact { h with
    stack := fun w c hw => by
      obtain ⟨hwv, hw⟩ := (hstack w c).mp hw
      rw [hconns c (hne w c hwv hw)]
      exact h.stack w c hw
    stackConfig := fun w c hw => by
      obtain ⟨hwv, hw⟩ := (hstack w c).mp hw
      rw [hconns c (hne w c hwv hw)]
      exact h.stackConfig w c hw
    connected := fun p w c hw => by
      obtain ⟨hlt, hserver, hopen, hno⟩ := h.connected p w c hw
      rw [hconns c (hno v)]
      exact ⟨hlt, hserver, hopen, fun w' hw' => hno w' ((hstack w' c).mp hw').2⟩
    current := fun p c hc => by
      obtain ⟨hlt, hopen, hno, htodo⟩ := h.current p c hc
      rw [hconns c fun hv => hno (Or.inl ⟨v, hv⟩)]
      exact ⟨hlt, hopen, fun hl => hno ((hlive c).mp hl).1, htodo⟩
    held := fun c hc => by
      by_cases hv : s.mcpStacks v = some c
      · exact Or.inl (hclosed c hv)
      · rw [hconns c hv, hlive]
        exact (h.held c hc).imp_right (Or.imp_left fun hl => ⟨hl, hv⟩)
    exact := fun name e => by
      rw [hlive, hregistry, closeServer_registry]
      constructor
      · rintro ⟨hfound, he⟩
        have hv : s.mcpStacks v ≠ some e.session := by
          intro hv
          rw [(hp name e he).mpr hv] at hfound
          cases hfound
        have he := (h.exact name e).mp he
        rw [hconns _ hv]
        exact ⟨⟨he.1, hv⟩, he.2⟩
      · rintro ⟨⟨hl, hv⟩, he⟩
        rw [hconns _ hv] at he
        have he := (h.exact name e).mpr ⟨hl, he⟩
        exact ⟨Bool.eq_false_iff.mpr fun hfound => hv ((hp name e he).mp hfound), he⟩
    closing := fun next' rest' hr => by
      cases hr
      exact hrest
    connecting := fun hc => by
      change (s.calls .reload).isSome = true at hc
      rw [hnone] at hc
      cases hc
    refreshing := nofun }

theorem mem_names_iff {servers : Servers} : v ∈ servers.names ↔ (servers.get v).isSome = true := by
  unfold Servers.names Servers.get
  rw [lookup_isSome_iff, List.mem_map]
  constructor
  · rintro ⟨entry, hentry, rfl⟩
    exact ⟨entry, hentry, beq_self_eq_true _⟩
  · rintro ⟨entry, hentry, heq⟩
    exact ⟨entry, hentry, (beq_iff_eq.mp heq).symm⟩

theorem mem_closed_iff {next : Servers} :
    v ∈ s.removed next ++ s.changed next ↔ v ∈ s.mcpServers.names ∧ s.mcpServers.get v ≠ next.get v := by
  unfold removed changed
  simp only [mem_append, mem_sortBy, mem_filter, decide_eq_true_eq]
  constructor
  · rintro (⟨hv, hnext⟩ | ⟨hv, -, hne⟩)
    · refine ⟨hv, fun heq => hnext (mem_names_iff.mpr ?_)⟩
      rw [← heq]
      exact mem_names_iff.mp hv
    · exact ⟨hv, hne⟩
  · rintro ⟨hv, hne⟩
    by_cases hnext : v ∈ next.names
    · exact Or.inr ⟨hv, hnext, hne⟩
    · exact Or.inl ⟨hv, hnext⟩

theorem names_filterMap (next : Servers) : ∀ names : List String,
    ((names.filterMap fun name => (next.get name).map (name, ·)).map Prod.fst).Sublist names
  | [] => List.Sublist.slnil
  | name :: names => by
    have ih := names_filterMap next names
    cases hget : next.get name with
    | none =>
      rw [filterMap_cons_none (by rw [hget]; rfl)]
      exact ih.cons _
    | some cfg =>
      rw [filterMap_cons_some (b := (name, cfg)) (by rw [hget]; rfl)]
      exact ih.cons_cons _

section
variable (h : Inv digest s)
include h

theorem inv_afterClose (hnone : s.calls .reload = none) {next : Servers}
    (hconfig : ∀ v c, s.mcpStacks v = some c → next.get v = some (s.conns c).config) :
    Inv digest (s.afterClose next) := by
  unfold afterClose
  dsimp only
  split_ifs
  · have h' := h.withReload next none hconfig (nofun) hnone nofun
    exact @inv_afterConnect digest { s with mcpServers := next } h' hnone next _
  · have h' := h.withReload next (some ⟨next, .connecting (s.toConnectNames next)⟩) hconfig
      (nofun) hnone nofun
    refine inv_beginCall h' hnone ?_ fun _ => ⟨_, _, rfl⟩
    refine List.Nodup.sublist (names_filterMap next _) ?_
    exact ((sortBy_perm (ascending id) _).nodup_iff).mpr (nodup_dedup _)

theorem Inv.calls_reload
    (hreload : ∀ next names, s.reload ≠ some ⟨next, .connecting names⟩) : s.calls .reload = none := by
  by_contra hne
  obtain ⟨next, names, hr⟩ := h.connecting (isSome_iff_ne_none.mpr hne)
  exact hreload next names hr

theorem inv_reloadStart
    (hp : Heeded digest s (.reloadStart config)) : Inv digest (s.reloadStart digest config) := by
  unfold reloadStart
  split_ifs with hbusy
  · exact h
  · rw [not_or, not_isSome_iff_eq_none] at hbusy
    obtain ⟨hr, hwaiting⟩ := hbusy
    have hnone : s.calls .reload = none := h.calls_reload fun next names heq => by
      rw [hr] at heq
      cases heq
    have h' : Inv digest { s with waiting := s.waiting - 1 } := { h with }
    cases config with
    | none => exact h'
    | some next =>
      have hmem : ∀ v ∈ s.removed next ++ s.changed next, s.mcpServers.get v ≠ next.get v :=
        fun v hv => (mem_closed_iff.mp hv).2
      change Inv digest (closeNext digest { s with waiting := s.waiting - 1 } next
        (s.removed next ++ s.changed next))
      cases hclose : s.removed next ++ s.changed next with
      | nil =>
        refine inv_afterClose h' hnone fun v c hv => ?_
        have hget := h.stackConfig v c hv
        by_contra hne
        have hv : v ∈ s.removed next ++ s.changed next := mem_closed_iff.mpr
          ⟨mem_names_iff.mpr (by rw [hget]; rfl), fun heq => hne (heq.symm.trans hget)⟩
        rw [hclose] at hv
        cases hv
      | cons v rest =>
        rw [hclose] at hmem
        exact inv_closeServer h' (hp hr (Nat.pos_of_ne_zero hwaiting) v rest hclose) hnone
          fun w hw => hmem w (mem_cons_of_mem _ hw)

theorem inv_closeDone (hp : Heeded digest s .closeDone) : Inv digest (s.closeDone digest) := by
  unfold closeDone
  split
  · next next rest hr =>
    have hnone : s.calls .reload = none := h.calls_reload fun next' names heq => by
      rw [hr] at heq
      cases heq
    have hp := hp next rest hr
    cases rest with
    | nil => exact inv_afterClose h hnone hp
    | cons v rest =>
      exact inv_closeServer h hp hnone fun w hw => h.closing next _ hr w (mem_cons_of_mem _ hw)
  · exact h

theorem inv_refreshTools {c₀ : ℕ} (hstack : s.mcpStacks "plugins" = some c₀) {tools : List String}
    (hown : ∀ i ∈ (tools.filter (isEnabled digest (s.conns c₀).config (s.conns c₀).server)).map Item.tool, ∀ e,
      s.registry (wrappedName digest (s.conns c₀).server i) = some e →
        e.session = c₀ ∧ e.item ∈ (s.conns c₀).tools.map Item.tool)
    (hinj : ∀ i ∈ (tools.filter (isEnabled digest (s.conns c₀).config (s.conns c₀).server)).map Item.tool,
      ∀ j ∈ (tools.filter (isEnabled digest (s.conns c₀).config (s.conns c₀).server)).map Item.tool,
        wrappedName digest (s.conns c₀).server i = wrappedName digest (s.conns c₀).server j → i = j) :
    Inv digest (s.refreshTools digest c₀ tools) := by
  unfold refreshTools
  set conn := s.conns c₀
  set enabled := tools.filter (isEnabled digest conn.config conn.server)
  set s' : State := { s.setConn c₀ { conn with tools := enabled } with
    registry := registerAll digest conn.server c₀ (enabled.map .tool)
      (unregisterAll digest conn.server (conn.tools.map .tool) s.registry) }
  have hother : ∀ c ≠ c₀, s'.conns c = s.conns c := fun c hc => Function.update_of_ne hc _ _
  have hself : s'.conns c₀ = { conn with tools := enabled } := Function.update_self _ _ _
  have hsame : ∀ c, (s'.conns c).server = (s.conns c).server ∧ (s'.conns c).config = (s.conns c).config ∧
      (s'.conns c).closed = (s.conns c).closed := by
    intro c
    by_cases hc : c = c₀
    · rw [hc, hself]
      exact ⟨rfl, rfl, rfl⟩
    · rw [hother c hc]
      exact ⟨rfl, rfl, rfl⟩
  have hlive : Live s c₀ := Or.inl ⟨_, hstack⟩
  -- What was registered for a tool of the session is the tool's own wrapper.
  have htool : ∀ i ∈ conn.tools.map Item.tool,
      s.registry (wrappedName digest conn.server i) = some ⟨conn.server, i, c₀⟩ := by
    intro i hi
    refine (h.exact _ _).mpr ⟨hlive, rfl, ?_, rfl⟩
    exact mem_append_left _ (mem_append_left _ hi)
  exact { h with
    stack := fun v c hv => by
      rw [(hsame c).1, (hsame c).2.2]
      exact h.stack v c hv
    stackConfig := fun v c hv => by
      rw [(hsame c).2.1]
      exact h.stackConfig v c hv
    connected := fun p v c hv => by
      rw [(hsame c).1, (hsame c).2.2]
      exact h.connected p v c hv
    current := fun p c hc => by
      rw [(hsame c).1, (hsame c).2.1, (hsame c).2.2]
      exact h.current p c hc
    held := fun c hc => by
      rw [(hsame c).2.2]
      exact h.held c hc
    exact := fun name e => by
      refine (registerAll_eq_some hinj).trans ?_
      rw [unregisterAll_eq_some, (hsame e.session).1]
      constructor
      · rintro (⟨i, hi, rfl, rfl⟩ | ⟨-, hgone, he⟩)
        · rw [hself]
          exact ⟨hlive, rfl, mem_append_left _ (mem_append_left _ hi), rfl⟩
        · obtain ⟨hl, hserver, hitem, hname⟩ := (h.exact name e).mp he
          refine ⟨hl, hserver, ?_, hname⟩
          by_cases hc : e.session = c₀
          · rw [hc] at hserver hitem
            rw [hc, hself]
            unfold Connection.items at hitem ⊢
            rw [append_assoc] at hitem ⊢
            refine mem_append_right _ ((mem_append.mp hitem).resolve_left fun htools => ?_)
            exact hgone e.item htools (by rw [hname, hserver])
          · rw [hother _ hc]
            exact hitem
      · rintro ⟨hl, hserver, hitem, hname⟩
        by_cases hc : e.session = c₀
        · rw [hc, hself] at hitem
          rw [hc] at hserver
          unfold Connection.items at hitem
          rw [append_assoc] at hitem
          rcases mem_append.mp hitem with htools | hrest
          · exact Or.inl ⟨e.item, htools, by rw [hname, hserver], by rw [← hserver, ← hc]⟩
          · have hno : ∀ ts : List String, e.item ∉ ts.map Item.tool := by
              intro ts hmem
              obtain ⟨t, -, ht⟩ := mem_map.mp hmem
              rcases mem_append.mp hrest with hr | hr
              · obtain ⟨r, -, hr⟩ := mem_map.mp hr
                exact Item.noConfusion (ht.trans hr.symm)
              · obtain ⟨r, -, hr⟩ := mem_map.mp hr
                exact Item.noConfusion (ht.trans hr.symm)
            have he : s.registry name = some e := by
              refine (h.exact name e).mpr ⟨hl, by rw [hc]; exact hserver, ?_, hname⟩
              rw [hc]
              unfold Connection.items
              rw [append_assoc]
              exact mem_append_right _ hrest
            refine Or.inr ⟨fun i hi heq => ?_, fun i hi heq => ?_, he⟩
            · exact hno _ (hown i hi e (heq ▸ he)).2
            · have heq' := htool i hi
              rw [heq, he] at heq'
              rw [some.inj heq'] at hno
              exact hno _ hi
        · rw [hother _ hc] at hitem
          have he := (h.exact name e).mpr ⟨hl, hserver, hitem, hname⟩
          refine Or.inr ⟨fun i hi heq => ?_, fun i hi heq => ?_, he⟩
          · exact hc (hown i hi e (heq ▸ he)).1
          · have heq' := htool i hi
            rw [heq, he] at heq'
            rw [some.inj heq'] at hc
            exact hc rfl }

theorem inv_refreshed (hp : Heeded digest s (.refreshed tools)) : Inv digest (s.refreshed digest tools) := by
  unfold refreshed
  split
  · next next c hr =>
    have hnone : s.calls .reload = none := h.calls_reload fun next' names heq => by
      rw [hr] at heq
      cases heq
    have h' := h.withoutReload hnone
    cases tools with
    | none => exact h'
    | some tools =>
      obtain ⟨hown, hinj⟩ := hp next c hr
      exact inv_refreshTools h' (h.refreshing next c hr) hown hinj
  · exact h

/-- **Every step that heeds the condition keeps the invariant.** -/
theorem inv_step (hp : Heeded digest s event) : Inv digest (step digest s event) := by
  cases event with
  | connectMissing => exact inv_connectMissing h
  | reloadServers => exact { h with }
  | reloadStart config => exact inv_reloadStart h hp
  | closeDone => exact inv_closeDone h hp
  | openServer caller => exact inv_openServer h
  | skipServer caller => exact inv_skipServer h
  | fail caller => exact inv_fail h
  | discover caller catalog => exact inv_discover h hp
  | finish caller => exact inv_finish h hp
  | refreshed tools => exact inv_refreshed h hp

end

/-! ### The servers that a step is not about -/

theorem Inv.entry_server (h : Inv digest s) {name : String} {e : Entry} (he : s.registry name = some e) :
    (s.conns e.session).server = e.server := ((h.exact name e).mp he).2.1.symm

theorem closeServer_keeps (h : Inv digest s) (hp : ClosesOnly digest s v) :
    (∀ name e, s.registry name = some e → e.server ≠ v → (s.closeServer digest v).registry name = some e) ∧
      ∀ server session, s.mcpStacks server = some session → server ≠ v →
        (s.closeServer digest v).mcpStacks server = some session := by
  constructor
  · intro name e he hne
    refine closeServer_registry.mpr ⟨Bool.eq_false_iff.mpr fun hfound => hne ?_, he⟩
    rw [← h.entry_server he]
    exact (h.stack v _ ((hp name e he).mp hfound)).2.1
  · exact fun server session hs hne => closeServer_stack.mpr ⟨hne, hs⟩

@[simp] theorem afterConnect_registry (next : Servers) (names : List String) :
    (s.afterConnect next names).registry = s.registry := by
  unfold afterConnect
  split_ifs
  · split <;> rfl
  · rfl

@[simp] theorem afterConnect_mcpStacks (next : Servers) (names : List String) :
    (s.afterConnect next names).mcpStacks = s.mcpStacks := by
  unfold afterConnect
  split_ifs
  · split <;> rfl
  · rfl

@[simp] theorem afterClose_registry (next : Servers) : (s.afterClose next).registry = s.registry := by
  unfold afterClose
  dsimp only
  split_ifs
  · exact afterConnect_registry next _
  · rfl

@[simp] theorem afterClose_mcpStacks (next : Servers) : (s.afterClose next).mcpStacks = s.mcpStacks := by
  unfold afterClose
  dsimp only
  split_ifs
  · exact afterConnect_mcpStacks next _
  · rfl

/-- The loop over the servers to close leaves the others. -/
theorem closeNext_keeps (h : Inv digest s) {next : Servers} {names : List String}
    (hp : ∀ v rest, names = v :: rest → ClosesOnly digest s v) :
    (∀ name e, s.registry name = some e → e.server ∉ names →
      (s.closeNext digest next names).registry name = some e) ∧
      ∀ server session, s.mcpStacks server = some session → server ∉ names →
        (s.closeNext digest next names).mcpStacks server = some session := by
  cases names with
  | nil =>
    unfold closeNext
    rw [afterClose_registry, afterClose_mcpStacks]
    exact ⟨fun _ _ he _ => he, fun _ _ hs _ => hs⟩
  | cons v rest =>
    obtain ⟨hregistry, hstack⟩ := closeServer_keeps h (hp v rest rfl)
    unfold closeNext
    dsimp only
    exact ⟨fun name e he hne => hregistry name e he (ne_of_not_mem_cons hne),
      fun server session hs hne => hstack server session hs (ne_of_not_mem_cons hne)⟩

theorem keepsUnchanged_of_eq (hregistry : (step digest s event).registry = s.registry)
    (hstack : (step digest s event).mcpStacks = s.mcpStacks) : KeepsUnchanged digest s event := by
  unfold KeepsUnchanged
  rw [hregistry, hstack]
  exact ⟨fun _ _ he _ => he, fun _ _ hs _ => hs⟩

theorem keepsUnchanged_discover (hp : Heeded digest s (.discover caller catalog)) :
    KeepsUnchanged digest s (.discover caller catalog) := by
  unfold KeepsUnchanged
  rw [show step digest s (.discover caller catalog) = s.discover digest caller catalog from rfl]
  unfold discover
  split
  · next v cfg rest c₀ connected hcall =>
    obtain ⟨hfree, -⟩ := hp v cfg rest c₀ connected hcall
    refine ⟨fun name e he _ => (registerAll_of_not_mem fun i hi heq => ?_).trans he, fun _ _ hs _ => hs⟩
    have hnone := hfree i hi
    rw [heq, he] at hnone
    cases hnone
  · exact ⟨fun _ _ he _ => he, fun _ _ hs _ => hs⟩

section
variable (h : Inv digest s)
include h

theorem keepsUnchanged_finish (hp : Heeded digest s (.finish caller)) :
    KeepsUnchanged digest s (.finish caller) := by
  have hassign : ∀ connected, s.calls caller = some ⟨[], none, connected⟩ → ∀ v c, s.mcpStacks v = some c →
      (s.assignStacks connected).mcpStacks v = some c := by
    intro connected hcall v c hv
    have hnames := h.names caller
    rw [connectedAt_of hcall, todoAt_of hcall, map_nil, append_nil] at hnames
    refine (assignStacks_eq_some hnames).mpr (Or.inr ⟨fun hmem => ?_, hv⟩)
    obtain ⟨entry, hentry, rfl⟩ := mem_map.mp hmem
    rw [(hp connected hcall entry hentry).1] at hv
    cases hv
  unfold KeepsUnchanged
  rw [show step digest s (.finish caller) = s.finish caller from rfl]
  unfold finish
  split
  · next connected hcall =>
    dsimp only
    split
    · rw [afterConnect_registry, afterConnect_mcpStacks]
      exact ⟨fun _ _ he _ => he, fun v c hv _ => hassign connected hcall v c hv⟩
    · exact ⟨fun _ _ he _ => he, fun v c hv _ => hassign connected hcall v c hv⟩
  · exact ⟨fun _ _ he _ => he, fun _ _ hs _ => hs⟩

theorem keepsUnchanged_refreshed
    (hp : Heeded digest s (.refreshed tools)) : KeepsUnchanged digest s (.refreshed tools) := by
  unfold KeepsUnchanged
  rw [show step digest s (.refreshed tools) = s.refreshed digest tools from rfl]
  unfold refreshed
  split
  · next next c hr =>
    cases tools with
    | none => exact ⟨fun _ _ he _ => he, fun _ _ hs _ => hs⟩
    | some tools =>
      obtain ⟨hown, -⟩ := hp next c hr
      have hplugins : (s.conns c).server = "plugins" := (h.stack _ c (h.refreshing next c hr)).2.1
      refine ⟨fun name e he hu => ?_, fun _ _ hs _ => hs⟩
      have hne : e.session ≠ c := by
        intro heq
        have hserver := h.entry_server he
        rw [heq, hplugins] at hserver
        exact hu hserver.symm
      refine (registerAll_of_not_mem fun i hi heq => hne (hown i hi e (heq ▸ he)).1).trans ?_
      refine unregisterAll_eq_some.mpr ⟨fun i hi heq => ?_, he⟩
      have hentry : s.registry (wrappedName digest (s.conns c).server i) = some ⟨(s.conns c).server, i, c⟩ :=
        (h.exact _ _).mpr ⟨Or.inl ⟨_, h.refreshing next c hr⟩, rfl,
          mem_append_left _ (mem_append_left _ hi), rfl⟩
      rw [heq] at hentry
      rw [some.inj (he.symm.trans hentry)] at hne
      exact hne rfl
  · exact ⟨fun _ _ he _ => he, fun _ _ hs _ => hs⟩

theorem keepsUnchanged_reloadStart
    (hp : Heeded digest s (.reloadStart config)) : KeepsUnchanged digest s (.reloadStart config) := by
  by_cases hbusy : s.reload.isSome = true ∨ s.waiting = 0
  · have hstep : step digest s (.reloadStart config) = s := by
      change s.reloadStart digest config = s
      unfold reloadStart
      rw [if_pos hbusy]
    exact keepsUnchanged_of_eq (congrArg registry hstep) (congrArg mcpStacks hstep)
  · cases config with
    | none =>
      have hstep : step digest s (.reloadStart none) = { s with waiting := s.waiting - 1 } := by
        change s.reloadStart digest none = _
        unfold reloadStart
        rw [if_neg hbusy]
      refine keepsUnchanged_of_eq ?_ ?_
      · rw [hstep]
      · rw [hstep]
    | some next =>
      have hstep : step digest s (.reloadStart (some next)) =
          closeNext digest { s with waiting := s.waiting - 1 } next (s.removed next ++ s.changed next) := by
        change s.reloadStart digest (some next) = _
        unfold reloadStart
        rw [if_neg hbusy]
        rfl
      rw [not_or, not_isSome_iff_eq_none] at hbusy
      have h' : Inv digest { s with waiting := s.waiting - 1 } := { h with }
      obtain ⟨hregistry, hstack⟩ := @closeNext_keeps _ _ h' next _
        fun v rest heq => hp hbusy.1 (Nat.pos_of_ne_zero hbusy.2) v rest heq
      have hmem : ∀ server, s.mcpServers.get server = next.get server →
          server ∉ s.removed next ++ s.changed next := fun server hu hmem => (mem_closed_iff.mp hmem).2 hu
      unfold KeepsUnchanged
      rw [hstep]
      exact ⟨fun name e he hu => hregistry name e he (hmem _ hu),
        fun server session hs hu => hstack server session hs (hmem _ hu)⟩

theorem keepsUnchanged_closeDone (hp : Heeded digest s .closeDone) : KeepsUnchanged digest s .closeDone := by
  unfold KeepsUnchanged
  rw [show step digest s .closeDone = s.closeDone digest from rfl]
  unfold closeDone
  split
  · next next rest hr =>
    have hp := hp next rest hr
    obtain ⟨hregistry, hstack⟩ := @closeNext_keeps _ _ h next rest fun v rest' heq => by
      subst heq
      exact hp
    have hmem : ∀ server, Unchanged s server .closeDone → server ∉ rest :=
      fun server hu hmem => h.closing next rest hr server hmem (hu _ hr)
    exact ⟨fun name e he hu => hregistry name e he (hmem _ hu),
      fun server session hs hu => hstack server session hs (hmem _ hu)⟩
  · exact ⟨fun _ _ he _ => he, fun _ _ hs _ => hs⟩

/-- **A step removes nothing of a server that it is not about.** -/
theorem keepsUnchanged_of_inv (hp : Heeded digest s event) : KeepsUnchanged digest s event := by
  cases event with
  | connectMissing =>
    refine keepsUnchanged_of_eq ?_ ?_
    all_goals
      unfold step connectMissing
      dsimp only
      split_ifs <;> rfl
  | reloadServers => exact keepsUnchanged_of_eq rfl rfl
  | reloadStart config => exact keepsUnchanged_reloadStart h hp
  | closeDone => exact keepsUnchanged_closeDone h hp
  | openServer caller =>
    refine keepsUnchanged_of_eq ?_ ?_
    all_goals
      unfold step openServer
      dsimp only
      split <;> rfl
  | skipServer caller =>
    refine keepsUnchanged_of_eq ?_ ?_
    all_goals
      unfold step skipServer
      dsimp only
      split <;> rfl
  | fail caller =>
    refine keepsUnchanged_of_eq ?_ ?_
    all_goals
      unfold step fail
      dsimp only
      split <;> rfl
  | discover caller catalog => exact keepsUnchanged_discover hp
  | finish caller => exact keepsUnchanged_finish h hp
  | refreshed tools => exact keepsUnchanged_refreshed h hp

end

/-! ### Runs -/

theorem unshared_of_inv (h : Inv digest s) : Unshared digest s := by
  intro v c v' c' hv hv' i hi j hj heq
  have hvc := h.stack v c hv
  have hvc' := h.stack v' c' hv'
  have hi' := (h.exact _ ⟨v, i, c⟩).mpr ⟨Or.inl ⟨v, hv⟩, hvc.2.1.symm, hi, rfl⟩
  have hj' := (h.exact _ ⟨v', j, c'⟩).mpr ⟨Or.inl ⟨v', hv'⟩, hvc'.2.1.symm, hj, rfl⟩
  rw [heq] at hi'
  have he := some.inj (hi'.symm.trans hj')
  exact ⟨congrArg Entry.server he, congrArg Entry.item he⟩

theorem owned_of_inv (h : Inv digest s) (hsettled : Settled s) : Owned digest s := by
  obtain ⟨hmissing, hreload, -, -⟩ := hsettled
  have hcalls : ∀ p, s.calls p = none := by
    intro p
    cases p
    · exact hmissing
    · exact hreload
  have hlive : ∀ c, Live s c ↔ ∃ v, s.mcpStacks v = some c := by
    refine fun c => ⟨?_, Or.inl⟩
    rintro (hstack | ⟨p, v, hv⟩)
    · exact hstack
    · unfold connectedAt at hv
      rw [hcalls p] at hv
      cases hv
  refine ⟨fun name e => (h.exact name e).trans ?_, h.stackConfig, fun c hc => ?_⟩
  · rw [hlive]
    constructor
    · rintro ⟨⟨v, hv⟩, hserver, hrest⟩
      rw [(h.stack v _ hv).2.1] at hserver
      refine ⟨?_, hrest⟩
      rw [hserver]
      exact hv
    · rintro ⟨hstack, hrest⟩
      exact ⟨⟨_, hstack⟩, (h.stack _ _ hstack).2.1.symm, hrest⟩
  · rcases h.held c hc with hclosed | hl | ⟨p, hp⟩
    · exact Or.inr hclosed
    · exact Or.inl ((hlive c).mp hl)
    · unfold currentAt at hp
      rw [hcalls p] at hp
      cases hp

/-- **The tools belong to their servers** in every run whose steps heed the condition: when all calls have
finished, the registry is what the stacks offer; no two share a name; and no step removes anything of a server that
it is not about. -/
theorem tools_owned (digest : String → String) (servers : Servers) (events : List Event)
    (h : ∀ t ∈ taken (step digest) (start servers) events, Heeded digest t.1 t.2) :
    (∀ s ∈ visited (step digest) (start servers) events, (Settled s → Owned digest s) ∧ Unshared digest s) ∧
      ∀ t ∈ taken (step digest) (start servers) events, KeepsUnchanged digest t.1 t.2 := by
  have hinv := invariant_of_steps (I := Inv digest) (P := Heeded digest) (fun s e hs he => inv_step hs he) events
    (start servers) (inv_start servers) h
  refine ⟨fun s hs => ⟨owned_of_inv (hinv s hs), unshared_of_inv (hinv s hs)⟩, fun t ht => ?_⟩
  exact keepsUnchanged_of_inv (hinv _ (mem_visited_of_mem_taken _ ht)) (h t ht)

end Steps

/-! ### Two servers, of which one's name begins with the other's -/

def oneServer (name : String) : Servers := ⟨[(name, ⟨"", ["*"]⟩)], nodup_singleton _⟩

theorem tools_owned_first : Owned (fun _ => "") (final (step fun _ => "") (start (oneServer "a"))
    [.connectMissing, .openServer .missing, .discover .missing ⟨["x"], [], []⟩, .finish .missing]) := by
  refine ((tools_owned (fun _ => "") (oneServer "a")
    [.connectMissing, .openServer .missing, .discover .missing ⟨["x"], [], []⟩, .finish .missing] ?_).1 _
    (final_mem_visited _ _ _)).1 ⟨rfl, rfl, rfl, rfl⟩
  simp only [taken_cons, taken_nil, forall_mem_cons]
  refine ⟨trivial, trivial, ?_, ?_, nofun⟩
  · intro server config rest session connected hcall
    obtain ⟨rfl, rfl⟩ : server = "a" ∧ session = 0 := by
      cases hcall
      exact ⟨rfl, rfl⟩
    refine ⟨fun _ _ => rfl, fun i hi j hj _ => ?_⟩
    have hitems : ∀ k ∈ (discoveredConn (fun _ => "")
        (step (fun _ => "") (step (fun _ => "") (start (oneServer "a")) .connectMissing) (.openServer .missing)) 0
        ⟨["x"], [], []⟩).items, k = Item.tool "x" := by decide +kernel
    rw [hitems i hi, hitems j hj]
  · intro connected hcall entry hentry
    obtain rfl : connected = [("a", 0)] := by
      cases hcall
      rfl
    obtain rfl : entry = ("a", 0) := mem_singleton.mp hentry
    exact ⟨rfl, rfl⟩

def twoServers : Servers := ⟨[("a", ⟨"", ["*"]⟩), ("a_b", ⟨"", ["*"]⟩)], by decide⟩

/-- Both servers are connected, and the first is removed from the configuration. -/
def removal : List Event := [.connectMissing, .openServer .missing, .discover .missing ⟨["x"], [], []⟩,
  .openServer .missing, .discover .missing ⟨["x"], [], []⟩, .finish .missing, .reloadServers]

/-- **The other's tool goes with it**: its name has the prefix of the server that is removed. -/
theorem tools_not_owned :
    ¬ KeepsUnchanged (fun _ => "") (final (step fun _ => "") (start twoServers) removal)
      (.reloadStart (some (oneServer "a_b"))) ∧
    Settled (final (step fun _ => "") (start twoServers)
      (removal ++ [.reloadStart (some (oneServer "a_b")), .closeDone])) ∧
    ¬ Owned (fun _ => "") (final (step fun _ => "") (start twoServers)
      (removal ++ [.reloadStart (some (oneServer "a_b")), .closeDone])) := by
  refine ⟨fun h => ?_, ⟨rfl, ?_, ?_, rfl⟩, fun h => ?_⟩
  · have hgone := h.1 "mcp_a_b_x" ⟨"a_b", .tool "x", 1⟩ (by decide +kernel)
      (show _ = (oneServer "a_b").get "a_b" by decide +kernel)
    exact absurd hgone (by decide +kernel)
  · exact isNone_iff_eq_none.mp (by decide +kernel)
  · exact isNone_iff_eq_none.mp (by decide +kernel)
  · have hthere := (h.registry "mcp_a_b_x" ⟨"a_b", .tool "x", 1⟩).mpr
      ⟨by decide +kernel, by decide +kernel, by decide +kernel⟩
    exact absurd hthere (by decide +kernel)

end Memmy.Mcp
